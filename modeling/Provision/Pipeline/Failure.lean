import Provision.Cause
import Provision.Json.Reader
import Provision.Json.Writer
/-!
# Pipelines — failures

How a step can fail. Two questions decide what becomes of a failure: is it
an authorization failure that fresh credentials may cure, and is it the
expiry of a deadline. The second looks through everything a failure is
wrapped in: **an expiry counts at any depth** of the chain behind an
arbitrary error.
-/

namespace Provision.Pipeline

/-- Authorization failures that are expected to pass once credentials or
roles have spread. -/
inductive Denial where
  /-- The client is not known yet. -/
  | unauthorizedClient
  /-- A role has not spread yet. -/
  | authorizationFailed
  /-- The client's secret is not valid yet. -/
  | invalidSecret
  /-- The action asks for fresh credentials itself. -/
  | refreshRequested
  deriving Repr, DecidableEq

namespace Denial

/-- The wording of a denial. -/
def message : Denial → String
  | unauthorizedClient => "unauthorized client"
  | authorizationFailed => "authorization failed"
  | invalidSecret => "invalid client secret"
  | refreshRequested => "credential refresh requested"

/-- The name of a denial in documents. -/
def name : Denial → String
  | unauthorizedClient => "unauthorized_client"
  | authorizationFailed => "authorization_failed"
  | invalidSecret => "invalid_secret"
  | refreshRequested => "refresh_requested"

/-- Every denial. -/
def all : List Denial :=
  [unauthorizedClient, authorizationFailed, invalidSecret, refreshRequested]

/-- Reads a denial by its name. -/
def reader : Json.Reader Denial :=
  Json.Reader.oneOf (all.map fun d => (d.name, .bare d))

/-- The JSON text of a denial. -/
def write (d : Denial) : String := Json.Writer.text d.name

end Denial

/-- Why a step failed. -/
inductive Failure where
  /-- A classified authorization failure. -/
  | authorization (kind : Denial) (message : String)
  /-- A deadline of the function's own expired. -/
  | deadlineExceeded
  /-- A poll ran into a deadline of its own; the condition had not given
  up. -/
  | internalTimeout (inner : Failure)
  /-- A condition was not met in time. -/
  | timedOut (step : String) (hint : Option String)
  /-- Fresh credentials could not be had. -/
  | refresh (cause : Cause)
  /-- The pipeline was cancelled. -/
  | cancelled
  /-- Any other error, reported as if it were this failure. -/
  | other (cause : Cause)
  deriving Repr, DecidableEq

namespace Failure

/-- The failure of an action that asks for fresh credentials. -/
def refreshRequested : Failure :=
  .authorization .refreshRequested "action requested fresh credentials"

/-- A failure without the errors behind it. Only an expired deadline is an
expiry: another error has become a failure. -/
def link : Failure → Link
  | authorization kind message => .ofText (kind.message ++ ": " ++ message)
  | deadlineExceeded => ⟨"context deadline exceeded", none, true⟩
  | internalTimeout inner => inner.link.under "condition encountered internal timeout: "
  | timedOut _ hint =>
    .ofText ("timed out waiting for the condition" ++ (hint.elim "" fun h => ": " ++ h))
  | refresh cause => cause.head.under "failed to refresh authorizer: "
  | cancelled => .ofText "step cancelled"
  | other cause => { cause.head with expired := false }

/-- The wording of a failure. -/
def message (f : Failure) : String := f.link.message

/-- The errors behind a failure, outermost first. What a poll ran into is
shown there but is no expiry any more: it has been dealt with. -/
def sources : Failure → List Link
  | internalTimeout inner => { inner.link with expired := false } :: inner.sources
  | refresh cause => cause.links
  | other cause => cause.sources
  | _ => []

/-- The failure as an error among others. -/
def toCause (f : Failure) : Cause := ⟨f.link, f.sources⟩

/-- What is reported of a failure by those who hold arbitrary errors: the
error in it, if it is one of those, and else the failure. -/
def unwrapped : Failure → Cause
  | other cause => cause
  | f => f.toCause

/-- The kind of an authorization failure. -/
def denial? : Failure → Option Denial
  | authorization kind _ => some kind
  | _ => none

/-- **Whether a failure is the expiry of a deadline**, itself or anywhere
in the chain of another error. -/
def isDeadlineExceeded : Failure → Bool
  | deadlineExceeded => true
  | other cause => cause.links.any Link.expired
  | _ => false

/-- Whether a failure is a condition's giving up. -/
def isTimeout : Failure → Bool
  | timedOut _ _ => true
  | _ => false

end Failure

end Provision.Pipeline
