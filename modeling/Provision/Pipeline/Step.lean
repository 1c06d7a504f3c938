import Provision.Pipeline.Process
/-!
# Pipelines — steps

The three kinds of steps. An *action* calls its function once. A *condition*
polls its function until it holds or time is up. A *retrying* action calls
its function again as long as it fails for want of authorization, with
fresh credentials each time.

Both loops are driven by a deadline, and **the deadline is looked at only
between two calls**: a call that has begun is waited for, and what it
answers counts even when it answers late.
-/

namespace Provision.Pipeline

variable {σ : Type}

/-- A step that calls its function once. -/
structure Action (σ : Type) where
  name : String
  function : Function σ (Except Failure Unit)

/-- A step that polls its function until it holds. -/
structure Condition (σ : Type) where
  name : String
  function : Function σ (Except Failure Bool)
  /-- How long it may take; whole milliseconds of it count. -/
  timeout : Duration
  /-- Whether it is a failure when time is up. -/
  fails : Bool
  /-- The milliseconds between two polls. -/
  interval : Nat
  /-- What to tell those who see it time out. -/
  hint : Option String

/-- A step that calls its function with fresh credentials as long as it
lacks authorization. -/
structure Retrying (σ : Type) where
  name : String
  function : Function σ (Except Failure Unit)
  /-- Obtains fresh credentials. -/
  authorizer : Function σ (Except Cause Unit)
  /-- For how many milliseconds it is retried. -/
  timeout : Nat
  /-- The milliseconds between fresh credentials and the next attempt. -/
  interval : Nat

/-- A step of a pipeline. -/
inductive Step (σ : Type) where
  | action (a : Action σ)
  | condition (c : Condition σ)
  | retrying (r : Retrying σ)

/-! ## Actions -/

namespace Action

/-- The action as people are shown it. -/
def display (a : Action σ) : String := "[Action " ++ a.name ++ "]"

/-- The name under which its time is kept. -/
def metric (a : Action σ) : String := "action." ++ a.name

/-- **Runs an action.** -/
def run (a : Action σ) : Process σ Unit := do
  Process.ofExcept (← Process.call (.called a.display) a.function)

end Action

/-! ## Conditions -/

namespace Condition

/-- The milliseconds between two polls, unless said otherwise. -/
def standardInterval : Nat := 10000

/-- The condition as people are shown it. -/
def display (c : Condition σ) : String :=
  "[Condition " ++ c.name ++ ", timeout " ++ c.timeout.text ++ "]"

/-- The name under which its time is kept. -/
def metric (c : Condition σ) : String := "condition." ++ c.name

/-- What a poll's own failure is to the condition: running into a deadline
of its own is not the condition's giving up. -/
def classify (f : Failure) : Failure :=
  if f.isDeadlineExceeded then .internalTimeout f else f

/-- Polls until the function holds, at most `polls` times; `false` if time
was up before. -/
def pollUntil (c : Condition σ) (deadline : Nat) : (polls : Nat) → Process σ Bool
  | 0 => Process.stall
  | polls + 1 => do
    match ← Process.call (.called c.display) c.function with
    | .ok true => return true
    | .error f => Process.fail (classify f)
    | .ok false =>
      let next := (← Process.now) + c.interval
      if deadline ≤ next then
        Process.rest (some deadline)
        return false
      else
        Process.log .debug "condition not met yet" [("step", .text c.display)]
        Process.rest (some next)
        pollUntil c deadline polls

/-- Why the condition gave up. -/
def failure (c : Condition σ) : Failure := .timedOut c.name c.hint

/-- **Runs a condition.** A poll that takes no time and is followed by none
can be repeated for ever, hence the bound. -/
def run (c : Condition σ) : Process σ Unit := do
  let polls ← Process.look fun s => c.timeout.millis + 1 + s.patience
  let deadline := (← Process.now) + c.timeout.millis
  if ← c.pollUntil deadline polls then return ()
  else if c.fails then Process.fail c.failure
  else
    Process.log .warn "step failed but has configured 'fail=false', continuing"
      [("step", .text c.display), ("error", .text c.failure.message)]
    Process.note (.notified (.skipped c.display))

end Condition

/-! ## Retrying actions -/

namespace Retrying

/-- For how many milliseconds an action is retried, unless said
otherwise. -/
def standardTimeout : Nat := 600000

/-- The milliseconds between fresh credentials and the next attempt, unless
said otherwise. -/
def standardInterval : Nat := 30000

/-- The action as people are shown it. -/
def display (r : Retrying σ) : String := "[AuthorizationRetryingAction " ++ r.name ++ "]"

/-- The name under which its time is kept. -/
def metric (r : Retrying σ) : String := "authorizationretryingaction." ++ r.name

/-- Obtains fresh credentials for a denial. -/
def refresh (r : Retrying σ) (kind : Denial) (f : Failure) : Process σ Unit := do
  Process.log .warn "authorization error, refreshing authorizer"
    [("step", .text r.display), ("kind", .text kind.message), ("error", .text f.message)]
  match ← Process.call (.rebuilding r.display) r.authorizer with
  | .error cause => Process.fail (.refresh cause)
  | .ok () => Process.note (.notified (.refreshed r.display kind))

/-- Calls the function until it has the authorization it needs, at most
`attempts` times. -/
def attemptUntil (r : Retrying σ) (deadline : Nat) : (attempts : Nat) → Process σ Unit
  | 0 => Process.stall
  | attempts + 1 => do
    match ← Process.call (.called r.display) r.function with
    | .ok () => return ()
    | .error f =>
      match f.denial? with
      | none => Process.fail f
      | some kind =>
        if deadline ≤ (← Process.now) then Process.fail f
        else
          r.refresh kind f
          Process.rest (some ((← Process.now) + r.interval))
          attemptUntil r deadline attempts

/-- **Runs a retrying action.** An attempt that takes no time and is
followed by none can be repeated for ever, hence the bound. -/
def run (r : Retrying σ) : Process σ Unit := do
  let attempts ← Process.look fun s => r.timeout + 1 + s.patience
  let deadline := (← Process.now) + r.timeout
  r.attemptUntil deadline attempts

end Retrying

/-! ## Steps of any kind -/

namespace Step

/-- The step as people are shown it. -/
def display : Step σ → String
  | action a => a.display
  | condition c => c.display
  | retrying r => r.display

/-- The name under which the step's time is kept. -/
def metric : Step σ → String
  | action a => a.metric
  | condition c => c.metric
  | retrying r => r.metric

/-- **Runs a step.** -/
def run : Step σ → Process σ Unit
  | action a => a.run
  | condition c => c.run
  | retrying r => r.run

end Step

end Provision.Pipeline
