import Provision.Asset.Error
import Provision.Blob.Error
import Provision.Cipher.Sealer
import Provision.Vault.Scope
/-!
# The vault — errors

What can go wrong while a graph is saved or loaded.
-/

namespace Provision.Vault

/-- Why a graph could not be saved or loaded. -/
inductive Error where
  /-- The graph lacks the asset whose payload is kept in the clear. -/
  | missingBootstrap (asset : String)
  /-- Nothing has been saved for the scope. -/
  | notPersisted (scope : Scope)
  /-- An asset has no text. It is reported as if it were this error. -/
  | asset (e : Asset.Error)
  /-- What was sealed is no snapshot. -/
  | decode (problem : Json.Problem)
  /-- The snapshot could not be sealed or opened. -/
  | cipher (e : Cipher.Error)
  /-- The store refused. -/
  | blob (e : Blob.Error)
  deriving Repr, DecidableEq

namespace Error

/-- An error without the errors behind it. -/
def link : Error → Link
  | missingBootstrap name =>
    .ofText ("graph has no '" ++ name ++ "' asset to publish as bootstrap payload")
  | notPersisted scope => .ofText ("no persisted graph for scope '" ++ scope.display ++ "'")
  | asset e => e.link
  | decode problem => .ofText ("malformed persisted graph: " ++ problem.message)
  | cipher e => .ofText ("graph encryption: " ++ e.message)
  | blob e => .ofText ("blob storage: " ++ e.message)

/-- The wording of an error. -/
def message (e : Error) : String := e.link.message

/-- The errors behind an error, outermost first. -/
def sources : Error → List Link
  | missingBootstrap _ => []
  | notPersisted _ => []
  | asset e => e.sources
  | decode problem => [.ofText problem.message]
  | cipher e => e.toCause.links
  | blob e => e.toCause.links

/-- The error as those see it who only report it. -/
def toCause (e : Error) : Cause := ⟨e.link, e.sources⟩

/-- Whether a sealed graph was cut, changed, or sealed under another key. -/
def isAuthentication : Error → Bool
  | cipher .authentication => true
  | _ => false

end Error

end Provision.Vault
