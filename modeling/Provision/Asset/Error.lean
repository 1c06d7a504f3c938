import Provision.Cause
import Provision.Json.Problem
/-!
# Assets — errors

What can go wrong while assets are resolved, written and read back.
-/

namespace Provision.Asset

/-- Why an asset could not be had. -/
inductive Error where
  /-- The asset's own generator failed. -/
  | generate (asset : String) (source : Cause)
  /-- The asset's own loader failed. -/
  | load (asset : String) (source : Cause)
  /-- The dependencies run in a circle: the names along it, the first one
  again at the end. -/
  | cycle (path : List String)
  /-- Two kinds lay claim to one name. -/
  | nameCollision (name existing incoming : String)
  /-- A generator asked for an asset that is not there. -/
  | unresolved (name : String)
  /-- A persisted graph has no such entry. -/
  | missing (name : String)
  /-- The asset has no JSON text. -/
  | encode (asset : String) (reason : Link)
  /-- A persisted entry is no asset of the wanted kind. -/
  | decode (asset : String) (problem : Json.Problem)
  deriving Repr, DecidableEq

namespace Error

/-- An error without the errors behind it. -/
def link : Error → Link
  | generate asset source => source.head.under ("failed to generate asset '" ++ asset ++ "': ")
  | load asset source => source.head.under ("failed to load asset '" ++ asset ++ "' from files: ")
  | cycle path => .ofText ("dependency cycle detected: " ++ " -> ".intercalate path)
  | nameCollision name existing incoming =>
    .ofText ("asset name '" ++ name ++ "' is declared by both " ++ existing ++ " and " ++ incoming)
  | unresolved name => .ofText ("asset '" ++ name ++ "' has not been resolved")
  | missing name => .ofText ("asset '" ++ name ++ "' is missing from the persisted graph")
  | encode asset reason => reason.under ("failed to encode asset '" ++ asset ++ "': ")
  | decode asset problem =>
    .ofText ("failed to decode asset '" ++ asset ++ "': " ++ problem.message)

/-- The wording of an error. -/
def message (e : Error) : String := e.link.message

/-- The errors behind an error, outermost first. -/
def sources : Error → List Link
  | generate _ source => source.links
  | load _ source => source.links
  | encode _ reason => [reason]
  | decode _ problem => [.ofText problem.message]
  | _ => []

/-- The error as those see it who only report it. -/
def toCause (e : Error) : Cause := ⟨e.link, e.sources⟩

end Error

end Provision.Asset
