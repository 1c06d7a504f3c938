import Provision.Asset.Error
import Provision.Text.Utf8
/-!
# Assets — what is declared about them

An asset is one unit of derived installation state. Its *kind* is the type
it belongs to; kinds are finitely many, and each has the name under which
graphs keep it. Nothing forces two kinds to have different names: whoever
keeps assets by name has to tell the kinds apart.

`Declarations` says of every kind what it depends on, how it is read back
from files written earlier, and how it is made from its parents. An asset
is *blank* before it is made, unless somebody gave it a value to begin
with; all that is declared may look at that value.
-/

namespace Provision.Asset

/-- The types of assets of a program. -/
class Kind (τ : Type) where
  /-- The name under which an asset of this kind is kept. -/
  name : τ → String
  /-- The kind as error texts call it. -/
  title : τ → String
  /-- Every kind. -/
  all : List τ
  /-- The list leaves out no kind. -/
  mem_all (t : τ) : t ∈ all

/-- How a dependency on a kind is shown to those who write declarations. -/
def dependencyText {τ : Type} [Kind τ] (t : τ) : String :=
  "Dependency(" ++ Quoted.quote (Kind.name t) ++ ")"

/-- An asset, made or not: a value of some kind. -/
structure Item (τ ν : Type) where
  kind : τ
  value : ν
  deriving Repr, DecidableEq

/-- A file that was written earlier. -/
structure File where
  name : String
  data : Bytes
  deriving Repr, DecidableEq

/-- A source of files written earlier; `none` where there is no such file. -/
abbrev Fetcher := String → Except Cause (Option File)

/-- The assets made so far, as a generator sees them. -/
abbrev Parents (τ ν : Type) := τ → Except Error ν

/-- What is declared about the kinds `τ`, whose assets have values `ν`. -/
structure Declarations (τ ν : Type) where
  /-- The value of an asset of which nothing is known yet. -/
  blank : τ → ν
  /-- The kinds that have to be there first, in the order of asking. -/
  dependencies : Item τ ν → List τ
  /-- Whether files written earlier hold the asset, and its value when they
  have been looked at. -/
  load : Item τ ν → Fetcher → Except Cause (Bool × ν)
  /-- The value of the asset as its parents determine it. -/
  generate : Item τ ν → Parents τ ν → Except Cause ν

namespace Declarations

variable {τ ν : Type}

/-- An asset of which nothing is known yet. -/
def unmade (d : Declarations τ ν) (t : τ) : Item τ ν := ⟨t, d.blank t⟩

/-- The assets that an asset asks for: unmade ones of the kinds that it
depends on. -/
def parents (d : Declarations τ ν) (a : Item τ ν) : List (Item τ ν) :=
  (d.dependencies a).map d.unmade

end Declarations

/-- How assets are written as JSON text, and read back. -/
structure Codec (τ ν : Type) where
  /-- The text of an asset, or why it has none. -/
  encode : τ → ν → Except Link String
  /-- The asset of a text. -/
  decode : τ → String → Except Json.Problem ν

end Provision.Asset
