import Provision.Asset.Basic
import Provision.Table
/-!
# Assets — the graph

The assets had so far, at most one under each name, together with the files
that assets are read back from, if there are any. An asset under a name
stays of the kind it had when the name was taken: `set` refuses to put
another kind in its place, and the typed look-ups find nothing of another
kind. **No asset stands under a name that is not its own**: that is part of
what a graph is.
-/

namespace Provision.Asset

/-- The assets had so far. -/
structure Graph (τ ν : Type) [Kind τ] where
  /-- The assets under their names. -/
  assets : Table String (Item τ ν)
  /-- Where assets are read back from before they are generated. -/
  files : Option Fetcher
  /-- Each asset stands under the name of its kind. -/
  named : ∀ n h, assets.get? n = some h → Kind.name h.kind = n

namespace Graph

variable {τ ν : Type} [Kind τ]

/-- No assets, and no files to read any from. -/
def empty : Graph τ ν := ⟨.empty, none, by simp⟩

/-- No assets yet; each is looked for in `files` before it is generated. -/
def withFiles (files : Fetcher) : Graph τ ν := ⟨.empty, some files, by simp⟩

variable [DecidableEq τ]

/-- What stands under the name of a kind. -/
def held? (g : Graph τ ν) (t : τ) : Option (Item τ ν) := g.assets.get? (Kind.name t)

/-- The asset of a kind. -/
def get? (g : Graph τ ν) (t : τ) : Option ν :=
  match g.held? t with
  | some h => if h.kind = t then some h.value else none
  | none => none

/-- Whether the graph has the asset of a kind. -/
def contains (g : Graph τ ν) (t : τ) : Bool := (g.get? t).isSome

/-- What a generator sees of the graph. -/
def parents (g : Graph τ ν) : Parents τ ν := fun t =>
  match g.get? t with
  | some v => .ok v
  | none => .error (.unresolved (Kind.name t))

/-- Two kinds under one name: the one that is there, and the one that
comes. -/
def collision (existing incoming : τ) : Error :=
  .nameCollision (Kind.name existing) (Kind.title existing) (Kind.title incoming)

/-- The graph with an asset under the name of its kind. -/
def put (g : Graph τ ν) (t : τ) (v : ν) : Graph τ ν where
  assets := g.assets.insert (Kind.name t) ⟨t, v⟩
  files := g.files
  named n h hn := by
    rw [Table.get?_insert] at hn
    split at hn
    · next heq =>
      obtain rfl := Option.some.inj hn
      exact heq
    · exact g.named n h hn

/-- **Seeds the graph** with a value that is then never generated. -/
def set (g : Graph τ ν) (t : τ) (v : ν) : Except Error (Graph τ ν) :=
  match g.held? t with
  | some h => if h.kind = t then .ok (g.put t v) else .error (collision h.kind t)
  | none => .ok (g.put t v)

/-- The graph with the asset of a kind changed, if there is one. -/
def modify? (g : Graph τ ν) (t : τ) (f : ν → ν) : Option (Graph τ ν) :=
  (g.get? t).map fun v => g.put t (f v)

omit [DecidableEq τ] in
/-- The number of assets. -/
def size (g : Graph τ ν) : Nat := g.assets.size

omit [DecidableEq τ] in
/-- The names of the assets in ascending order. -/
def names (g : Graph τ ν) : List String := g.assets.keys.mergeSort (· ≤ ·)

/-- Seeds the graph with several values in order, up to the first that is
refused. -/
def setAll (g : Graph τ ν) : List (τ × ν) → Except Error (Graph τ ν)
  | [] => .ok g
  | (t, v) :: rest => do (← g.set t v).setAll rest

/-- What one is told who insists on an asset that is not there. -/
def absent (t : τ) : String :=
  "asset '" ++ Kind.name t ++ "' requested before it was resolved"

/-- The asset of a kind, for those who know that it is there. -/
def get (g : Graph τ ν) (t : τ) : Except String ν :=
  match g.get? t with
  | some v => .ok v
  | none => .error (absent t)

end Graph

end Provision.Asset
