import Provision.Asset.Graph
import Provision.Asset.Snapshot
/-!
# Rehearsals — assets

Assets whose behaviour is written down as data, so that any graph of
dependencies can be tried without writing a program for it. There are
thirty-two kinds and six *impostors*, which bear the names of the first six
kinds and are different kinds all the same. An asset holds one text.
-/

namespace Provision.Rehearsal

open Asset

/-- A kind of asset. -/
inductive Role where
  /-- One of the ordinary kinds. -/
  | node (i : Fin 32)
  /-- A kind that bears the name of an ordinary one. -/
  | impostor (i : Fin 6)
  deriving Repr, DecidableEq

namespace Role

/-- The number of a kind, which an impostor shares with another kind. -/
def index : Role → Nat
  | node i => i.val
  | impostor i => i.val

/-- How a kind is referred to; no two kinds alike. -/
def id : Role → String
  | node i => "n" ++ toString i.val
  | impostor i => "x" ++ toString i.val

/-- The name of the type of a kind. -/
def typeName : Role → String
  | node _ => "Node"
  | impostor _ => "Impostor"

/-- Every kind. -/
def all : List Role := (List.finRange 32).map node ++ (List.finRange 6).map impostor

theorem mem_all (r : Role) : r ∈ all := by
  cases r <;> simp [all]

instance : Kind Role where
  name r := "n" ++ toString r.index
  title r := "driver::assets::" ++ r.typeName ++ "<" ++ toString r.index ++ ">"
  all := all
  mem_all := mem_all

/-- The kind that is referred to. -/
def ofId? (id : String) : Option Role := all.find? fun r => r.id = id

end Role

/-- How an asset behaves. -/
structure Part where
  /-- The kinds that it declares to depend on. -/
  deps : List Role
  /-- The kinds that its generator asks for. -/
  reads : List Role
  /-- What its text begins with. -/
  base : String
  /-- What its generator fails with, if it fails. -/
  fails : Option String
  /-- The file that its loader asks for, if it asks for any. -/
  load : Option String
  /-- What its loader fails with, if it fails. -/
  loadFails : Option String
  deriving Repr, DecidableEq

namespace Part

/-- The behaviour of a kind of which nothing is said. -/
def plain (r : Role) : Part := ⟨[], [], r.id, none, none, none⟩

/-- What the generator makes of the texts of the assets it asked for. -/
def compose (p : Part) (texts : List String) : String :=
  if p.reads = [] then p.base else p.base ++ "(" ++ ",".intercalate texts ++ ")"

/-- The generator. -/
def generate (p : Part) (parents : Parents Role String) : Except Cause String :=
  match p.fails with
  | some text => .error (.ofText text)
  | none => (p.compose <$> p.reads.mapM parents).mapError Error.toCause

/-- The text that the files hold, if they do. -/
def read (p : Part) (files : Fetcher) : Except Cause (Option String) :=
  match p.loadFails with
  | some text => .error (.ofText text)
  | none =>
    match p.load with
    | none => .ok none
    | some name =>
      match files name with
      | .error c => .error c
      | .ok none => .ok none
      | .ok (some file) =>
        match Utf8.decode file.data with
        | .ok text => .ok (some text)
        | .error fault => .error (.ofText fault.message)

/-- The loader. A text that no file replaces stays as it was. -/
def loaded (p : Part) (text : String) (files : Fetcher) : Except Cause (Bool × String) :=
  (p.read files).map fun found => (found.isSome, found.getD text)

end Part

/-- The behaviour of every kind. -/
abbrev Cast := Role → Part

/-- The declarations of a cast. -/
def Cast.declarations (c : Cast) : Declarations Role String where
  blank _ := ""
  dependencies a := (c a.kind).deps
  load a := (c a.kind).loaded a.value
  generate a := (c a.kind).generate

/-! ## JSON -/

open Json

/-- What a text begins with that has no JSON form, for a reason that
follows. -/
def poison : String := "!poison"

/-- The JSON text of an asset. -/
def encode (text : String) : Except Link String :=
  match poison.toList.isPrefixOf? text.toList with
  | some rest => .error (Writer.refusal ("poisoned" ++ String.ofList rest))
  | none => .ok (Writer.object [("value", Writer.text text)])

/-- A record with one text in it, under a name that is required. -/
def textRecord (type field : String) : Record (Option String) String where
  wanted := "struct " ++ type
  wantedLength := "struct " ++ type ++ " with 1 element"
  fields :=
    [⟨field, fun bs => do
        let (s, bs) ← Reader.text "a string" bs
        return (fun _ => some s, bs)⟩]
  openEnd := false
  extensible := true
  start := none
  finish
    | some s => .ok s
    | none => .error (.missingField field)

/-- The asset of a JSON text. -/
def decode (r : Role) (text : String) : Except Problem String :=
  document (textRecord r.typeName "value").read (Utf8.encode text)

/-- How assets are written and read back. -/
def codec : Codec Role String where
  encode _ := encode
  decode := decode

end Provision.Rehearsal
