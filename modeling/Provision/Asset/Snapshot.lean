import Provision.Asset.Graph
import Provision.Json.Reader
import Provision.Json.Writer
/-!
# Assets — snapshots

The durable form of a graph: the JSON text of each asset under its name.
Texts stay as they are until somebody asks for an asset of a kind, so
reading a snapshot makes no asset, and an entry that no kind could decode
does no harm while nobody wants it.

The entries are kept in the order of their names, which is the order of
their UTF-8 octets. So two snapshots with the same entries are equal, and
the document of a snapshot depends on the entries alone.
-/

namespace Provision.Asset

/-- The JSON texts of assets by name, in ascending order. -/
structure Snapshot where
  entries : List (String × String)
  sorted : entries.Pairwise (fun a b => a.1 < b.1)

namespace Snapshot

/-- The entries with `text` under `name`, in its place. -/
def putInto (name text : String) : List (String × String) → List (String × String)
  | [] => [(name, text)]
  | e :: es =>
    if name < e.1 then (name, text) :: e :: es
    else if e.1 < name then e :: putInto name text es
    else (name, text) :: es

theorem mem_putInto {name text : String} {e : String × String} {es : List (String × String)}
    (h : e ∈ putInto name text es) : e = (name, text) ∨ e ∈ es := by
  induction es with
  | nil => simpa [putInto] using h
  | cons d es ih => grind [putInto]

theorem sorted_putInto {name text : String} {es : List (String × String)}
    (h : es.Pairwise (fun a b => a.1 < b.1)) :
    (putInto name text es).Pairwise (fun a b => a.1 < b.1) := by
  induction es with
  | nil => simp [putInto]
  | cons d es ih =>
    rw [List.pairwise_cons] at h
    rw [putInto]
    split
    · next hlt =>
      refine List.pairwise_cons.2 ⟨fun e he => ?_, List.pairwise_cons.2 h⟩
      rcases List.mem_cons.1 he with rfl | he
      · exact hlt
      · exact String.lt_trans hlt (h.1 e he)
    · next hge =>
      split
      · next hgt =>
        refine List.pairwise_cons.2 ⟨fun e he => ?_, ih h.2⟩
        rcases mem_putInto he with rfl | he
        · exact hgt
        · exact h.1 e he
      · next hle =>
        have heq : name = d.1 := String.le_antisymm (String.not_lt.1 hle) (String.not_lt.1 hge)
        exact List.pairwise_cons.2 ⟨fun e he => heq ▸ h.1 e he, h.2⟩

/-- The snapshot without entries. -/
def empty : Snapshot := ⟨[], .nil⟩

/-- The snapshot with `text` under `name`, whatever was there before. -/
def insert (s : Snapshot) (name text : String) : Snapshot :=
  ⟨putInto name text s.entries, sorted_putInto s.sorted⟩

/-- The text under a name. -/
def raw (s : Snapshot) (name : String) : Option String :=
  (s.entries.find? fun e => e.1 = name).map Prod.snd

/-- Whether there is an entry under a name. -/
def contains (s : Snapshot) (name : String) : Bool := (s.raw name).isSome

/-- The names in ascending order. -/
def names (s : Snapshot) : List String := s.entries.map Prod.fst

/-- The number of entries. -/
def size (s : Snapshot) : Nat := s.entries.length

/-! ## The document -/

/-- The document of a snapshot: one object, each text as it is. -/
def render (s : Snapshot) : String := Json.Writer.object s.entries

/-- Reads an object of arbitrary values, each kept as its text. Of several
values under one name the last one stays. -/
def reader : Json.Reader Snapshot :=
  Json.Reader.object
    (fun name s => .ok fun bs => do
      let (text, rest) ← Json.raw bs
      return (s.insert name text, rest))
    empty

/-- The snapshot of a document. -/
def ofDocument (bs : Bytes) : Except Json.Problem Snapshot :=
  Json.document reader bs

/-! ## Assets of a snapshot -/

variable {τ ν : Type} [Kind τ]

/-- The asset of a kind. -/
def get (s : Snapshot) (c : Codec τ ν) (t : τ) : Except Error ν :=
  match s.raw (Kind.name t) with
  | none => .error (.missing (Kind.name t))
  | some text =>
    match c.decode t text with
    | .ok v => .ok v
    | .error p => .error (.decode (Kind.name t) p)

/-- The first of several kinds that has no entry. -/
def firstAbsent (s : Snapshot) (ts : List τ) : Option τ :=
  ts.find? fun t => !s.contains (Kind.name t)

/-- The assets of several kinds. **Absence is reported before anything
else**: no entry is decoded unless all are there. -/
def getMany (s : Snapshot) (c : Codec τ ν) (ts : List τ) : Except Error (List ν) :=
  match s.firstAbsent ts with
  | some t => .error (.missing (Kind.name t))
  | none => ts.mapM (s.get c)

end Snapshot

/-- **The snapshot of a graph**, up to the first asset that has no text. -/
def Graph.snapshot {τ ν : Type} [Kind τ] (g : Graph τ ν) (c : Codec τ ν) : Except Error Snapshot :=
  List.foldlM
    (fun s (name, h) =>
      match c.encode h.kind h.value with
      | .ok text => .ok (s.insert name text)
      | .error reason => .error (.encode name reason))
    Snapshot.empty g.assets.entries

end Provision.Asset
