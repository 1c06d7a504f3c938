import Provision.Files.Error
import Provision.Files.Path
import Provision.Table
import Provision.Text.Utf8
/-!
# Files — the directory tree

Files and directories under the names on the way to them, and the directory
that relative paths start from. There are no links, so a place has one way
to it.

Operations come in two halves. A *question* (`locate`, `read`, the `can…`
functions) says whether an operation is refused, and which place it is
about; an `Action` at that place then always succeeds, and `perform` says
what it does to the tree. What an operation did is thus a list of actions,
and the tree after any number of them can be spoken of.
-/

namespace Provision.Files

/-- The names on the way from the root to a file or directory. -/
abbrev Place := List String

/-- What stands at a place. -/
inductive Node where
  | directory
  | file (content : Bytes)
  deriving Repr, DecidableEq

/-- Files and directories. -/
structure Tree where
  /-- What stands where; the root is a directory without being listed. -/
  nodes : Table Place Node
  /-- Where relative paths start. -/
  here : Place

namespace Tree

/-- An empty directory, and nothing else. -/
def emptyDirectory (here : Place) : Tree :=
  ⟨((List.range here.length).foldl
    (fun t i => t.insert (here.take (i + 1)) .directory) .empty), here⟩

/-- What stands at a place. -/
def node? (t : Tree) (p : Place) : Option Node :=
  if p = [] then some .directory else t.nodes.get? p

/-- Whether there is a directory at a place. -/
def isDirectoryAt (t : Tree) (p : Place) : Bool := t.node? p = some .directory

/-! ## Questions -/

/-- The longest name of a file, in octets. -/
def nameLimit : Nat := 255

/-- No path is as long as this, in octets. -/
def pathLimit : Nat := 4096

/-- The place that a path leads to, from `p` on, segment by segment. Every
place on the way has to be a directory; an empty segment and `.` stay
where they are. -/
def walk (t : Tree) : Place → List String → Except Error Place
  | p, [] => .ok p
  | p, s :: rest =>
    match t.node? p with
    | none => .error .notFound
    | some (.file _) => .error .notADirectory
    | some .directory =>
      if s = "" || s = "." then walk t p rest
      else if s = ".." then walk t p.dropLast rest
      else if nameLimit < Utf8.size s then .error .nameTooLong
      else if (t.node? (p ++ [s])).isSome then walk t (p ++ [s]) rest
      else .error .notFound

/-- Whether the system takes a text as a path at all. -/
def check (path : String) : Except Error Unit :=
  if '\x00' ∈ path.toList then .error .nulInName
  else if path = "" then .error .notFound
  else if pathLimit ≤ Utf8.size path then .error .nameTooLong
  else .ok ()

/-- Where a path starts. -/
def start (t : Tree) (path : String) : Place :=
  if Path.isAbsolute path then [] else t.here

/-- **The place of a path**, where something stands. -/
def locate (t : Tree) (path : String) : Except Error Place := do
  check path
  t.walk (t.start path) (Path.segments path)

/-- The content of the file of a path. -/
def read (t : Tree) (path : String) : Except Error Bytes := do
  let p ← t.locate path
  match t.node? p with
  | some (.file content) => return content
  | some .directory => throw .isADirectory
  | none => throw .notFound

/-- The place that a path names in a directory, whether or not something
stands there. The path ends in a name. -/
def locateNew (t : Tree) (path : String) : Except Error Place := do
  check path
  let segments := Path.segments path
  let directory ← t.walk (t.start path) segments.dropLast
  let name := segments.getLast?.getD ""
  match t.node? directory with
  | some .directory =>
    if nameLimit < Utf8.size name then throw .nameTooLong
    return directory ++ [name]
  | some (.file _) => throw .notADirectory
  | none => throw .notFound

/-- The place where a directory can be made. -/
def canMakeDirectory (t : Tree) (path : String) : Except Error Place := do
  match t.locate path with
  | .ok _ => throw .alreadyThere
  | .error .notFound => t.locateNew path
  | .error e => throw e

/-- The place where a file can be written from its beginning. -/
def canCreate (t : Tree) (path : String) : Except Error Place := do
  let p ← t.locateNew path
  if t.isDirectoryAt p then throw .isADirectory
  return p

/-- The place of a file that can be removed. -/
def canRemove (t : Tree) (path : String) : Except Error Place := do
  let p ← t.locate path
  if t.isDirectoryAt p then throw .isADirectory
  return p

/-! ## Actions -/

/-- A change of the tree that the system has agreed to. -/
inductive Action where
  | makeDirectory (p : Place)
  /-- A file is opened for writing, and is empty from then on. -/
  | create (p : Place)
  | append (p : Place) (bs : Bytes)
  /-- What has been written is made durable. -/
  | sync (p : Place)
  /-- A file gets another place, in one step. -/
  | rename (source target : Place)
  | remove (p : Place)
  deriving Repr, DecidableEq

/-- **What an action does to the tree.** -/
def perform (t : Tree) : Action → Tree
  | .makeDirectory p => { t with nodes := t.nodes.insert p .directory }
  | .create p => { t with nodes := t.nodes.insert p (.file []) }
  | .append p bs =>
    match t.nodes.get? p with
    | some (.file content) => { t with nodes := t.nodes.insert p (.file (content ++ bs)) }
    | _ => t
  | .sync _ => t
  | .rename source target =>
    match t.nodes.get? source with
    | some (.file content) =>
      { t with nodes := (t.nodes.erase source).insert target (.file content) }
    | _ => t
  | .remove p => { t with nodes := t.nodes.erase p }

/-- The tree after several actions. -/
def performAll (t : Tree) (as : List Action) : Tree := as.foldl perform t

/-- The tree with a file put at a place, with the directories on the way
to it. -/
def plant (t : Tree) (p : Place) (content : Bytes) : Tree :=
  let directories := (List.range (p.length - 1)).map fun i => p.take (i + 1)
  let t := t.performAll
    ((directories.filter fun d => (t.node? d).isNone).map Action.makeDirectory)
  { t with nodes := t.nodes.insert p (.file content) }

/-- The tree with an empty directory at a place, with the directories on the
way to it. -/
def plantDirectory (t : Tree) (p : Place) : Tree :=
  let directories := (List.range p.length).map fun i => p.take (i + 1)
  t.performAll ((directories.filter fun d => (t.node? d).isNone).map Action.makeDirectory)

/-- What stands below the directory that relative paths start from: the
paths in ascending order, those of directories ending in a slash, with the
content of the files. -/
def listing (t : Tree) : List (String × Option Bytes) :=
  let below := t.nodes.entries.filterMap fun (p, node) =>
    match t.here.isPrefixOf? p, node with
    | none, _ | some [], _ => none
    | some rest, .directory => some ("/".intercalate rest ++ "/", none)
    | some rest, .file content => some ("/".intercalate rest, some content)
  below.mergeSort fun a b => a.1 ≤ b.1

end Tree

end Provision.Files
