import Provision.Blob.Key
import Provision.Blob.Session
import Provision.Files.Tree
/-!
# Blobs — in a directory

A store that keeps each blob as a file below a base directory, the names of
the key being names of directories and of the file. A blob is written into
a file beside its place and moved there as the last action, so **nobody
ever finds a half-written blob**: before the move the place holds what it
held, and from then on the whole new content.
-/

namespace Provision.Blob

open Files

/-- Where the blobs are kept. -/
structure Directory where
  /-- The path of the base directory. -/
  base : String
  deriving Repr, DecidableEq

namespace Directory

/-- The path of a blob. -/
def pathOf (d : Directory) (key : String) : Except Error String := do
  Key.check key
  return Path.join d.base key

/-- What a refusal of the file system means for the blob of a key. -/
def refused (key : String) : Files.Error → Error
  | .notFound => .notFound key
  | e => .io (.system e)

/-- The content of a blob. A directory can be opened but not read. -/
def get (d : Directory) (t : Tree) (key : String) : Except Error Stream := do
  let path ← d.pathOf key
  match t.locate path with
  | .error e => throw (refused key e)
  | .ok p =>
    match t.node? p with
    | some (.file content) => return ⟨[content], none⟩
    | _ => return ⟨[], some (.io (.system .isADirectory))⟩

/-! ## Writing -/

/-- How far a change of the tree came: what was done, and why it went no
further, if it did not. -/
structure Progress where
  actions : List Tree.Action
  verdict : Except Error Unit

/-- The text of a path with these components. -/
def render : List Path.Component → String
  | [] => ""
  | .root :: cs => "/" ++ "/".intercalate (cs.map name)
  | cs => "/".intercalate (cs.map name)
where
  name : Path.Component → String
    | .root => ""
    | .here => "."
    | .parent => ".."
    | .named s => s

/-- Whether a path leads to a directory. -/
def isDirectory (t : Tree) (path : String) : Bool :=
  match t.locate path with
  | .ok p => t.isDirectoryAt p
  | .error _ => false

/-- What it comes to that a directory cannot be made: nothing, if there is
one already. -/
def settled (t : Tree) (path : String) (e : Files.Error) : Except Error Unit :=
  if isDirectory t path then .ok () else .error (.io (.system e))

/-- Makes sure that there is a directory at a path, given by its components
from the last one back, and directories on the way to it. -/
def makeDirectories (t : Tree) : List Path.Component → Progress
  | [] => ⟨[], .ok ()⟩
  | c :: cs =>
    let path := render (c :: cs).reverse
    match t.canMakeDirectory path with
    | .ok p => ⟨[.makeDirectory p], .ok ()⟩
    | .error .notFound =>
      let above := makeDirectories t cs
      match above.verdict with
      | .error _ => above
      | .ok () =>
        let t := t.performAll above.actions
        match t.canMakeDirectory path with
        | .ok p => ⟨above.actions ++ [.makeDirectory p], .ok ()⟩
        | .error e => ⟨above.actions, settled t path e⟩
    | .error e => ⟨[], settled t path e⟩

/-- The path beside a path, where content is collected. -/
def partialPath (path : String) : String := path ++ ".partial"

/-- Writes a stream into the file beside `path` and moves it there, the
directory being there. -/
def write (t : Tree) (path : String) (data : Stream) : Progress :=
  match t.canCreate (partialPath path) with
  | .error e => ⟨[], .error (.io (.system e))⟩
  | .ok p =>
    let written := .create p :: data.chunks.map (.append p)
    match data.failure with
    | some e => ⟨written, .error e⟩
    | none =>
      let written := written ++ [.sync p]
      match (t.performAll written).canCreate path with
      | .error e => ⟨written, .error (.io (.system e))⟩
      | .ok target => ⟨written ++ [.rename p target], .ok ()⟩

/-- **The actions that put a blob**: directories, the file beside, its
chunks, the move. -/
def put (d : Directory) (t : Tree) (key : String) (data : Stream) : Progress :=
  match d.pathOf key with
  | .error e => ⟨[], .error e⟩
  | .ok path =>
    let made := makeDirectories t (Path.components path).reverse.tail
    match made.verdict with
    | .error _ => made
    | .ok () =>
      let wrote := write (t.performAll made.actions) path data
      ⟨made.actions ++ wrote.actions, wrote.verdict⟩

/-- The action that removes a blob. -/
def delete (d : Directory) (t : Tree) (key : String) : Progress :=
  match d.pathOf key with
  | .error e => ⟨[], .error e⟩
  | .ok path =>
    match t.canRemove path with
    | .ok p => ⟨[.remove p], .ok ()⟩
    | .error e => ⟨[], .error (refused key e)⟩

/-- Whether there is a blob. A directory is none. -/
def has (d : Directory) (t : Tree) (key : String) : Except Error Bool := do
  let path ← d.pathOf key
  match t.locate path with
  | .ok p => return !t.isDirectoryAt p
  | .error .notFound => return false
  | .error e => throw (.io (.system e))

/-- A change of the tree as a store makes it. -/
def step (t : Tree) (p : Progress) : Except Error Unit × Tree :=
  (p.verdict, t.performAll p.actions)

/-- The store of blobs in a directory. -/
def store (d : Directory) : Store Tree where
  get key t := (d.get t key, t)
  put key data _ t := step t (d.put t key data)
  delete key t := step t (d.delete t key)
  has key t := (d.has t key, t)

end Directory

end Provision.Blob
