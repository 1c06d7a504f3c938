import Provision.Asset.Basic
import Provision.Files.Tree
/-!
# Assets — a folder of earlier files

Files written earlier, found by name in one directory. A name that could
lead out of the directory is refused before the tree is looked at: an
absolute one, and one with `..` between slashes of either kind.
-/

namespace Provision.Asset

open Files

/-- A directory that earlier files are fetched from. -/
structure Folder where
  root : String
  deriving Repr, DecidableEq

namespace Folder

/-- Whether a character stands between the parts of a name, on any system. -/
def isSeparator (c : Char) : Bool := c = '/' || c = '\\'

/-- Whether a name could lead out of the directory it is looked for in. -/
def escapes (name : String) : Bool :=
  Path.isAbsolute name || (Split.texts isSeparator name).any (· = "..")

/-- What is said of a name that is refused. -/
def refusal (name : String) : String :=
  "file name '" ++ name ++ "' escapes the asset directory"

/-- **The file of a name**, `none` if there is none. -/
def fetch (f : Folder) (t : Tree) : Fetcher := fun name =>
  if escapes name then .error (.ofText (refusal name))
  else
    match t.read (Path.join f.root name) with
    | .ok data => .ok (some ⟨name, data⟩)
    | .error .notFound => .ok none
    | .error e => .error (.ofText e.message)

end Folder

end Provision.Asset
