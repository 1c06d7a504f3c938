import Provision.Text.Split
/-!
# Files — paths

A path is a text. What it means are its components: empty parts and parts
`.` behind the beginning mean nothing, so several texts can be one path;
`..` is kept, since only the tree can tell where it leads.
-/

namespace Provision.Files.Path

/-- One step of a path. -/
inductive Component where
  | root
  /-- The directory one is in, named at the beginning of a path. -/
  | here
  | parent
  | named (name : String)
  deriving Repr, DecidableEq

/-- Whether a character stands between two steps. -/
def isSlash (c : Char) : Bool := c = '/'

/-- The texts between the slashes of a path. -/
def segments (path : String) : List String := Split.texts isSlash path

/-- Whether a path starts from the root. -/
def isAbsolute (path : String) : Bool := path.toList.head? = some '/'

/-- What a text between slashes means, if it means anything. -/
def step? (segment : String) : Option Component :=
  if segment = "" || segment = "." then none
  else if segment = ".." then some .parent
  else some (.named segment)

/-- **The components of a path**, which are what it means. -/
def components (path : String) : List Component :=
  let steps := (segments path).filterMap step?
  if isAbsolute path then .root :: steps
  else if (segments path).head? = some "." then .here :: steps
  else steps

/-- Whether two texts are the same path. -/
def same (a b : String) : Bool := components a = components b

/-- The path `rel` as seen from `base`. An absolute path is the same from
everywhere. -/
def join (base rel : String) : String :=
  if isAbsolute rel then rel
  else if base = "" then rel
  else if base.toList.getLast? = some '/' then base ++ rel
  else base ++ "/" ++ rel

end Provision.Files.Path
