import Provision.Blob.Error
import Provision.Files.Path
/-!
# Blobs — keys

A blob is addressed by a key: names with slashes between them. A text is a
key when none of the names is empty, `.` or `..`, and there is no backslash
in it; every other text could mean a place outside the store.
-/

namespace Provision.Blob.Key

/-- Whether a name may stand between the slashes of a key. -/
def isName (part : String) : Bool :=
  part ≠ "" && part ≠ "." && part ≠ ".."

/-- Whether a text is a key. -/
def isValid (key : String) : Bool :=
  key ≠ "" && !Files.Path.isAbsolute key && '\\' ∉ key.toList &&
    (Files.Path.segments key).all isName

/-- Refuses what is no key. -/
def check (key : String) : Except Error Unit :=
  if isValid key then .ok () else .error (.invalidKey key)

end Provision.Blob.Key
