/-!
# Files — errors

What a file system answers when it refuses.
-/

namespace Provision.Files

/-- Why a file operation was refused. -/
inductive Error where
  | notFound
  | alreadyThere
  | notADirectory
  | isADirectory
  | nameTooLong
  /-- The path has a character that no file name can hold. -/
  | nulInName
  /-- The file is no UTF-8 text. -/
  | notText
  deriving Repr, DecidableEq

/-- The wording of an error. -/
def Error.message : Error → String
  | notFound => "No such file or directory (os error 2)"
  | alreadyThere => "File exists (os error 17)"
  | notADirectory => "Not a directory (os error 20)"
  | isADirectory => "Is a directory (os error 21)"
  | nameTooLong => "File name too long (os error 36)"
  | nulInName => "file name contained an unexpected NUL byte"
  | notText => "stream did not contain valid UTF-8"

end Provision.Files
