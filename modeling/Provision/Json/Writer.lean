import Provision.Cause
/-!
# JSON — writing

Compact documents: no white space between the tokens, strings in quotes
with the short escapes where there are any, and every other character as
it is. A value that has no JSON text says why in words of its own.
-/

namespace Provision.Json.Writer

/-- A hexadecimal digit. -/
def hexDigit (n : Nat) : Char :=
  "0123456789abcdef".toList.getD (n % 16) '0'

/-- How one character is written in a string: quotes, backslashes and the
controls are escaped, all else stands for itself. -/
def escape (c : Char) : List Char :=
  match c with
  | '"' => ['\\', '"']
  | '\\' => ['\\', '\\']
  | '\x08' => ['\\', 'b']
  | '\x0c' => ['\\', 'f']
  | '\n' => ['\\', 'n']
  | '\r' => ['\\', 'r']
  | '\t' => ['\\', 't']
  | c =>
    if c.toNat < 0x20 then ['\\', 'u', '0', '0', hexDigit (c.toNat / 16), hexDigit c.toNat]
    else [c]

/-- A string in quotes. -/
def text (s : String) : String :=
  String.ofList ('"' :: (s.toList.flatMap escape ++ ['"']))

/-- A truth value. -/
def boolean (b : Bool) : String := if b then "true" else "false"

/-- An integer. -/
def natural (n : Nat) : String := toString n

/-- A list of values that are already written. -/
def list (items : List String) : String :=
  "[" ++ ",".intercalate items ++ "]"

/-- An object of values that are already written. -/
def object (members : List (String × String)) : String :=
  "\x7b" ++ ",".intercalate (members.map fun m => text m.1 ++ ":" ++ m.2) ++ "\x7d"

/-- Why a value cannot be written, in the value's words. A position that
the words end in is kept apart from them, and **line zero is no place in
any document**: there the words stand alone. -/
def refusal (words : String) : Link :=
  match Position.split? words with
  | none => .ofText words
  | some (text, p) => ⟨text, if p.line = 0 then none else some p, false⟩

end Provision.Json.Writer
