import Provision.Text.Quoted
/-!
# JSON — what can be wrong with a document

A reader of a document stops at the first problem it meets in reading
order. `Problem` is the cause, and `Problem.message` its wording.
-/

namespace Provision.Json

/-- What a document holds at a place where something else is wanted. -/
inductive Got where
  | null
  | boolean (value : Bool)
  | integer (value : Int)
  /-- A number with a fraction or an exponent, or beyond the integers; by
  its decimal text. -/
  | floating (shown : String)
  | text (value : String)
  | sequence
  | map
  /-- The bare name of a case that carries fields. -/
  | unitVariant
  deriving Repr, DecidableEq

/-- How the thing found is described. -/
def Got.message : Got → String
  | .null => "null"
  | .boolean b => "boolean `" ++ toString b ++ "`"
  | .integer n => "integer `" ++ toString n ++ "`"
  | .floating s => "floating point `" ++ s ++ "`"
  | .text s => "string " ++ Quoted.quote s
  | .sequence => "sequence"
  | .map => "map"
  | .unitVariant => "unit variant"

/-- Why a document cannot be read. -/
inductive Problem where
  | endInValue
  | endInObject
  | endInList
  | endInText
  /-- No value begins here. -/
  | noValue
  /-- A word that begins like `null`, `true` or `false` is none of them. -/
  | badWord
  /-- A key is not followed by a colon. -/
  | noColon
  /-- A member is followed by neither a comma nor the end of the object. -/
  | noCommaOrBrace
  /-- An item is followed by neither a comma nor the end of the list. -/
  | noCommaOrBracket
  | keyNotText
  /-- A comma is followed by the end. -/
  | trailingComma
  | trailingText
  | badNumber
  | numberTooLarge
  /-- A backslash is followed by no escape. -/
  | badEscape
  /-- A leading surrogate is not followed by a second escape. -/
  | surrogateCut
  /-- A surrogate has no partner. -/
  | loneSurrogate
  | controlInText
  /-- The octets of a string are no UTF-8. -/
  | badCodePoint
  /-- A value of another type is wanted. -/
  | wrongType (got : Got) (wanted : String)
  /-- An integer lies outside the wanted range. -/
  | wrongValue (value : Int) (wanted : String)
  /-- A list has too few items. -/
  | wrongLength (length : Nat) (wanted : String)
  | unknownVariant (name : String) (known : List String)
  /-- No field has this name, and none but the known ones is allowed. -/
  | unknownField (name : String) (known : List String)
  | missingField (name : String)
  | repeatedField (name : String)
  /-- A rule of the value itself is broken. -/
  | custom (text : String)
  deriving Repr, DecidableEq

namespace Problem

/-- The names that would have been understood, as a choice. -/
def choice : List String → String
  | [a] => "`" ++ a ++ "`"
  | [a, b] => "`" ++ a ++ "` or `" ++ b ++ "`"
  | names => "one of " ++ ", ".intercalate (names.map fun a => "`" ++ a ++ "`")

/-- The wording of a problem. -/
def message : Problem → String
  | endInValue => "EOF while parsing a value"
  | endInObject => "EOF while parsing an object"
  | endInList => "EOF while parsing a list"
  | endInText => "EOF while parsing a string"
  | noValue => "expected value"
  | badWord => "expected ident"
  | noColon => "expected `:`"
  | noCommaOrBrace => "expected `,` or `\x7d`"
  | noCommaOrBracket => "expected `,` or `]`"
  | keyNotText => "key must be a string"
  | trailingComma => "trailing comma"
  | trailingText => "trailing characters"
  | badNumber => "invalid number"
  | numberTooLarge => "number out of range"
  | badEscape => "invalid escape"
  | surrogateCut => "unexpected end of hex escape"
  | loneSurrogate => "lone leading surrogate in hex escape"
  | controlInText => "control character (\\u0000-\\u001F) found while parsing a string"
  | badCodePoint => "invalid unicode code point"
  | wrongType got wanted => "invalid type: " ++ got.message ++ ", expected " ++ wanted
  | wrongValue n wanted => "invalid value: integer `" ++ toString n ++ "`, expected " ++ wanted
  | wrongLength n wanted => "invalid length " ++ toString n ++ ", expected " ++ wanted
  | unknownVariant name known => "unknown variant `" ++ name ++ "`, expected " ++ choice known
  | unknownField name known => "unknown field `" ++ name ++ "`, expected " ++ choice known
  | missingField name => "missing field `" ++ name ++ "`"
  | repeatedField name => "duplicate field `" ++ name ++ "`"
  | custom text => text

end Problem

end Provision.Json
