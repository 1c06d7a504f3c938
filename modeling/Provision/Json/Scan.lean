import Provision.Json.Problem
import Provision.Text.Utf8
/-!
# JSON — scanning octets

The lexical rules on lists of octets: white space, words, strings, and
values that are passed over without being understood. `skip` accepts every
value that follows the grammar, at any depth, and leaves what stands after
it; `raw` keeps the text it passed over. Neither pairs surrogates nor
weighs numbers: only where a string or a number is really read
(`textBody`, and the numerals) does its meaning matter.
-/

namespace Provision.Json

/-- The octet of an ASCII character. -/
@[inline] def octet (c : Char) : UInt8 := c.toNat.toUInt8

/-- White space between the tokens of a document. -/
def isSpace (b : UInt8) : Bool :=
  b = 0x20 || b = 0x0A || b = 0x09 || b = 0x0D

/-- The octets from the next token on. -/
def skipSpace (bs : Bytes) : Bytes :=
  bs.dropWhile isSpace

/-- A decimal digit. -/
def isDigit (b : UInt8) : Bool :=
  0x30 ≤ b && b ≤ 0x39

/-- What is left of the octets behind the rest of a word. -/
def word : Bytes → Bytes → Except Problem Bytes
  | [], rest => .ok rest
  | _ :: _, [] => .error .endInValue
  | w :: ws, b :: rest => if b = w then word ws rest else .error .badWord

/-- The rest of the word `null` behind its first letter. -/
def ull : Bytes := [0x75, 0x6C, 0x6C]

/-- The rest of the word `true` behind its first letter. -/
def rue : Bytes := [0x72, 0x75, 0x65]

/-- The rest of the word `false` behind its first letter. -/
def alse : Bytes := [0x61, 0x6C, 0x73, 0x65]

/-! ## Strings -/

/-- The character that a one-letter escape stands for. -/
def shortEscape (b : UInt8) : Option UInt8 :=
  if b = octet '"' || b = octet '\\' || b = octet '/' then some b
  else if b = octet 'b' then some 0x08
  else if b = octet 'f' then some 0x0C
  else if b = octet 'n' then some 0x0A
  else if b = octet 'r' then some 0x0D
  else if b = octet 't' then some 0x09
  else none

/-- The value of a hexadecimal digit, in either case. -/
def hexDigit (b : UInt8) : Option Nat :=
  if isDigit b then some (b.toNat - 0x30)
  else if 0x61 ≤ b && b ≤ 0x66 then some (b.toNat - 0x61 + 10)
  else if 0x41 ≤ b && b ≤ 0x46 then some (b.toNat - 0x41 + 10)
  else none

/-- The value of four hexadecimal digits. -/
def hex4 (a b c d : UInt8) : Option Nat := do
  let a ← hexDigit a
  let b ← hexDigit b
  let c ← hexDigit c
  let d ← hexDigit d
  return ((a * 16 + b) * 16 + c) * 16 + d

/-- The first half of a pair of surrogates. -/
def isLeading (n : Nat) : Bool := 0xD800 ≤ n && n ≤ 0xDBFF

/-- The second half of a pair of surrogates. -/
def isTrailing (n : Nat) : Bool := 0xDC00 ≤ n && n ≤ 0xDFFF

/-- The code point of a pair of surrogates. -/
def pair (lead trail : Nat) : Nat :=
  (lead - 0xD800) * 0x400 + (trail - 0xDC00) + 0x10000

/-- The octets of a code point. -/
def codePoint (n : Nat) : Bytes :=
  String.utf8EncodeChar (Char.ofNat n)

/-- Octets put before what a reading found. -/
def prepend (bs : Bytes) (r : Bytes × Bytes) : Bytes × Bytes :=
  (bs ++ r.1, r.2)

/-- **The octets a string stands for**, and what follows its closing
quote. Reading begins behind the opening quote. -/
def textBody : Bytes → Except Problem (Bytes × Bytes)
  | [] => .error .endInText
  | b :: rest =>
    if b = octet '"' then .ok ([], rest)
    else if b = octet '\\' then
      match rest with
      | [] => .error .endInText
      | c :: rest =>
        if c = octet 'u' then
          match rest with
          | h₁ :: h₂ :: h₃ :: h₄ :: rest =>
            match hex4 h₁ h₂ h₃ h₄ with
            | none => .error .badEscape
            | some n =>
              if isTrailing n then .error .loneSurrogate
              else if isLeading n then
                match rest with
                | [] => .error .endInText
                | x :: rest =>
                  if x ≠ octet '\\' then .error .surrogateCut
                  else
                    match rest with
                    | [] => .error .endInText
                    | y :: rest =>
                      if y ≠ octet 'u' then .error .surrogateCut
                      else
                        match rest with
                        | g₁ :: g₂ :: g₃ :: g₄ :: rest =>
                          match hex4 g₁ g₂ g₃ g₄ with
                          | none => .error .badEscape
                          | some m =>
                            if isTrailing m then prepend (codePoint (pair n m)) <$> textBody rest
                            else .error .loneSurrogate
                        | _ => .error .endInText
              else prepend (codePoint n) <$> textBody rest
          | _ => .error .endInText
        else
          match shortEscape c with
          | some x => prepend [x] <$> textBody rest
          | none => .error .badEscape
    else if b < 0x20 then .error .controlInText
    else prepend [b] <$> textBody rest

/-- A string, and what follows its closing quote. Reading begins behind
the opening quote. -/
def text (bs : Bytes) : Except Problem (String × Bytes) := do
  let (body, rest) ← textBody bs
  match Utf8.decode? body with
  | some s => return (s, rest)
  | none => throw .badCodePoint

/-- What follows the closing quote of a string that nobody reads. -/
def skipText : Bytes → Except Problem Bytes
  | [] => .error .endInText
  | b :: rest =>
    if b = octet '"' then .ok rest
    else if b = octet '\\' then
      match rest with
      | [] => .error .endInText
      | c :: rest =>
        if c = octet 'u' then
          match rest with
          | h₁ :: h₂ :: h₃ :: h₄ :: rest =>
            if (hex4 h₁ h₂ h₃ h₄).isSome then skipText rest else .error .badEscape
          | _ => .error .endInText
        else if (shortEscape c).isSome then skipText rest
        else .error .badEscape
    else if b < 0x20 then .error .controlInText
    else skipText rest

/-! ## Numbers that nobody reads -/

/-- What follows the exponent of a number, if it has one. -/
def skipExponent : Bytes → Except Problem Bytes
  | [] => .ok []
  | b :: rest =>
    if b = octet 'e' || b = octet 'E' then
      let digits :=
        match rest with
        | s :: tail => if s = octet '+' || s = octet '-' then tail else rest
        | [] => rest
      if digits.head?.any isDigit then .ok (digits.dropWhile isDigit)
      else .error .badNumber
    else .ok (b :: rest)

/-- What follows the fraction and the exponent of a number. -/
def skipFraction : Bytes → Except Problem Bytes
  | [] => .ok []
  | b :: rest =>
    if b = octet '.' then
      if rest.head?.any isDigit then skipExponent (rest.dropWhile isDigit)
      else .error .badNumber
    else skipExponent (b :: rest)

/-- What follows a number without its sign. -/
def skipNumber : Bytes → Except Problem Bytes
  | [] => .error .badNumber
  | b :: rest =>
    if b = octet '0' then
      if rest.head?.any isDigit then .error .badNumber else skipFraction rest
    else if isDigit b then skipFraction (rest.dropWhile isDigit)
    else .error .badNumber

/-! ## Values that nobody reads -/

mutual

/-- What follows a value; `fuel` bounds the number of brackets, items and
members on the way. -/
def skipValue : (fuel : Nat) → Bytes → Except Problem Bytes
  | 0, _ => .error .noValue
  | fuel + 1, bs =>
    match skipSpace bs with
    | [] => .error .endInValue
    | b :: rest =>
      if b = octet 'n' then word ull rest
      else if b = octet 't' then word rue rest
      else if b = octet 'f' then word alse rest
      else if b = octet '-' then skipNumber rest
      else if isDigit b then skipNumber (b :: rest)
      else if b = octet '"' then skipText rest
      else if b = octet '[' then
        match skipSpace rest with
        | [] => .error .endInList
        | c :: after => if c = octet ']' then .ok after else skipItems fuel (c :: after)
      else if b = 0x7B then
        match skipSpace rest with
        | [] => .error .endInObject
        | c :: after => if c = 0x7D then .ok after else skipMembers fuel (c :: after)
      else .error .noValue

/-- What follows a list, from the beginning of an item on. -/
def skipItems : (fuel : Nat) → Bytes → Except Problem Bytes
  | 0, _ => .error .noValue
  | fuel + 1, bs => do
    let rest ← skipValue fuel bs
    match skipSpace rest with
    | [] => throw .endInList
    | c :: after =>
      if c = octet ',' then skipItems fuel after
      else if c = octet ']' then return after
      else throw .noCommaOrBracket

/-- What follows an object, from the beginning of a member on. -/
def skipMembers : (fuel : Nat) → Bytes → Except Problem Bytes
  | 0, _ => .error .noValue
  | fuel + 1, bs =>
    match skipSpace bs with
    | [] => .error .endInObject
    | b :: rest =>
      if b ≠ octet '"' then .error .keyNotText
      else do
        let rest ← skipText rest
        match skipSpace rest with
        | [] => throw .endInObject
        | c :: rest =>
          if c ≠ octet ':' then throw .noColon
          else do
            let rest ← skipValue fuel rest
            match skipSpace rest with
            | [] => throw .endInObject
            | c :: after =>
              if c = octet ',' then skipMembers fuel after
              else if c = 0x7D then return after
              else throw .noCommaOrBrace

end

/-- **What follows a value**, whatever its depth: every bracket and every
item takes at least one octet, so twice the octets are fuel enough. -/
def skip (bs : Bytes) : Except Problem Bytes :=
  skipValue (2 * bs.length + 2) bs

/-- **The text of a value as it stands**, without the white space around
it, and what follows it. -/
def raw (bs : Bytes) : Except Problem (String × Bytes) := do
  let here := skipSpace bs
  let rest ← skip here
  match Utf8.decode? (here.take (here.length - rest.length)) with
  | some s => return (s, rest)
  | none => throw .badCodePoint

end Provision.Json
