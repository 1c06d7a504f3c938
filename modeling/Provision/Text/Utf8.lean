/-!
# Text — UTF-8

The octets of a text and the text of a list of octets. `Utf8.decode` reads
as far as the octets are well formed and names the first place where they
are not, together with how many octets there are beyond repair: a sequence
that was cut short by the end is told apart from one that no continuation
could mend.
-/

namespace Provision

/-- The content of a blob, a file or a message. -/
abbrev Bytes := List UInt8

namespace Utf8

/-- What is wrong with a list of octets that is no UTF-8. -/
inductive Fault where
  /-- The `length` octets from `index` on begin no character. -/
  | malformed (length : Nat) (index : Nat)
  /-- The octets end inside the character that begins at `index`. -/
  | cut (index : Nat)
  deriving Repr, DecidableEq

/-- The wording of a fault. -/
def Fault.message : Fault → String
  | .malformed n i => s!"invalid utf-8 sequence of {n} bytes from index {i}"
  | .cut i => s!"incomplete utf-8 byte sequence from index {i}"

/-- The octets of a text. -/
def encode (s : String) : Bytes :=
  s.toList.flatMap String.utf8EncodeChar

/-- A continuation octet. -/
def isTail (b : UInt8) : Bool :=
  0x80 ≤ b && b ≤ 0xBF

/-- The octets that may follow the lead octet `b` of a character. The
bounds keep out overlong forms, surrogates and all beyond U+10FFFF. -/
def isSecond (b c : UInt8) : Bool :=
  if b = 0xE0 then 0xA0 ≤ c && c ≤ 0xBF
  else if b = 0xED then 0x80 ≤ c && c ≤ 0x9F
  else if b = 0xF0 then 0x90 ≤ c && c ≤ 0xBF
  else if b = 0xF4 then 0x80 ≤ c && c ≤ 0x8F
  else isTail c

/-- The length of a character by its lead octet, `0` where none begins. -/
def width (b : UInt8) : Nat :=
  if b < 0x80 then 1
  else if 0xC2 ≤ b && b ≤ 0xDF then 2
  else if 0xE0 ≤ b && b ≤ 0xEF then 3
  else if 0xF0 ≤ b && b ≤ 0xF4 then 4
  else 0

/-- The six low bits of a continuation octet. -/
def low (b : UInt8) : Nat := b.toNat % 64

/-- The characters of the octets, which begin at `index` of the whole. -/
def decodeFrom (index : Nat) : Bytes → Except Fault (List Char)
  | [] => .ok []
  | a :: rest =>
    match width a with
    | 1 => (Char.ofNat a.toNat :: ·) <$> decodeFrom (index + 1) rest
    | 2 =>
      match rest with
      | [] => .error (.cut index)
      | b :: rest =>
        if !isTail b then .error (.malformed 1 index)
        else (Char.ofNat (a.toNat % 32 * 64 + low b) :: ·) <$> decodeFrom (index + 2) rest
    | 3 =>
      match rest with
      | [] => .error (.cut index)
      | [b] => .error (if isSecond a b then .cut index else .malformed 1 index)
      | b :: c :: rest =>
        if !isSecond a b then .error (.malformed 1 index)
        else if !isTail c then .error (.malformed 2 index)
        else (Char.ofNat (a.toNat % 16 * 4096 + low b * 64 + low c) :: ·)
          <$> decodeFrom (index + 3) rest
    | 4 =>
      match rest with
      | [] => .error (.cut index)
      | [b] => .error (if isSecond a b then .cut index else .malformed 1 index)
      | [b, c] =>
        .error (if !isSecond a b then .malformed 1 index
          else if isTail c then .cut index else .malformed 2 index)
      | b :: c :: d :: rest =>
        if !isSecond a b then .error (.malformed 1 index)
        else if !isTail c then .error (.malformed 2 index)
        else if !isTail d then .error (.malformed 3 index)
        else (Char.ofNat (a.toNat % 8 * 262144 + low b * 4096 + low c * 64 + low d) :: ·)
          <$> decodeFrom (index + 4) rest
    | _ => .error (.malformed 1 index)

/-- The text of the octets, or the first fault among them. -/
def decode (bytes : Bytes) : Except Fault String :=
  String.ofList <$> decodeFrom 0 bytes

/-- The text of the octets, if they are well formed. -/
def decode? (bytes : Bytes) : Option String :=
  (decode bytes).toOption

/-- The number of octets of a text. -/
def size (s : String) : Nat := (encode s).length

end Utf8

end Provision
