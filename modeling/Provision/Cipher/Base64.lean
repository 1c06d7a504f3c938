import Provision.Text.Utf8
/-!
# Ciphers — base 64

Octets written with sixty-four symbols, four symbols for three octets, and
padding up to a multiple of four. Reading is strict: every text that is
read is the written form of what it stands for.
-/

namespace Provision.Cipher.Base64

/-- Why a text is no written form. -/
inductive Error where
  /-- A symbol stands where it cannot. -/
  | badSymbol (symbol : UInt8) (offset : Nat)
  /-- The last symbol has bits that stand for nothing. -/
  | badLastSymbol (symbol : UInt8) (offset : Nat)
  /-- The number of symbols is impossible. -/
  | badLength (length : Nat)
  /-- The padding does not fill up to a multiple of four. -/
  | badPadding
  deriving Repr, DecidableEq

/-- The wording of an error. -/
def Error.message : Error → String
  | badSymbol symbol offset =>
    "Invalid symbol " ++ toString symbol.toNat ++ ", offset " ++ toString offset ++ "."
  | badLastSymbol symbol offset =>
    "Invalid last symbol " ++ toString symbol.toNat ++ ", offset " ++ toString offset ++ "."
  | badLength length => "Invalid input length: " ++ toString length
  | badPadding => "Invalid padding"

/-- The octet that fills up. -/
def pad : UInt8 := 0x3D

/-- The symbol of a value below 64. -/
def symbol (n : Nat) : UInt8 :=
  if n < 26 then (n + 0x41).toUInt8
  else if n < 52 then (n - 26 + 0x61).toUInt8
  else if n < 62 then (n - 52 + 0x30).toUInt8
  else if n = 62 then 0x2B
  else 0x2F

/-- The value of a symbol. -/
def value? (b : UInt8) : Option Nat :=
  if 0x41 ≤ b && b ≤ 0x5A then some (b.toNat - 0x41)
  else if 0x61 ≤ b && b ≤ 0x7A then some (b.toNat - 0x61 + 26)
  else if 0x30 ≤ b && b ≤ 0x39 then some (b.toNat - 0x30 + 52)
  else if b = 0x2B then some 62
  else if b = 0x2F then some 63
  else none

/-! ## Writing -/

/-- The written form of octets. -/
def encode : Bytes → Bytes
  | a :: b :: c :: rest =>
    let n := a.toNat * 65536 + b.toNat * 256 + c.toNat
    symbol (n / 262144) :: symbol (n / 4096 % 64) :: symbol (n / 64 % 64) :: symbol (n % 64) ::
      encode rest
  | [a, b] =>
    let n := a.toNat * 256 + b.toNat
    [symbol (n / 1024), symbol (n / 16 % 64), symbol (n % 16 * 4), pad]
  | [a] => [symbol (a.toNat / 4), symbol (a.toNat % 4 * 16), pad, pad]
  | [] => []

/-- The written form of octets as a text. -/
def encodeText (bs : Bytes) : String :=
  String.ofList ((encode bs).map fun b => Char.ofNat b.toNat)

/-! ## Reading -/

/-- The values of the symbols, the first of which stands at `offset`. -/
def values (offset : Nat) : Bytes → Except Error (List Nat)
  | [] => .ok []
  | b :: rest =>
    match value? b with
    | none => .error (.badSymbol b offset)
    | some n => (n :: ·) <$> values (offset + 1) rest

/-- The octets of values in groups of four; of a shorter last group, those
octets that are complete. -/
def octets : List Nat → Bytes
  | a :: b :: c :: d :: rest =>
    let n := a * 262144 + b * 4096 + c * 64 + d
    (n / 65536).toUInt8 :: (n / 256).toUInt8 :: n.toUInt8 :: octets rest
  | [a, b, c] =>
    let n := a * 4096 + b * 64 + c
    [(n / 1024).toUInt8, (n / 4).toUInt8]
  | [a, b] => [((a * 64 + b) / 16).toUInt8]
  | _ => []

/-- The last group, as far as it has been read. -/
structure Tail where
  /-- The values of its symbols. -/
  values : List Nat
  /-- Its last symbol. -/
  last : UInt8
  /-- How many octets fill it up. -/
  padding : Nat
  /-- Where the first of them stands. -/
  firstPad : Nat
  deriving Repr, DecidableEq

/-- Reads the last group, which begins at `start`; `i` octets of it have
been read. Padding cannot stand before its third place, and nothing can
follow padding. -/
def readTail (start : Nat) : (i : Nat) → Tail → Bytes → Except Error Tail
  | _, t, [] => .ok t
  | i, t, b :: rest =>
    if b = pad then
      if i < 2 then .error (.badSymbol b (start + i))
      else
        readTail start (i + 1)
          { t with padding := t.padding + 1, firstPad := if t.padding = 0 then i else t.firstPad }
          rest
    else if 0 < t.padding then .error (.badSymbol pad (start + t.firstPad))
    else
      match value? b with
      | none => .error (.badSymbol b (start + i))
      | some n => readTail start (i + 1) { t with values := t.values ++ [n], last := b } rest

/-- Whether the last of the values has bits that stand for nothing. -/
def hasSpareBits (values : List Nat) : Bool :=
  match values with
  | [_, b] => b % 16 ≠ 0
  | [_, _, c] => c % 4 ≠ 0
  | _ => false

/-- How many octets stand before the last group, which may be padded. -/
def bodyLength (n : Nat) : Nat :=
  if n % 4 = 0 then n - 4 else n - n % 4

/-- **The octets of a written form.** A single octet too many is reported
before anything else if it is no symbol, since a line end often is. -/
def decode (bs : Bytes) : Except Error Bytes := do
  let n := bs.length
  match bs.getLast? with
  | some b =>
    if n % 4 = 1 && b ≠ pad && (value? b).isNone then throw (.badSymbol b (n - 1))
  | none => pure ()
  let start := bodyLength n
  let body ← values 0 (bs.take start)
  let tail ← readTail start 0 ⟨[], 0, 0, 0⟩ (bs.drop start)
  if bs ≠ [] && tail.values.length < 2 then throw (.badLength (start + tail.values.length))
  if (tail.padding + tail.values.length) % 4 ≠ 0 then throw .badPadding
  if hasSpareBits tail.values then
    throw (.badLastSymbol tail.last (start + tail.values.length - 1))
  return octets body ++ octets tail.values

end Provision.Cipher.Base64
