import Provision.Cipher.Aes
import Provision.Text.Utf8
/-!
# Ciphers — Galois counter mode

Authenticated encryption from a block cipher: the text is added to a key
stream of encrypted counters, and a tag is computed from the sum by
multiplications in the field of `2^128` elements. There is no associated
data. All is stated for an arbitrary function on blocks.
-/

namespace Provision.Cipher

/-- Twelve octets that are used once under a key. -/
abbrev Nonce := Vector UInt8 12

namespace Gcm

/-! ## The key stream -/

/-- The counter block of a nonce: four octets of counter behind it. -/
def counterBlock (nonce : Nonce) (n : Nat) : Block :=
  nonce ++ (#v[(n >>> 24).toUInt8, (n >>> 16).toUInt8, (n >>> 8).toUInt8, n.toUInt8] :
    Vector UInt8 4)

variable (cipher : Block → Block)

/-- The octets added to the key stream from counter `n` on. Adding it twice
gives the octets back. -/
def mask (nonce : Nonce) (n : Nat) (bs : Bytes) : Bytes :=
  if bs = [] then []
  else
    (bs.take 16).zipWith (· ^^^ ·) (cipher (counterBlock nonce n)).toList ++
      mask nonce (n + 1) (bs.drop 16)
termination_by bs.length
decreasing_by
  cases bs with
  | nil => contradiction
  | cons b bs => simp only [List.length_drop, List.length_cons]; omega

/-! ## The tag -/

/-- An element of the field of `2^128` elements; the highest bit is the
coefficient of the lowest power. -/
abbrev Element := BitVec 128

/-- The element of a block: its octets as one number, highest first. -/
def Element.ofBlock (b : List UInt8) : Element :=
  BitVec.ofNat 128 (b.foldl (fun n x => n * 256 + x.toNat) 0)

/-- The block of an element. -/
def Element.toBlock (x : Element) : Block :=
  Vector.ofFn fun i => (x.toNat >>> (8 * (15 - i.val))).toUInt8

/-- An element times the variable. -/
def Element.shift (x : Element) : Element :=
  if x.getLsbD 0 then (x >>> 1) ^^^ (0xE1#128 <<< 120) else x >>> 1

/-- `z` plus the product of `y` with the part of `x` from power `128 - n`
on. -/
def Element.mulAdd (x : Element) : (n : Nat) → Element → Element → Element
  | 0, _, z => z
  | n + 1, y, z => mulAdd x n y.shift (if x.getLsbD n then z ^^^ y else z)

/-- The product of two elements. -/
def Element.mul (x y : Element) : Element := x.mulAdd 128 y 0

/-- The octets with zeros up to whole blocks, as elements. -/
def elements (bs : Bytes) : List Element :=
  if bs = [] then []
  else
    let b := bs.take 16
    .ofBlock (b ++ List.replicate (16 - b.length) 0) :: elements (bs.drop 16)
termination_by bs.length
decreasing_by
  cases bs with
  | nil => contradiction
  | cons b bs => simp only [List.length_drop, List.length_cons]; omega

/-- The universal hash of octets under the element `h`; the number of their
bits is hashed last. -/
def hash (h : Element) (bs : Bytes) : Element :=
  (elements bs ++ [BitVec.ofNat 128 (8 * bs.length)]).foldl (fun y x => (y ^^^ x).mul h) 0

/-- **The tag** of masked octets. -/
def tag (nonce : Nonce) (bs : Bytes) : Block :=
  let h := Element.ofBlock (cipher (Vector.replicate 16 0)).toList
  Aes.add (hash h bs).toBlock (cipher (counterBlock nonce 1))

/-! ## Sealing -/

/-- The octets in front of a sealed text. -/
def nonceLength : Nat := 12

/-- The octets behind a sealed text. -/
def tagLength : Nat := 16

/-- **The sealed form of a text**: the nonce, the masked text, the tag. -/
def sealed (nonce : Nonce) (plain : Bytes) : Bytes :=
  let masked := mask cipher nonce 2 plain
  nonce.toList ++ masked ++ (tag cipher nonce masked).toList

/-- The first twelve octets, with zeros if there are fewer. -/
def nonceOf (bs : Bytes) : Nonce := Vector.ofFn fun i => bs.getD i.val 0

/-- **The text of a sealed form**, `none` for octets that are no sealed
form. -/
def unsealed (bs : Bytes) : Option Bytes :=
  if bs.length < nonceLength + tagLength then none
  else
    let nonce := nonceOf bs
    let masked := (bs.drop nonceLength).take (bs.length - nonceLength - tagLength)
    if bs.drop (bs.length - tagLength) = (tag cipher nonce masked).toList then
      some (mask cipher nonce 2 masked)
    else none

end Gcm

end Provision.Cipher
