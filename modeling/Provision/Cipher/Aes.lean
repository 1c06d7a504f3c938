/-!
# Ciphers — AES-256

The block cipher with a key of 32 octets, as its standard describes it:
octets are elements of the field of 256 elements, a block is a square of
sixteen octets written column by column, and a round substitutes octets,
rotates rows, mixes columns and adds a round key.
-/

namespace Provision.Cipher

/-- Sixteen octets. -/
abbrev Block := Vector UInt8 16

namespace Aes

/-! ## The field of 256 elements -/

/-- Twice an element. -/
def double (b : UInt8) : UInt8 :=
  if b < 0x80 then b <<< 1 else (b <<< 1) ^^^ 0x1B

/-- The product of an element and the element whose `bits` low bits are
those of `b`. -/
def mulBits : (bits : Nat) → UInt8 → UInt8 → UInt8
  | 0, _, _ => 0
  | bits + 1, a, b =>
    (if b % 2 = 1 then a else 0) ^^^ mulBits bits (double a) (b >>> 1)

/-- The product of two elements. -/
def mul (a b : UInt8) : UInt8 := mulBits 8 a b

/-- The inverse of an element, zero for zero: its 254th power. -/
def inverse (a : UInt8) : UInt8 :=
  let a2 := mul a a
  let a4 := mul a2 a2
  let a8 := mul a4 a4
  let a16 := mul a8 a8
  let a32 := mul a16 a16
  let a64 := mul a32 a32
  let a128 := mul a64 a64
  mul a2 (mul a4 (mul a8 (mul a16 (mul a32 (mul a64 a128)))))

/-- An octet with its bits rotated upwards. -/
def rotate (b : UInt8) (n : UInt8) : UInt8 := (b <<< n) ||| (b >>> (8 - n))

/-- The substitution of every octet: the inverse, and an affine map. -/
def substitutions : Vector UInt8 256 :=
  Vector.ofFn fun i =>
    let b := inverse i.val.toUInt8
    b ^^^ rotate b 1 ^^^ rotate b 2 ^^^ rotate b 3 ^^^ rotate b 4 ^^^ 0x63

/-- The substitution of an octet. -/
def substitute (b : UInt8) : UInt8 :=
  substitutions.get ⟨b.toNat, b.toNat_lt⟩

/-! ## Rounds -/

/-- Two blocks added octet by octet. -/
def add (a b : Block) : Block := a.zipWith (· ^^^ ·) b

/-- Every octet substituted. -/
def substituteAll (b : Block) : Block := b.map substitute

/-- Row `r` rotated by `r` columns. -/
def rotateRows (b : Block) : Block :=
  Vector.ofFn fun i => b[(i.val + 4 * (i.val % 4)) % 16]

/-- Every column multiplied by the fixed matrix. -/
def mixColumns (b : Block) : Block :=
  Vector.ofFn fun i =>
    let column := i.val / 4 * 4
    let row := i.val % 4
    let x := b[column + row]
    let y := b[column + (row + 1) % 4]
    double x ^^^ double y ^^^ y ^^^ b[column + (row + 2) % 4] ^^^ b[column + (row + 3) % 4]

/-! ## Round keys -/

/-- Four octets. -/
abbrev Word := Vector UInt8 4

/-- The last column of a block. -/
def lastColumn (b : Block) : Word := Vector.ofFn fun i => b[12 + i.val]

/-- A column rotated by one octet. -/
def rotateWord (w : Word) : Word := Vector.ofFn fun i => w[(i.val + 1) % 4]

/-- The block whose first column is that of `b` plus `w`, each later one
that of `b` plus the column before. -/
def chain (b : Block) (w : Word) : Block :=
  let c₀ := Vector.ofFn fun i : Fin 4 => b[i.val] ^^^ w[i.val]
  let c₁ := Vector.ofFn fun i : Fin 4 => b[4 + i.val] ^^^ c₀[i.val]
  let c₂ := Vector.ofFn fun i : Fin 4 => b[8 + i.val] ^^^ c₁[i.val]
  let c₃ := Vector.ofFn fun i : Fin 4 => b[12 + i.val] ^^^ c₂[i.val]
  c₀ ++ c₁ ++ c₂ ++ c₃

/-- The round key after `a` and `b`, with the constant of a full step. -/
def fullStep (a b : Block) (constant : UInt8) : Block :=
  let w := (rotateWord (lastColumn b)).map substitute
  chain a (w.set 0 (w[0] ^^^ constant))

/-- The round key after `a` and `b` in a half step. -/
def halfStep (a b : Block) : Block :=
  chain a ((lastColumn b).map substitute)

/-- The round keys after `a` and `b`: `steps` pairs of them. -/
def laterKeys : (steps : Nat) → Block → Block → UInt8 → List Block
  | 0, _, _, _ => []
  | steps + 1, a, b, constant =>
    let c := fullStep a b constant
    let d := halfStep b c
    c :: d :: laterKeys steps c d (double constant)

/-- A key as it was handed over: 32 octets. -/
abbrev Key := Vector UInt8 32

/-- The round keys of a key: one before the first round, one for each
round with mixed columns, one for the last round. -/
structure Schedule where
  /-- Added before the first round. -/
  first : Block
  /-- Added in the rounds that mix columns. -/
  middle : List Block
  /-- Added in the last round. -/
  last : Block

/-- The round keys of a key. -/
def Schedule.ofKey (key : Key) : Schedule :=
  let a : Block := Vector.ofFn fun i => key[i.val]
  let b : Block := Vector.ofFn fun i => key[16 + i.val]
  let later := laterKeys 7 a b 1
  { first := a
    middle := b :: later.take 12
    last := (later[12]?).getD a }

/-- A round that mixes columns. -/
def round (b : Block) (key : Block) : Block :=
  add (mixColumns (rotateRows (substituteAll b))) key

/-- **The cipher** on one block. -/
def encrypt (s : Schedule) (b : Block) : Block :=
  add (rotateRows (substituteAll (s.middle.foldl round (add b s.first)))) s.last

end Aes

end Provision.Cipher
