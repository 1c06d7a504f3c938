/-!
# Decimal — the fewest digits that read back

A binary floating-point number stands for every real number that rounds to
it. `Shortest.digits` is the decimal number with the fewest digits among
those, and of several the one nearest to the number itself. All arithmetic
is exact, on natural numbers: the number is `m · 2^q`, and a decimal
candidate `c · 10^e` is compared with the two ends of the interval over a
common denominator.
-/

namespace Provision.Decimal

/-- The magnitude `significand · 2^exponent` of a finite binary number.
`lowerHalf` marks the least significand of its exponent, where the
neighbour below is only half as far away as the one above. -/
structure Binary where
  /-- The integer that is scaled. -/
  significand : Nat
  /-- The power of two that scales it. -/
  exponent : Int
  /-- Whether the gap below is half the gap above. -/
  lowerHalf : Bool
  deriving Repr, DecidableEq

/-- The magnitude of a finite double. -/
def Binary.ofFloat (x : Float) : Binary :=
  let bits : Nat := x.toBits.toNat
  let fraction : Nat := bits % 0x10000000000000
  let field : Nat := (bits >>> 52) % 0x800
  if field = 0 then ⟨fraction, -1074, false⟩
  else ⟨fraction + 0x10000000000000, (field : Int) - 1075, fraction = 0 && field ≠ 1⟩

/-- A decimal number `digits · 10^exponent`. -/
structure Number where
  /-- The digits, read as one integer. -/
  digits : Nat
  /-- The power of ten that scales it. -/
  exponent : Int
  deriving Repr, DecidableEq

namespace Shortest

/-- The interval of the reals that round to a number, with the number
itself, each as a numerator over `den`; the ends belong to it when the
significand is even. -/
structure Interval where
  /-- Four times the number's own numerator. -/
  mid : Nat
  /-- The lower end. -/
  lo : Nat
  /-- The upper end. -/
  hi : Nat
  /-- The denominator. -/
  den : Nat
  /-- Whether the two ends belong to the interval. -/
  closed : Bool

/-- The interval of a binary number. -/
def Interval.of (b : Binary) : Interval :=
  let up := 1 <<< b.exponent.toNat
  { mid := 4 * b.significand * up
    lo := (4 * b.significand - if b.lowerHalf then 1 else 2) * up
    hi := (4 * b.significand + 2) * up
    den := 4 <<< (-b.exponent).toNat
    closed := b.significand % 2 = 0 }

/-- Whether `x`, over the interval's denominator, lies in the interval
scaled by `scale`. -/
def Interval.holds (i : Interval) (scale x : Nat) : Bool :=
  if i.closed then i.lo * scale ≤ x && x ≤ i.hi * scale
  else i.lo * scale < x && x < i.hi * scale

/-- The point of the grid of multiples of `10^e` that lies in the interval,
the nearer one if there are two, the even one if both are as near. -/
def Interval.onGrid? (i : Interval) (e : Int) : Option Nat :=
  let down := Nat.pow 10 (-e).toNat
  let unit := i.den * Nat.pow 10 e.toNat
  let mid := i.mid * down
  let c := mid / unit
  let below := c ≠ 0 && i.holds down (c * unit)
  let above := i.holds down ((c + 1) * unit)
  if below && above then
    let gapBelow := mid - c * unit
    let gapAbove := (c + 1) * unit - mid
    if gapBelow < gapAbove then some c
    else if gapAbove < gapBelow then some (c + 1)
    else some (if c % 2 = 0 then c else c + 1)
  else if below then some c
  else if above then some (c + 1)
  else none

/-- The coarsest of the `steps` grids from `10^e` down with a point in the
interval. -/
def Interval.search (i : Interval) : Nat → Int → Number
  | 0, e => ⟨0, e⟩
  | steps + 1, e =>
    match i.onGrid? e with
    | some c => ⟨c, e⟩
    | none => i.search steps (e - 1)

/-- The decimal number with the fewest digits that rounds to `b`. The
grids searched run from beyond the largest double to below the smallest
one, so a point is found for every number but zero. -/
def digits (b : Binary) : Number :=
  if b.significand = 0 then ⟨0, 0⟩
  else (Interval.of b).search 680 310

end Shortest

end Provision.Decimal
