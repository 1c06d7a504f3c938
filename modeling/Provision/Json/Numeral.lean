import Provision.Decimal.Shortest
import Provision.Json.Scan
/-!
# JSON — numerals

A number that is read is an integer as long as it has neither fraction nor
exponent and fits sixty-four bits; everything else, and `-0`, is a floating
point number. The significand of a floating point number is cut to the
digits that fit sixty-four bits, and scaled by one power of ten.
-/

namespace Provision.Json

/-- A number that has been read. -/
inductive Numeral where
  /-- An integer without a sign. -/
  | natural (n : Nat)
  /-- Minus an integer, which is not zero. -/
  | negative (n : Nat)
  /-- Any other number. -/
  | floating (x : Float)

namespace Numeral

/-- One beyond the largest integer of sixty-four bits. -/
def wordLimit : Nat := 0x10000000000000000

/-- The digits of a significand: the integer made of those that fit, and
how many were left out behind them. -/
structure Significand where
  /-- The integer made of the leading digits. -/
  value : Nat
  /-- The number of digits that no longer fitted. -/
  dropped : Nat

/-- One more digit. Once a digit does not fit, no later one is taken. -/
def Significand.push (s : Significand) (b : UInt8) : Significand :=
  let next := s.value * 10 + (b.toNat - 0x30)
  if s.dropped = 0 && next < wordLimit then ⟨next, 0⟩ else ⟨s.value, s.dropped + 1⟩

/-- The power of ten as a floating point number. -/
def tenTo (n : Nat) : Float := Float.ofScientific 1 false n

/-- `x · 10^exponent`, in at most one multiplication; divisions go on until
the exponent is within the powers of ten that exist, or nothing is left. -/
def scale (x : Float) (exponent : Int) : Except Problem Float :=
  if exponent.natAbs ≤ 308 then
    if 0 ≤ exponent then
      let y := x * tenTo exponent.natAbs
      if y.isInf then .error .numberTooLarge else .ok y
    else .ok (x / tenTo exponent.natAbs)
  else if x == 0 then .ok x
  else if 0 ≤ exponent then .error .numberTooLarge
  else scale (x / tenTo 308) (exponent + 308)
termination_by exponent.natAbs

/-- A floating point number with its sign. -/
def signed (positive : Bool) (x : Float) : Numeral :=
  .floating (if positive then x else -x)

/-- The number with significand `m`, scaled by `10^exponent`. -/
def scaled (positive : Bool) (m : Nat) (exponent : Int) (rest : Bytes) :
    Except Problem (Numeral × Bytes) := do
  return (signed positive (← scale m.toFloat exponent), rest)

/-- The largest exponent that is counted. -/
def exponentLimit : Nat := 0x80000000

/-- The rest of a number from its exponent on, behind the letter that
introduces it. An exponent beyond all bounds makes zero of the number, or
too large a number. -/
def exponent (positive : Bool) (m : Nat) (start : Int) (bs : Bytes) :
    Except Problem (Numeral × Bytes) :=
  let (grows, bs) :=
    match bs with
    | s :: tail =>
      if s = octet '+' then (true, tail) else if s = octet '-' then (false, tail) else (true, bs)
    | [] => (true, bs)
  match bs with
  | [] => .error .endInValue
  | b :: _ =>
    if !isDigit b then .error .badNumber
    else
      let value := (bs.takeWhile isDigit).foldl (fun n b => n * 10 + (b.toNat - 0x30)) 0
      let rest := bs.dropWhile isDigit
      if value < exponentLimit then
        scaled positive m (if grows then start + value else start - value) rest
      else if m ≠ 0 && grows then .error .numberTooLarge
      else .ok (signed positive 0, rest)

/-- The rest of a number whose digits have all been read. -/
def afterDigits (positive : Bool) (m : Nat) (start : Int) (bs : Bytes) :
    Except Problem (Numeral × Bytes) :=
  match bs with
  | b :: rest =>
    if b = octet 'e' || b = octet 'E' then exponent positive m start rest
    else scaled positive m start bs
  | [] => scaled positive m start []

/-- The rest of a number from its fraction on, behind the point. -/
def fraction (positive : Bool) (m : Nat) (start : Int) (bs : Bytes) :
    Except Problem (Numeral × Bytes) :=
  let digits := bs.takeWhile isDigit
  let rest := bs.dropWhile isDigit
  match digits, rest with
  | [], [] => .error .endInValue
  | [], _ :: _ => .error .badNumber
  | _ :: _, rest =>
    let s := digits.foldl Significand.push ⟨m, 0⟩
    afterDigits positive s.value (start - (digits.length - s.dropped : Nat)) rest

/-- A number of which neither fraction nor exponent is given. -/
def whole (positive : Bool) (n : Nat) : Numeral :=
  if positive then .natural n
  else if n = 0 || 0x8000000000000000 < n then .floating (-n.toFloat)
  else .negative n

/-- A number from its first digit on. -/
def read (positive : Bool) (bs : Bytes) : Except Problem (Numeral × Bytes) :=
  match bs with
  | [] => .error .endInValue
  | b :: after =>
    if !isDigit b then .error .badNumber
    else if b = octet '0' && after.head?.any isDigit then .error .badNumber
    else
      let s := (bs.takeWhile isDigit).foldl Significand.push ⟨0, 0⟩
      match bs.dropWhile isDigit with
      | [] =>
        if s.dropped = 0 then .ok (whole positive s.value, [])
        else scaled positive s.value s.dropped []
      | c :: rest =>
        if c = octet '.' then fraction positive s.value s.dropped rest
        else if c = octet 'e' || c = octet 'E' then exponent positive s.value s.dropped rest
        else if s.dropped = 0 then .ok (whole positive s.value, c :: rest)
        else scaled positive s.value s.dropped (c :: rest)

/-! ## The text of a floating point number -/

/-- Where the positional form of a number ends. -/
structure Layout where
  /-- The least place of the point, counted from before the first digit,
  at which a number below one is still written out. -/
  least : Int
  /-- The greatest place of the point at which a number is written out. -/
  greatest : Int

/-- Numbers from `0.00001` up to sixteen digits before the point are
written out; all others have an exponent with its sign. -/
def layout : Layout := ⟨-4, 16⟩

/-- The text of a magnitude: a fraction or an exponent is always shown. -/
def Layout.render (l : Layout) (d : Decimal.Number) : String :=
  if d.digits = 0 then "0.0"
  else
    let digits := Nat.toDigits 10 d.digits
    let point : Int := digits.length + d.exponent
    if point < l.least || l.greatest < point then
      let tail := if digits.tail = [] then [] else '.' :: digits.tail
      let sign := if 0 < point then "+" else "-"
      String.ofList (digits.take 1 ++ tail) ++ "e" ++ sign ++ toString (point - 1).natAbs
    else if point ≤ 0 then
      "0." ++ String.ofList (List.replicate (-point).toNat '0' ++ digits)
    else if digits.length ≤ point then
      String.ofList (digits ++ List.replicate d.exponent.toNat '0') ++ ".0"
    else
      String.ofList (digits.take point.toNat ++ '.' :: digits.drop point.toNat)

/-- The text of a floating point number. -/
def floatText (x : Float) : String :=
  let negative := x.toBits >>> 63 = 1
  (if negative then "-" else "") ++ layout.render (Decimal.Shortest.digits (.ofFloat x))

/-- How a number is described where something else is wanted. -/
def got : Numeral → Got
  | natural n => .integer n
  | negative n => .integer (-n)
  | floating x => .floating (floatText x)

end Numeral

end Provision.Json
