import Provision.Json.Reader
import Provision.Json.Writer
/-!
# Pipelines — durations

A span of time in whole seconds and the nanoseconds beyond them, its text,
and its JSON form. Schedules count whole milliseconds.
-/

namespace Provision.Pipeline

/-- A span of time. -/
structure Duration where
  secs : Nat
  /-- Nanoseconds beyond them. -/
  nanos : Nat
  deriving Repr, DecidableEq

namespace Duration

/-- The nanoseconds of a second. -/
def nanosPerSec : Nat := 1000000000

/-- Seconds and any number of nanoseconds; those that make seconds are
carried over. -/
def ofParts (secs nanos : Nat) : Duration := ⟨secs + nanos / nanosPerSec, nanos % nanosPerSec⟩

/-- A number of milliseconds. -/
def ofMillis (ms : Nat) : Duration := ⟨ms / 1000, ms % 1000 * 1000000⟩

/-- The whole milliseconds of a duration. -/
def millis (d : Duration) : Nat := d.secs * 1000 + d.nanos / 1000000

theorem millis_ofMillis (ms : Nat) : (ofMillis ms).millis = ms := by
  simp only [millis, ofMillis]
  omega

/-- A decimal number with `places` places, of which trailing zeros are left
out. -/
def decimal (whole fraction places : Nat) : String :=
  let digits := Nat.toDigits 10 fraction
  let padded := List.replicate (places - digits.length) '0' ++ digits
  let kept := (padded.reverse.dropWhile (· = '0')).reverse
  toString whole ++ if kept = [] then "" else "." ++ String.ofList kept

/-- **The text of a duration**, in the greatest unit of which there is at
least one; exact. -/
def text (d : Duration) : String :=
  if 0 < d.secs then decimal d.secs d.nanos 9 ++ "s"
  else if 1000000 ≤ d.nanos then decimal (d.nanos / 1000000) (d.nanos % 1000000) 6 ++ "ms"
  else if 1000 ≤ d.nanos then decimal (d.nanos / 1000) (d.nanos % 1000) 3 ++ "µs"
  else toString d.nanos ++ "ns"

/-! ## JSON -/

open Json

/-- The fields of a duration, as far as they have been read. -/
structure Fields where
  secs : Option Nat
  nanos : Option Nat

/-- The duration of both fields. Nanoseconds that make seconds are carried
over, if the seconds have room for them. -/
def ofFields (f : Fields) : Except Problem Duration :=
  match f.secs, f.nanos with
  | none, _ => .error (.missingField "secs")
  | some _, none => .error (.missingField "nanos")
  | some secs, some nanos =>
    let d := ofParts secs nanos
    if d.secs < Numeral.wordLimit then .ok d else .error (.custom "overflow deserializing Duration")

/-- What a duration looks like. -/
def record : Record Fields Duration where
  wanted := "struct Duration"
  wantedLength := "struct Duration"
  fields :=
    [⟨"secs", fun bs => do
        let (n, bs) ← Reader.natural Numeral.wordLimit "u64" bs
        return (fun f => { f with secs := some n }, bs)⟩,
     ⟨"nanos", fun bs => do
        let (n, bs) ← Reader.natural 0x100000000 "u32" bs
        return (fun f => { f with nanos := some n }, bs)⟩]
  openEnd := false
  extensible := false
  start := ⟨none, none⟩
  finish := ofFields

/-- The JSON text of a duration. -/
def write (d : Duration) : String :=
  Writer.object [("secs", Writer.natural d.secs), ("nanos", Writer.natural d.nanos)]

end Duration

end Provision.Pipeline
