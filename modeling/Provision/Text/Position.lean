/-!
# Text — positions in documents

A text that speaks of a place in a document ends in the position: a line
and a column, in fixed words. `Position.split?` parts such a text from the
position. **Only the last mention of a line counts**, and only if the
position is all that follows.
-/

namespace Provision

/-- A place in a document. -/
structure Position where
  line : Nat
  column : Nat
  deriving Repr, DecidableEq

namespace Position

/-- The words before a line. -/
def lineMark : String := " at line "

/-- The words between a line and a column. -/
def columnMark : String := " column "

/-- How a position is written behind a text. -/
def message (p : Position) : String :=
  lineMark ++ toString p.line ++ columnMark ++ toString p.column

/-- One beyond the largest line or column. -/
def limit : Nat := 0x10000000000000000

/-- The number of digits with nothing else among them. -/
def number? (cs : List Char) : Option Nat :=
  if cs ≠ [] && cs.all Char.isDigit then
    let n := cs.foldl (fun n c => n * 10 + (c.toNat - 0x30)) 0
    if n < limit then some n else none
  else none

/-- The position that the characters behind the words before a line give. -/
def ofLine? (cs : List Char) : Option Position := do
  let line ← number? (cs.takeWhile Char.isDigit)
  let rest ← columnMark.toList.isPrefixOf? (cs.dropWhile Char.isDigit)
  let column ← number? rest
  return ⟨line, column⟩

/-- What stands before and behind the last occurrence of a mark. -/
def aroundLast? (mark : List Char) : List Char → Option (List Char × List Char)
  | [] => none
  | c :: cs =>
    match aroundLast? mark cs with
    | some (before, behind) => some (c :: before, behind)
    | none => (mark.isPrefixOf? (c :: cs)).map fun behind => ([], behind)

/-- A text and the position that it ends in. -/
def split? (s : String) : Option (String × Position) := do
  let (before, behind) ← aroundLast? lineMark.toList s.toList
  let p ← ofLine? behind
  return (String.ofList before, p)

end Position

end Provision
