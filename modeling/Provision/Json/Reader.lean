import Provision.Json.Numeral
/-!
# JSON — reading values of a known type

A `Reader` takes the octets from a value on and gives the value with what
follows it. What a record or a choice looks like is said by data: a
`Record` lists its fields and how each changes the record read so far, a
list of `Case`s the names of an alternative. **The first problem in reading
order decides**: a key is judged before its value is read, and a value
before what follows it.
-/

namespace Provision.Json

/-- Reads a value at the beginning of the octets and leaves the rest. -/
abbrev Reader (α : Type) := Bytes → Except Problem (α × Bytes)

/-- The octets from the next token on, of which there must be one. -/
def token (bs : Bytes) : Except Problem (UInt8 × Bytes) :=
  match skipSpace bs with
  | [] => .error .endInValue
  | b :: rest => .ok (b, rest)

/-- The problem with a value that begins with `b` where `wanted` is due.
Words, numbers and strings are read to their end first, and may be broken
themselves. -/
def mismatch (wanted : String) (b : UInt8) (rest : Bytes) : Problem :=
  if b = octet 'n' then
    match word ull rest with
    | .ok _ => .wrongType .null wanted
    | .error e => e
  else if b = octet 't' then
    match word rue rest with
    | .ok _ => .wrongType (.boolean true) wanted
    | .error e => e
  else if b = octet 'f' then
    match word alse rest with
    | .ok _ => .wrongType (.boolean false) wanted
    | .error e => e
  else if b = octet '-' then
    match Numeral.read false rest with
    | .ok (n, _) => .wrongType n.got wanted
    | .error e => e
  else if isDigit b then
    match Numeral.read true (b :: rest) with
    | .ok (n, _) => .wrongType n.got wanted
    | .error e => e
  else if b = octet '"' then
    match text rest with
    | .ok (s, _) => .wrongType (.text s) wanted
    | .error e => e
  else if b = octet '[' then .wrongType .sequence wanted
  else if b = 0x7B then .wrongType .map wanted
  else .noValue

namespace Reader

/-- A string. -/
def text (wanted : String) : Reader String := fun bs => do
  let (b, rest) ← token bs
  if b = octet '"' then Json.text rest else throw (mismatch wanted b rest)

/-- A truth value. -/
def boolean : Reader Bool := fun bs => do
  let (b, rest) ← token bs
  if b = octet 't' then return (true, ← word rue rest)
  else if b = octet 'f' then return (false, ← word alse rest)
  else throw (mismatch "a boolean" b rest)

/-- The value `null`. -/
def null (wanted : String) : Reader Unit := fun bs => do
  let (b, rest) ← token bs
  if b = octet 'n' then return ((), ← word ull rest)
  else throw (mismatch wanted b rest)

/-- An integer below `limit`. -/
def natural (limit : Nat) (wanted : String) : Reader Nat := fun bs => do
  let (b, rest) ← token bs
  let (n, rest) ←
    if b = octet '-' then Numeral.read false rest
    else if isDigit b then Numeral.read true (b :: rest)
    else throw (mismatch wanted b rest)
  match n with
  | .natural n => if n < limit then return (n, rest) else throw (.wrongValue n wanted)
  | .negative n => throw (.wrongValue (-n) wanted)
  | .floating x => throw (.wrongType (.floating (Numeral.floatText x)) wanted)

/-! ## Lists -/

/-- Where the next item of a list begins, or `none` before its end. -/
def nextItem (first : Bool) (bs : Bytes) : Except Problem (Option Bytes) :=
  match skipSpace bs with
  | [] => .error .endInList
  | b :: rest =>
    if b = octet ']' then .ok none
    else if first then .ok (some (b :: rest))
    else if b = octet ',' then
      match skipSpace rest with
      | [] => .error .endInValue
      | c :: after => if c = octet ']' then .error .trailingComma else .ok (some (c :: after))
    else .error .noCommaOrBracket

/-- What follows a list of which no more items are wanted. -/
def endList (bs : Bytes) : Except Problem Bytes :=
  match skipSpace bs with
  | [] => .error .endInList
  | b :: rest =>
    if b = octet ']' then .ok rest
    else if b = octet ',' then
      match skipSpace rest with
      | c :: _ => .error (if c = octet ']' then .trailingComma else .trailingText)
      | [] => .error .trailingText
    else .error .trailingText

/-- The items of a list; `fuel` bounds their number. -/
def items {α : Type} (item : Reader α) : (fuel : Nat) → Bool → Reader (List α)
  | 0, _, _ => .error .noValue
  | fuel + 1, first, bs => do
    match ← nextItem first bs with
    | none => return ([], ← endList bs)
    | some bs =>
      let (a, bs) ← item bs
      let (as, bs) ← items item fuel false bs
      return (a :: as, bs)

/-- A list. -/
def list {α : Type} (item : Reader α) : Reader (List α) := fun bs => do
  let (b, rest) ← token bs
  if b = octet '[' then items item (rest.length + 1) true rest
  else throw (mismatch "a sequence" b rest)

/-! ## Objects -/

/-- Where the next key of an object begins, behind its opening quote, or
what follows the end of the object. -/
def nextKey (first : Bool) (bs : Bytes) : Except Problem (Bytes ⊕ Bytes) :=
  match skipSpace bs with
  | [] => .error .endInObject
  | b :: rest =>
    if b = 0x7D then .ok (.inr rest)
    else if first then
      if b = octet '"' then .ok (.inl rest) else .error .keyNotText
    else if b = octet ',' then
      match skipSpace rest with
      | [] => .error .endInValue
      | c :: after =>
        if c = octet '"' then .ok (.inl after)
        else if c = 0x7D then .error .trailingComma
        else .error .keyNotText
    else .error .noCommaOrBrace

/-- What follows the colon behind a key. -/
def colon (bs : Bytes) : Except Problem Bytes :=
  match skipSpace bs with
  | [] => .error .endInObject
  | b :: rest => if b = octet ':' then .ok rest else .error .noColon

/-- The members of an object, folded over a state: `member` judges the key
and says how its value changes the state; `fuel` bounds their number. -/
def members {σ : Type} (member : String → σ → Except Problem (Reader σ)) :
    (fuel : Nat) → Bool → σ → Reader σ
  | 0, _, _, _ => .error .noValue
  | fuel + 1, first, s, bs => do
    match ← nextKey first bs with
    | .inr rest => return (s, rest)
    | .inl bs =>
      let (key, bs) ← Json.text bs
      let value ← member key s
      let (s, bs) ← value (← colon bs)
      members member fuel false s bs

/-- An object, folded over a state. -/
def object {σ : Type} (member : String → σ → Except Problem (Reader σ)) (s : σ) :
    Reader σ := fun bs => do
  let (b, rest) ← token bs
  if b = 0x7B then members member (rest.length + 1) true s rest
  else throw (mismatch "a map" b rest)

/-- A value that is passed over. -/
def ignore {σ : Type} (s : σ) : Reader σ := fun bs => do
  return (s, ← skip bs)

end Reader

/-! ## Records -/

/-- A named part of a record, and how reading it changes the record. -/
structure Field (σ : Type) where
  name : String
  read : Reader (σ → σ)

/-- What a record looks like. It is written as an object, or as the list of
its fields in order. -/
structure Record (σ α : Type) where
  /-- What is wanted, in words. -/
  wanted : String
  /-- What a list of the right length is called. -/
  wantedLength : String
  fields : List (Field σ)
  /-- Whether a list may stop before the last field. -/
  openEnd : Bool
  /-- Whether keys of no field are passed over. -/
  extensible : Bool
  /-- The record before any field is read. -/
  start : σ
  /-- The value, or what keeps the fields read from being one. -/
  finish : σ → Except Problem α

namespace Record

variable {σ α : Type} (r : Record σ α)

/-- The names of the fields. -/
def names : List String := r.fields.map Field.name

/-- Judges a key: a field is read once, and any other key is passed over or
refused. The state carries the names read so far. -/
def member (key : String) (s : List String × σ) :
    Except Problem (Reader (List String × σ)) :=
  match r.fields.find? (fun f => f.name = key) with
  | some f =>
    if key ∈ s.1 then .error (.repeatedField key)
    else .ok fun bs => do
      let (change, bs) ← f.read bs
      return ((key :: s.1, change s.2), bs)
  | none =>
    if r.extensible then .ok (Reader.ignore s)
    else .error (.unknownField key r.names)

/-- The fields in order, from the `index`th on, as the items of a list. -/
def readItems (index : Nat) : List (Field σ) → σ → Reader α
  | [], s, bs => do
    let a ← r.finish s
    return (a, ← Reader.endList bs)
  | f :: fs, s, bs => do
    match ← Reader.nextItem (index = 0) bs with
    | none =>
      if r.openEnd then
        let a ← r.finish s
        return (a, ← Reader.endList bs)
      else throw (.wrongLength index r.wantedLength)
    | some bs =>
      let (change, bs) ← f.read bs
      readItems (index + 1) fs (change s) bs

/-- Reads the record in either form. -/
def read : Reader α := fun bs => do
  let (b, rest) ← token bs
  if b = octet '[' then r.readItems 0 r.fields r.start rest
  else if b = 0x7B then
    let (s, rest) ← Reader.members r.member (rest.length + 1) true ([], r.start) rest
    return (← r.finish s.2, rest)
  else throw (mismatch r.wanted b rest)

end Record

/-! ## Alternatives -/

/-- What stands behind the name of a case. -/
inductive Case (α : Type) where
  /-- Nothing: the name is the value. -/
  | bare (value : α)
  | carrying (content : Reader α)

/-- The content behind the name of a case. -/
def Case.content {α : Type} : Case α → Reader α
  | .bare a => fun bs => do
    let ((), rest) ← Reader.null "unit" bs
    return (a, rest)
  | .carrying content => content

namespace Reader

variable {α : Type}

/-- The case of a name. -/
def lookup (cases : List (String × Case α)) (name : String) : Except Problem (Case α) :=
  match cases.find? (fun c => c.1 = name) with
  | some c => .ok c.2
  | none => .error (.unknownVariant name (cases.map Prod.fst))

/-- The key of an object that has one member, behind the opening brace. -/
def onlyKey : Reader String := fun bs =>
  match skipSpace bs with
  | [] => .error .endInObject
  | b :: rest =>
    if b = octet '"' then Json.text rest
    else .error (if b = 0x7D then .noValue else .keyNotText)

/-- One of several cases: the name of a bare one, or an object with the
name as its only key. -/
def oneOf (cases : List (String × Case α)) : Reader α := fun bs => do
  let (b, rest) ← token bs
  if b = 0x7B then
    let (name, rest) ← onlyKey rest
    let found ← lookup cases name
    let (a, rest) ← found.content (← colon rest)
    match skipSpace rest with
    | [] => throw .endInObject
    | c :: after => if c = 0x7D then return (a, after) else throw .noValue
  else if b = octet '"' then
    let (name, rest) ← Json.text rest
    match ← lookup cases name with
    | .bare a => return (a, rest)
    | .carrying _ => throw (.wrongType .unitVariant "struct variant")
  else throw .noValue

end Reader

/-- **A whole document**: a value and nothing but white space behind it. -/
def document {α : Type} (value : Reader α) (bs : Bytes) : Except Problem α := do
  let (a, rest) ← value bs
  match skipSpace rest with
  | [] => return a
  | _ :: _ => throw .trailingText

end Provision.Json
