import Provision.Blob.Within
import Provision.Cipher.Gcm
import Provision.Pipeline.Step
import Provision.Rehearsal.Assets
import Provision.Asset.Resolve
/-!
# Rehearsals — scripts

Functions of steps that do what is written down. A script is a list of
outcomes: each call takes the next one, and the last one is repeated for
ever. The world of a rehearsal counts the calls of every script and keeps
what happened in it.
-/

namespace Provision.Rehearsal

open Asset Pipeline

/-- What one call does, in the order of the fields, and then answers. -/
structure Outcome where
  /-- It waits for some milliseconds. -/
  after : Nat
  /-- It cancels the run. -/
  cancels : Bool
  /-- It waits until the run is cancelled. -/
  awaits : Bool
  /-- It waits for ever. -/
  hangs : Bool
  /-- It waits for some milliseconds and runs out of time. -/
  timeout : Option Nat
  /-- It fails. -/
  failure : Option Failure
  /-- It answers this. -/
  answer : Bool
  deriving Repr, DecidableEq

namespace Outcome

/-- What is done by a call of which nothing is said. -/
def plain : Outcome := ⟨0, false, false, false, none, none, true⟩

/-- What the call does; with what it does to the token of the run. -/
def moves (o : Outcome) (token : List Move) : List Move :=
  .wait o.after :: token ++ (if o.hangs then [.hang] else []) ++
    (o.timeout.map Move.wait).toList

/-- The moves that concern the token of the run. -/
def token (o : Outcome) : List Move :=
  (if o.cancels then [.cancel] else []) ++ if o.awaits then [.awaitCancel] else []

/-- What the call answers. -/
def result (o : Outcome) : Except Failure Bool :=
  match o.timeout, o.failure with
  | some _, _ => .error .deadlineExceeded
  | none, some f => .error f
  | none, none => .ok o.answer

end Outcome

/-- What the calls of a function do, one after the other. -/
abbrev Script := List Outcome

namespace Script

/-- What the `n`th call does, counted from zero. -/
def outcome (s : Script) (n : Nat) : Outcome := (s[n]?.or s.getLast?).getD .plain

end Script

/-! ## The world -/

/-- One call of a script. -/
structure Take where
  name : String
  /-- The number of the call, from zero. -/
  number : Nat
  /-- When it began. -/
  time : Nat
  deriving Repr, DecidableEq

/-- What a rehearsal keeps. -/
structure World (β : Type) where
  /-- How often each script has been called. -/
  counts : Table Nat Nat
  /-- The calls, the latest first. -/
  takes : List Take
  /-- What happened to assets, in order. -/
  happenings : List (Happening Role)
  /-- How many nonces have been drawn. -/
  drawn : Nat
  /-- What the store keeps. -/
  blobs : β

namespace World

variable {β : Type}

/-- The world before anything has happened. -/
def fresh (blobs : β) : World β := ⟨.empty, [], [], 0, blobs⟩

/-- How often a script has been called. -/
def count (w : World β) (slot : Nat) : Nat := (w.counts.get? slot).getD 0

/-- The world after one more call of a script. -/
def record (w : World β) (slot : Nat) (name : String) (time : Nat) : World β :=
  { w with
    counts := w.counts.insert slot (w.count slot + 1)
    takes := ⟨name, w.count slot, time⟩ :: w.takes }

/-- The store of the world. -/
def store (s : Blob.Store β) : Blob.Store (World β) :=
  s.within World.blobs fun blobs w => { w with blobs }

/-- The `n`th nonce: a number in twelve octets. -/
def nonceOf (n : Nat) : Cipher.Nonce :=
  Vector.ofFn fun i => UInt8.ofNat (n >>> (8 * i.val))

/-- Draws the next nonce. -/
def draw (w : World β) : Cipher.Nonce × World β :=
  (nonceOf w.drawn, { w with drawn := w.drawn + 1 })

/-- The world after something has happened to assets. -/
def witness (hs : List (Happening Role)) (w : World β) : World β :=
  { w with happenings := w.happenings ++ hs }

end World

/-! ## Functions -/

variable {β : Type}

/-- The function of a script. -/
def Script.poll (s : Script) (slot : Nat) (name : String) :
    Function (World β) (Except Failure Bool) := fun now w =>
  let o := s.outcome (w.count slot)
  (⟨o.moves o.token, o.result⟩, w.record slot name now)

/-- The function of a script whose answer does not matter. -/
def Script.act (s : Script) (slot : Nat) (name : String) :
    Function (World β) (Except Failure Unit) := fun now w =>
  let (c, w) := s.poll slot name now w
  (⟨c.moves, c.answer.map fun _ => ()⟩, w)

/-- The authorizer of a script. Each call has a token of its own, which
nobody else cancels: it waits for that in vain, unless it has cancelled it
itself. -/
def Script.authorize (s : Script) (slot : Nat) (name : String) :
    Function (World β) (Except Cause Unit) := fun now w =>
  let o := s.outcome (w.count slot)
  let token : List Move := if o.awaits && !o.cancels then [.hang] else []
  (⟨o.moves token, (o.result.map fun _ => ()).mapError Failure.unwrapped⟩, w.record slot name now)

end Provision.Rehearsal
