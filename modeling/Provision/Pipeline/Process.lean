import Provision.Log
import Provision.Pipeline.Event
/-!
# Pipelines — processes on a clock

A process takes time. It runs on a clock of whole milliseconds that stands
still while it works and moves only when it rests, straight to what it
rests for. Three things can end a rest: the time it was meant to last, the
cancellation of the run, and the limit beyond which nobody waits any
longer. **Cancellation is looked at first**, before every rest and before
every function that is called, so nothing new begins once a run is
cancelled.

A process leaves a record: what was logged, what was reported, and which
functions were called, each with its time. The functions that a pipeline is
given are not known here. Of a call it is only known what it does on the
clock and what it answers, both determined by the time it begins at and by
a world `σ` that calls may change.
-/

namespace Provision.Pipeline

/-- Something worth recording. Steps are given by their display text. -/
inductive Note where
  | logged (e : Log.Entry)
  | notified (e : Event)
  /-- The function of a step is called. -/
  | called (step : String)
  /-- The authorizer of a step is asked for fresh credentials. -/
  | rebuilding (step : String)
  deriving Repr, DecidableEq

/-- Something worth recording, and when it was. -/
structure Moment where
  time : Nat
  note : Note
  deriving Repr, DecidableEq

/-- What a run finds when it starts, and leaves when it ends. -/
structure State (σ : Type) where
  now : Nat
  /-- When the run is cancelled, if it is. -/
  cancelAt : Option Nat
  /-- When nobody waits any longer, if that ever is. -/
  limit : Option Nat
  /-- How many attempts of one step that take no time are waited for. -/
  patience : Nat
  /-- What the functions of the steps can see and change. -/
  world : σ

namespace State

variable {σ : Type}

/-- Whether the run is cancelled. -/
def isCancelled (s : State σ) : Bool := s.cancelAt.any (· ≤ s.now)

/-- The run is cancelled, now unless it is already. -/
def cancel (s : State σ) : State σ :=
  if s.isCancelled then s else { s with cancelAt := some s.now }

/-- The clock has moved on to a time. -/
def moveTo (s : State σ) (t : Nat) : State σ := { s with now := max s.now t }

end State

/-- Something that a function does before it answers. -/
inductive Move where
  | log (e : Log.Entry)
  | wait (ms : Nat)
  | cancel
  /-- Waits until the run is cancelled. -/
  | awaitCancel
  /-- Waits for ever. -/
  | hang
  deriving Repr, DecidableEq

/-- A call of a function: what it does in order, and what it answers. -/
structure Call (α : Type) where
  moves : List Move
  answer : α
  deriving Repr

/-- A function of a step: the call that a time and a world make of it, and
what becomes of the world. -/
abbrev Function (σ α : Type) := Nat → σ → Call α × σ

/-- How a process ended. -/
inductive Ending (α : Type) where
  | value (a : α)
  | failed (f : Failure)
  /-- It did not end. -/
  | stalled
  deriving Repr, DecidableEq

/-- What is left of a process. -/
structure Span (σ α : Type) where
  ending : Ending α
  /-- What is on record of it, in order. -/
  moments : List Moment
  state : State σ

/-- What takes time, and comes to a value or fails. -/
def Process (σ α : Type) : Type := State σ → Span σ α

namespace Process

variable {σ α β : Type}

/-- **Runs a process.** -/
def run (p : Process σ α) (s : State σ) : Span σ α := p s

/-- What comes to a value at once. -/
def done (a : α) : Process σ α := fun s => ⟨.value a, [], s⟩

/-- One process and then, if it comes to a value, the next. -/
def andThen (p : Process σ α) (next : α → Process σ β) : Process σ β := fun s =>
  match p s with
  | ⟨.value a, before, s⟩ =>
    let r := next a s
    { r with moments := before ++ r.moments }
  | ⟨.failed f, before, s⟩ => ⟨.failed f, before, s⟩
  | ⟨.stalled, before, s⟩ => ⟨.stalled, before, s⟩

instance : Monad (Process σ) where
  pure := done
  bind := andThen

@[simp] theorem run_pure (a : α) (s : State σ) :
    (pure a : Process σ α).run s = ⟨.value a, [], s⟩ := rfl

theorem run_bind (p : Process σ α) (next : α → Process σ β) (s : State σ) :
    (p >>= next).run s =
      match p.run s with
      | ⟨.value a, before, s⟩ =>
        let r := (next a).run s
        { r with moments := before ++ r.moments }
      | ⟨.failed f, before, s⟩ => ⟨.failed f, before, s⟩
      | ⟨.stalled, before, s⟩ => ⟨.stalled, before, s⟩ := rfl

/-- A failure. -/
def fail (f : Failure) : Process σ α := fun s => ⟨.failed f, [], s⟩

/-- What is never over. -/
def stall : Process σ α := fun s => ⟨.stalled, [], s⟩

/-- The process with its failure as a value. -/
def attempt (p : Process σ α) : Process σ (Except Failure α) := fun s =>
  match p s with
  | ⟨.value a, moments, s⟩ => ⟨.value (.ok a), moments, s⟩
  | ⟨.failed f, moments, s⟩ => ⟨.value (.error f), moments, s⟩
  | ⟨.stalled, moments, s⟩ => ⟨.stalled, moments, s⟩

/-- A value, or a failure of the process. -/
def ofExcept : Except Failure α → Process σ α
  | .ok a => done a
  | .error f => fail f

/-! ## The clock and the record -/

/-- What is found when it is looked for. -/
def look (f : State σ → α) : Process σ α := fun s => ⟨.value (f s), [], s⟩

/-- The time. -/
def now : Process σ Nat := look State.now

/-- Whether the run is cancelled. -/
def isCancelled : Process σ Bool := look State.isCancelled

/-- Puts something on record. -/
def note (n : Note) : Process σ Unit := fun s => ⟨.value (), [⟨s.now, n⟩], s⟩

/-- Logs a message. -/
def log (level : Log.Level) (message : String) (fields : List (String × Log.Value)) :
    Process σ Unit :=
  note (.logged ⟨level, message, fields⟩)

/-- Whether one time comes before another; `none` is never. -/
def before : Option Nat → Option Nat → Bool
  | none, _ => false
  | some _, none => true
  | some a, some b => a < b

/-- **Rests** until a time, or for ever. A rest until a time that has come
is over at once, but a cancelled run gets no rest. -/
def rest (wake : Option Nat) : Process σ Unit := fun s =>
  if s.isCancelled then ⟨.failed .cancelled, [], s⟩
  else if before s.cancelAt wake && !before s.limit s.cancelAt then
    ⟨.failed .cancelled, [], s.moveTo (s.cancelAt.getD 0)⟩
  else if before s.limit wake then ⟨.stalled, [], s.moveTo (s.limit.getD 0)⟩
  else
    match wake with
    | some t => ⟨.value (), [], s.moveTo t⟩
    | none => ⟨.stalled, [], s⟩

/-! ## Calls -/

/-- One move of a call. Waiting for no time is no rest, and a run that is
cancelled already need not be waited for: such a call may still answer. -/
def perform : Move → Process σ Unit
  | .log e => note (.logged e)
  | .wait ms => if ms = 0 then done () else now >>= fun t => rest (some (t + ms))
  | .cancel => fun s => ⟨.value (), [], s.cancel⟩
  | .awaitCancel => isCancelled >>= fun c => if c then done () else rest none
  | .hang => rest none

/-- Several moves in order. -/
def performAll : List Move → Process σ Unit
  | [] => done ()
  | m :: ms => perform m >>= fun _ => performAll ms

/-- What a cancelled run does not come to. -/
def unlessCancelled (p : Process σ α) : Process σ α := fun s =>
  if s.isCancelled then ⟨.failed .cancelled, [], s⟩ else p s

/-- The call that the time and the world make of a function. -/
def take (f : Function σ α) : Process σ (Call α) := fun s =>
  let r := f s.now s.world
  ⟨.value r.1, [], { s with world := r.2 }⟩

/-- **Calls a function**, on record as `what`. -/
def call (what : Note) (f : Function σ α) : Process σ α :=
  unlessCancelled do
    note what
    let c ← take f
    performAll c.moves
    return c.answer

end Process

end Provision.Pipeline
