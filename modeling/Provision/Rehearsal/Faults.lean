import Provision.Blob.Session
/-!
# Rehearsals — faults

A store that keeps a list of all requests and refuses some of them, as
written down beforehand: the first `get`, the second `put`. What is refused
does not reach the store behind it.
-/

namespace Provision.Rehearsal

open Blob

/-- What can be asked of a store. -/
inductive Method where
  | get
  | put
  | delete
  | has
  deriving Repr, DecidableEq

/-- A request that a store has seen. -/
structure Request where
  method : Method
  key : String
  /-- The type of the content, where there is any. -/
  contentType : Option String
  deriving Repr, DecidableEq

/-- What goes wrong with a request. -/
inductive Mishap where
  /-- It is refused. -/
  | refused (e : Blob.Error)
  /-- It is answered, but the content breaks off behind its end. -/
  | broken (e : Blob.Error)
  deriving Repr, DecidableEq

/-- A request that goes wrong: the `nth` one of its method, from one. -/
structure Fault where
  method : Method
  /-- Which of the requests it is. -/
  nth : Nat
  /-- What goes wrong. -/
  mishap : Mishap
  deriving Repr, DecidableEq

/-- A store behind a list of faults. -/
structure Watched (σ : Type) where
  /-- What will go wrong. -/
  faults : List Fault
  /-- The requests so far, the latest first. -/
  seen : List Request
  /-- The store behind. -/
  inner : σ

namespace Watched

variable {σ α : Type}

/-- What goes wrong with the next request of a method. -/
def mishap? (w : Watched σ) (m : Method) : Option Mishap :=
  let nth := (w.seen.countP fun r => r.method = m) + 1
  (w.faults.find? fun f => f.method = m && f.nth = nth).map Fault.mishap

/-- One more request is seen; it is answered by the store behind unless it
is refused. -/
def ask (m : Method) (key : String) (contentType : Option String)
    (answer : σ → Except Blob.Error α × σ) (w : Watched σ) : Except Blob.Error α × Watched σ :=
  let seen := ⟨m, key, contentType⟩ :: w.seen
  match w.mishap? m with
  | some (.refused e) => (.error e, { w with seen })
  | _ =>
    let (r, inner) := answer w.inner
    (r, { w with seen, inner })

/-- Content that breaks off behind its end. -/
def breakOff (e : Blob.Error) (s : Stream) : Stream :=
  { s with failure := s.failure.or (some e) }

/-- **The store behind, with what goes wrong.** -/
def store (s : Store σ) : Store (Watched σ) where
  get key w :=
    let (r, after) := ask .get key none (s.get key) w
    match w.mishap? .get with
    | some (.broken e) => (r.map (breakOff e), after)
    | _ => (r, after)
  put key data contentType := ask .put key (some contentType) (s.put key data contentType)
  delete key := ask .delete key none (s.delete key)
  has key := ask .has key none (s.has key)

end Watched

end Provision.Rehearsal
