import Provision.Blob.Error
import Provision.Log
/-!
# Blobs — stores, and sessions with them

A `Store` answers single requests and changes its state by them. A
`Session` is what a client does with some store, as a value: each request
together with what follows for every possible answer. It fixes which
requests are made in which order and nothing about the store, so one
session can be run on any store, on one that fails at will, or request by
request between those of other clients.
-/

namespace Provision.Blob

/-- What keeps blobs under keys, in a state `σ`. -/
structure Store (σ : Type) where
  /-- The content of a blob. -/
  get : String → σ → Except Error Stream × σ
  /-- Puts a blob in the place of what was there before; with the type of
  its content. -/
  put : String → Stream → String → σ → Except Error Unit × σ
  /-- Removes a blob. -/
  delete : String → σ → Except Error Unit × σ
  /-- Whether there is a blob, without fetching it. -/
  has : String → σ → Except Error Bool × σ

/-- What a client does with a store until it has an `α`. -/
inductive Session (α : Type) where
  | done (a : α)
  | log (e : Log.Entry) (next : Session α)
  | get (key : String) (next : Except Error Stream → Session α)
  | put (key : String) (data : Stream) (contentType : String) (next : Except Error Unit → Session α)
  | delete (key : String) (next : Except Error Unit → Session α)
  | has (key : String) (next : Except Error Bool → Session α)

/-- How a session ended: its result, what it logged, and the state of the
store. -/
structure Outcome (σ α : Type) where
  result : α
  log : List Log.Entry
  state : σ

namespace Session

variable {σ α β : Type}

/-- **Runs a session on a store.** -/
def run (store : Store σ) : Session α → σ → Outcome σ α
  | .done a, s => ⟨a, [], s⟩
  | .log e next, s =>
    let o := run store next s
    { o with log := e :: o.log }
  | .get key next, s =>
    let (r, s) := store.get key s
    run store (next r) s
  | .put key data contentType next, s =>
    let (r, s) := store.put key data contentType s
    run store (next r) s
  | .delete key next, s =>
    let (r, s) := store.delete key s
    run store (next r) s
  | .has key next, s =>
    let (r, s) := store.has key s
    run store (next r) s

/-- The session with its result changed. -/
def map (f : α → β) : Session α → Session β
  | .done a => .done (f a)
  | .log e next => .log e (map f next)
  | .get key next => .get key fun r => map f (next r)
  | .put key data contentType next => .put key data contentType fun r => map f (next r)
  | .delete key next => .delete key fun r => map f (next r)
  | .has key next => .has key fun r => map f (next r)

@[simp] theorem run_done (store : Store σ) (a : α) (s : σ) :
    (done a).run store s = ⟨a, [], s⟩ := rfl

end Session

end Provision.Blob
