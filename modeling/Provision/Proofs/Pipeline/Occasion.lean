import Provision.Proofs.Pipeline.Protocol
import Mathlib.Algebra.Order.Floor.Div
/-!
# Pipelines — calls that take their time

In a run that nobody cancels, a function that only logs and waits takes
some time and then answers. All there is to know of a call is then the
**occasion** for it: the time, and the world as it is then. The occasion
fixes when the call ends, what it answers, what it leaves on record, and the
occasion that it leaves behind (`Process.run_call_upon`).

Both loops of steps go from one such occasion to the next until there is
none left. That course is a `Schedule`, and how long it can be follows from
how far apart its occasions are (`Schedule.countP_early_le`).
-/

namespace Provision.Pipeline

variable {σ α β : Type}

/-! ## Moves that pass -/

/-- A move that takes its time and does nothing else but log. -/
def Move.Passes : Move → Prop
  | .log _ => True
  | .wait _ => True
  | _ => False

/-- The milliseconds that a move takes. -/
def Move.length : Move → Nat
  | .wait ms => ms
  | _ => 0

/-- The milliseconds that several moves take. -/
def Move.total (ms : List Move) : Nat := (ms.map Move.length).sum

/-- What a move leaves on record. -/
def Move.remarks (t : Nat) : Move → List Moment
  | .log e => [⟨t, .logged e⟩]
  | _ => []

/-- What several moves leave on record, the first of them at a time `t`. -/
def Move.allRemarks : Nat → List Move → List Moment
  | _, [] => []
  | t, m :: ms => m.remarks t ++ allRemarks (t + m.length) ms

theorem Move.logged_of_mem_allRemarks {ms : List Move} {t : Nat} {m : Moment}
    (hm : m ∈ allRemarks t ms) : ∃ t e, m = ⟨t, .logged e⟩ := by
  induction ms generalizing t with
  | nil => cases hm
  | cons move ms ih =>
    obtain hm | hm := List.mem_append.1 hm
    · cases move with
      | log e => exact ⟨t, e, List.mem_singleton.1 hm⟩
      | wait _ => cases hm
      | cancel => cases hm
      | awaitCancel => cases hm
      | hang => cases hm
    · exact ih hm

/-- Nobody cancels the run, and it is waited for as long as it takes. -/
structure State.Free (s : State σ) : Prop where
  cancelAt : s.cancelAt = none
  limit : s.limit = none

namespace Process

variable {s : State σ}

theorem run_rest_of_free (hs : s.Free) (t : Nat) :
    (rest (some t)).run s = ⟨.value (), [], { s with now := max s.now t }⟩ := by
  simp only [run, rest, isCancelled_of_none hs.cancelAt, hs.cancelAt, hs.limit, before,
    State.moveTo]
  rfl

theorem run_perform_of_passes (hs : s.Free) {m : Move} (hm : m.Passes) :
    (perform m).run s = ⟨.value (), m.remarks s.now, { s with now := s.now + m.length }⟩ := by
  cases m with
  | log e => rfl
  | wait ms =>
    rw [perform]
    split
    · next h =>
      subst h
      rfl
    · exact (run_rest_of_free hs _).trans (by rw [Nat.max_eq_right (Nat.le_add_right _ _)]; rfl)
  | cancel => exact hm.elim
  | awaitCancel => exact hm.elim
  | hang => exact hm.elim

/-- **Moves that pass** take as long as they say. -/
theorem run_performAll_of_passes (hs : s.Free) {ms : List Move} (hms : ∀ m ∈ ms, m.Passes) :
    (performAll ms).run s =
      ⟨.value (), Move.allRemarks s.now ms, { s with now := s.now + Move.total ms }⟩ := by
  induction ms generalizing s with
  | nil => rfl
  | cons m ms ih =>
    have hfirst := run_perform_of_passes hs (hms m List.mem_cons_self)
    have hrest := ih (s := { s with now := s.now + m.length }) ⟨hs.cancelAt, hs.limit⟩
      fun x hx => hms x (List.mem_cons_of_mem _ hx)
    rw [performAll, run_bind_value hfirst, hrest]
    simp [Move.allRemarks, Move.total, Nat.add_assoc]

end Process

/-! ## Occasions -/

/-- **The occasion for a call**: the time, and what the function finds
then. -/
structure Occasion (σ : Type) where
  time : Nat
  world : σ

namespace Occasion

variable (o : Occasion σ) (f : Function σ α)

/-- What a call answers. -/
def answer : α := (f o.time o.world).1.answer

/-- The occasion that a call leaves: when it ends, with the world as it has
made it. -/
def leave : Occasion σ := ⟨o.time + Move.total (f o.time o.world).1.moves, (f o.time o.world).2⟩

/-- The occasion that is there some milliseconds later. -/
def later (ms : Nat) : Occasion σ := ⟨o.time + ms, o.world⟩

/-- The first occasion from a time on. -/
def notBefore (t : Nat) : Occasion σ := ⟨max o.time t, o.world⟩

/-- What a call leaves on record: that it is made, and what it logs. -/
def account (what : Note) : List Moment :=
  ⟨o.time, what⟩ :: Move.allRemarks o.time (f o.time o.world).1.moves

theorem time_le_leave : o.time ≤ (o.leave f).time := Nat.le_add_right _ _

/-- Besides messages of the log, only that it is made is on record of a call. -/
theorem filter_account {q : Moment → Bool} (hlog : ∀ t e, q ⟨t, .logged e⟩ = false) (what : Note) :
    (o.account f what).filter q = [⟨o.time, what⟩].filter q := by
  have hremarks : (Move.allRemarks o.time (f o.time o.world).1.moves).filter q = [] := by
    refine List.filter_eq_nil_iff.2 fun m hm => ?_
    obtain ⟨t, e, rfl⟩ := Move.logged_of_mem_allRemarks hm
    rw [hlog]
    exact Bool.false_ne_true
  rw [account, ← List.singleton_append, List.filter_append, hremarks, List.append_nil]

/-- Calls report nothing. -/
theorem events_account {what : Note} (hwhat : what.isCall = true) :
    (o.account f what).filterMap Moment.event? = [] := by
  refine List.filterMap_eq_nil_iff.2 fun m hm => ?_
  obtain rfl | hm := List.mem_cons.1 hm
  · cases what <;> first | rfl | cases hwhat
  · obtain ⟨t, e, rfl⟩ := Move.logged_of_mem_allRemarks hm
    rfl

end Occasion

/-- The occasion that a state is. -/
def State.occasion (s : State σ) : Occasion σ := ⟨s.now, s.world⟩

/-- The state on an occasion. -/
def State.upon (s : State σ) (o : Occasion σ) : State σ :=
  { s with now := o.time, world := o.world }

variable {s : State σ}

@[simp] theorem State.upon_occasion : s.upon s.occasion = s := rfl

theorem State.Free.upon (hs : s.Free) (o : Occasion σ) : (s.upon o).Free := ⟨hs.cancelAt, hs.limit⟩

namespace Process

/-- **A call that passes**: its occasion says what becomes of it. -/
theorem run_call_upon (hs : s.Free) {f : Function σ α} (hf : f.Moves Move.Passes) (what : Note)
    (o : Occasion σ) :
    (call what f).run (s.upon o) =
      ⟨.value (o.answer f), o.account f what, s.upon (o.leave f)⟩ := by
  have hmoves := run_performAll_of_passes (s := s.upon ⟨o.time, (f o.time o.world).2⟩)
    (hs.upon _) (hf o.time o.world)
  have hcarry : (carry f).run (s.upon o) = ⟨.value (o.answer f),
      Move.allRemarks o.time (f o.time o.world).1.moves ++ [], s.upon (o.leave f)⟩ := by
    rw [run_carry]
    exact run_bind_value hmoves
  rw [run_call (isCancelled_of_none (hs.upon o).cancelAt), run_note_bind, hcarry, List.append_nil]
  rfl

/-- A rest on an occasion. -/
theorem run_rest_upon (hs : s.Free) (o : Occasion σ) (t : Nat) :
    (rest (some t)).run (s.upon o) = ⟨.value (), [], s.upon (o.notBefore t)⟩ :=
  run_rest_of_free (hs.upon o) t

/-- A rest of some milliseconds. -/
theorem run_rest_later (hs : s.Free) (o : Occasion σ) (ms : Nat) :
    (rest (some ((s.upon o).now + ms))).run (s.upon o) = ⟨.value (), [], s.upon (o.later ms)⟩ := by
  have hmax : max o.time (o.time + ms) = o.time + ms := Nat.max_eq_right (Nat.le_add_right _ _)
  refine (run_rest_upon hs o _).trans ?_
  rw [Occasion.later, ← hmax]
  rfl

end Process

/-! ## Schedules -/

/-- **The course that a rule prescribes**: from a first occasion to the one
that the rule gives for it, and so on, until it gives none. -/
inductive Schedule (next : α → Option α) : α → List α → α → Prop
  | last {a : α} (h : next a = none) : Schedule next a [a] a
  | more {a b z : α} {bs : List α} (h : next a = some b) (rest : Schedule next b bs z) :
      Schedule next a (a :: bs) z

namespace Schedule

variable {next : α → Option α} {a z : α} {as : List α}

theorem next_last (h : Schedule next a as z) : next z = none := by
  induction h with
  | last h => exact h
  | more _ _ ih => exact ih

/-- All but the last have a next. -/
theorem eq_dropLast_concat (h : Schedule next a as z) :
    as = as.dropLast ++ [z] ∧ ∀ x ∈ as.dropLast, ∃ y, next x = some y := by
  induction h with
  | last h => exact ⟨rfl, nofun⟩
  | @more a b z bs h rest ih =>
    have hne : bs ≠ [] := by
      rw [ih.1]
      simp
    rw [List.dropLast_cons_of_ne_nil hne, List.cons_append, ← ih.1]
    refine ⟨rfl, fun x hx => ?_⟩
    obtain rfl | hx := List.mem_cons.1 hx
    · exact ⟨b, h⟩
    · exact ih.2 x hx

/-- The first is where it starts from, and all others are the next of one. -/
theorem eq_cons_tail (h : Schedule next a as z) :
    as = a :: as.tail ∧ ∀ y ∈ as.tail, ∃ x, next x = some y := by
  induction h with
  | last h => exact ⟨rfl, nofun⟩
  | @more a b z bs h rest ih =>
    refine ⟨rfl, fun y hy => ?_⟩
    rw [List.tail_cons, ih.1] at hy
    obtain rfl | hy := List.mem_cons.1 hy
    · exact ⟨a, h⟩
    · exact ih.2 y hy

/-- One more of `gap` fits into `x` if what is left is enough for the others. -/
theorem ceilDiv_add_one_le {gap x y : Nat} (hgap : 0 < gap) (hx : 0 < x) (hy : y ≤ x - gap) :
    y ⌈/⌉ gap + 1 ≤ x ⌈/⌉ gap := by
  rw [Nat.ceilDiv_eq_add_pred_div, Nat.ceilDiv_eq_add_pred_div, ← Nat.add_div_right _ hgap]
  rcases Nat.lt_or_ge x gap with hlt | hge
  · -- nothing is left for the others
    obtain rfl : y = 0 := by omega
    rw [show 0 + gap - 1 + gap = gap - 1 + 1 * gap by omega,
      Nat.add_mul_div_right _ _ hgap, Nat.div_eq_of_lt (by omega : gap - 1 < gap)]
    exact (Nat.le_div_iff_mul_le hgap).2 (by omega)
  · exact Nat.div_le_div_right (by omega)

variable {next : Occasion σ → Option (Occasion σ)} {o z : Occasion σ} {os : List (Occasion σ)}

/-- **So many fit before a deadline**, if each next one is at least `gap`
later. -/
theorem countP_early_le (h : Schedule next o os z) {gap deadline : Nat} (hgap : 0 < gap)
    (hnext : ∀ a b, next a = some b → a.time + gap ≤ b.time) :
    os.countP (fun x => x.time < deadline) ≤ (deadline - o.time) ⌈/⌉ gap := by
  induction h with
  | @last a _ =>
    by_cases hearly : a.time < deadline
    · have hone := ceilDiv_add_one_le (y := 0) hgap (by omega : 0 < deadline - a.time) (by omega)
      simpa [hearly] using Nat.le_trans (Nat.le_add_left 1 _) hone
    · simp [hearly]
  | @more a b z bs hab _ ih =>
    have hle := hnext a b hab
    by_cases hearly : a.time < deadline
    · have hone := ceilDiv_add_one_le (y := deadline - b.time) hgap
        (by omega : 0 < deadline - a.time) (by omega)
      rw [List.countP_cons_of_pos (by simpa using hearly)]
      exact Nat.le_trans (Nat.add_le_add_right ih 1) hone
    · -- the deadline has passed for both
      rw [List.countP_cons_of_neg (by simpa using hearly),
        show deadline - a.time = deadline - b.time by omega]
      exact ih

end Schedule

end Provision.Pipeline

/-! ## A rehearsal -/

namespace Provision.Rehearsal

open Pipeline

variable {β : Type}

/-- A call that only takes its time. -/
def Outcome.Passes (o : Outcome) : Prop := ¬o.cancels ∧ ¬o.awaits ∧ ¬o.hangs

theorem Outcome.passes_moves {o : Outcome} (ho : o.Passes) : ∀ m ∈ o.moves [], m.Passes := by
  intro m hm
  obtain ⟨-, -, hhangs⟩ := ho
  rw [moves, if_neg hhangs] at hm
  simp only [List.append_nil, List.cons_append, List.nil_append, List.mem_cons,
    Option.mem_toList, Option.map_eq_some_iff] at hm
  obtain rfl | ⟨ms, -, rfl⟩ := hm
  · exact trivial
  · exact trivial

theorem Script.passes_outcome {s : Script} (h : ∀ o ∈ s, o.Passes) (n : Nat) :
    (s.outcome n).Passes := by
  obtain hmem | hplain := s.outcome_mem n
  · exact h _ hmem
  · rw [hplain]
    exact ⟨Bool.false_ne_true, Bool.false_ne_true, Bool.false_ne_true⟩

theorem Script.passes_poll {s : Script} (h : ∀ o ∈ s, o.Passes) (slot : Nat) (name : String) :
    (s.poll slot name : Function (World β) _).Moves Move.Passes := by
  intro t w
  have ho := passes_outcome h (w.count slot)
  have htoken : (s.outcome (w.count slot)).token = [] := by
    rw [Outcome.token, if_neg ho.1, if_neg ho.2.1, List.append_nil]
  change ∀ m ∈ (s.outcome (w.count slot)).moves (s.outcome (w.count slot)).token, m.Passes
  rw [htoken]
  exact Outcome.passes_moves ho

theorem Script.passes_act {s : Script} (h : ∀ o ∈ s, o.Passes) (slot : Nat) (name : String) :
    (s.act slot name : Function (World β) _).Moves Move.Passes :=
  passes_poll h slot name

theorem Script.passes_authorize {s : Script} (h : ∀ o ∈ s, o.Passes) (slot : Nat) (name : String) :
    (s.authorize slot name : Function (World β) _).Moves Move.Passes := by
  intro t w
  have ho := passes_outcome h (w.count slot)
  have htoken :
      ((s.outcome (w.count slot)).awaits && !(s.outcome (w.count slot)).cancels) = false := by
    simp [ho.2.1]
  simp only [authorize, htoken]
  exact Outcome.passes_moves ho

theorem uncancelled_free : uncancelled.Free := ⟨rfl, rfl⟩

end Provision.Rehearsal
