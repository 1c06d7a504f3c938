import Provision.Pipeline.Run
import Provision.Rehearsal.Script
/-!
# Pipelines — what steps are made of

The processes of all steps are made of a few parts: looks at the clock,
notes, rests, and calls of functions. `Made` says so once for all three
kinds of steps and both of their loops (`Step.made`), and whatever holds of
the parts and of one process behind another holds of steps.

Two such things are drawn from it here. **A step whose functions leave the
token alone leaves it alone** and only moves the clock on
(`Step.follows`); and **what a step puts on record is its own**: all its
events and calls bear its display text (`Step.own`).
-/

namespace Provision.Pipeline

variable {σ α β : Type}

/-- Every move of every call of a function is one of which `P` holds. -/
def Function.Moves (P : Move → Prop) (f : Function σ α) : Prop :=
  ∀ t w, ∀ m ∈ (f t w).1.moves, P m

/-- Every move of every function of a step is one of which `P` holds. -/
def Step.Moves (P : Move → Prop) : Step σ → Prop
  | action a => a.function.Moves P
  | condition c => c.function.Moves P
  | retrying r => r.function.Moves P ∧ r.authorizer.Moves P

theorem Function.Moves.mono {P Q : Move → Prop} (hPQ : ∀ m, P m → Q m) {f : Function σ α}
    (h : f.Moves P) : f.Moves Q :=
  fun t w m hm => hPQ m (h t w m hm)

theorem Step.Moves.mono {P Q : Move → Prop} (hPQ : ∀ m, P m → Q m) {step : Step σ}
    (h : step.Moves P) : step.Moves Q := by
  cases step with
  | action a => exact Function.Moves.mono hPQ h
  | condition c => exact Function.Moves.mono hPQ h
  | retrying r => exact ⟨h.1.mono hPQ, h.2.mono hPQ⟩

/-- A move that does not cancel the run. -/
def Move.Calm (m : Move) : Prop := m ≠ .cancel

/-- Whether a note says that a function is called. -/
def Note.isCall : Note → Bool
  | called _ => true
  | rebuilding _ => true
  | _ => false

/-- A note that a step with this display text may make. -/
inductive Note.Own (display : String) : Note → Prop
  | logged (e : Log.Entry) : Own display (.logged e)
  | called : Own display (.called display)
  | rebuilding : Own display (.rebuilding display)
  | skipped : Own display (.notified (.skipped display))
  | refreshed (kind : Denial) : Own display (.notified (.refreshed display kind))

/-! ## Parts -/

/-- **The processes that are made of the parts of steps**, with functions
whose moves satisfy `P`, and notes that satisfy `N`. -/
inductive Process.Made (P : Move → Prop) (N : Note → Prop) : {α : Type} → Process σ α → Prop
  | done {α : Type} (a : α) : Made P N (Process.done a : Process σ α)
  | fail {α : Type} (f : Failure) : Made P N (Process.fail f : Process σ α)
  | stall {α : Type} : Made P N (Process.stall : Process σ α)
  /-- Nothing looks at what may end a rest. -/
  | look {α : Type} (f : State σ → α)
      (hf : ∀ s c l, f { s with cancelAt := c, limit := l } = f s) : Made P N (Process.look f)
  | note (n : Note) (hn : N n) (hcall : n.isCall = false) :
      Made P N (Process.note n : Process σ Unit)
  | rest (wake : Option Nat) : Made P N (Process.rest wake : Process σ Unit)
  | call {α : Type} (what : Note) (f : Function σ α) (hwhat : N what) (hf : f.Moves P) :
      Made P N (Process.call what f)
  | bind {α β : Type} (p : Process σ α) (next : α → Process σ β) (hp : Made P N p)
      (hnext : ∀ a, Made P N (next a)) : Made P N (p >>= next)

namespace Process.Made

variable {P : Move → Prop} {N : Note → Prop}

theorem now : Made P N (Process.now : Process σ Nat) := .look _ fun _ _ _ => rfl

theorem ofExcept (r : Except Failure α) : Made P N (Process.ofExcept r : Process σ α) := by
  cases r with
  | ok a => exact .done a
  | error f => exact .fail f

end Process.Made

namespace Step

open Process (Made)

variable {P : Move → Prop}

theorem pollUntil_made (c : Condition σ) (hf : c.function.Moves P) (deadline polls : Nat) :
    Made P (Note.Own c.display) (c.pollUntil deadline polls) := by
  induction polls with
  | zero => exact .stall
  | succ polls ih =>
    refine .bind _ _ (.call _ _ .called hf) fun answer => ?_
    match answer with
    | .ok true => exact .done true
    | .error f => exact .fail _
    | .ok false =>
      refine .bind _ _ .now fun t => ?_
      dsimp only
      split
      · exact .bind _ _ (.rest _) fun _ => .done false
      · exact .bind _ _ (.note _ (.logged _) rfl) fun _ => .bind _ _ (.rest _) fun _ => ih

theorem condition_made (c : Condition σ) (hf : c.function.Moves P) :
    Made P (Note.Own c.display) c.run := by
  refine .bind _ _ (.look _ fun _ _ _ => rfl) fun polls => .bind _ _ .now fun t =>
    .bind _ _ (pollUntil_made c hf _ _) fun held => ?_
  cases held with
  | true => exact .done ()
  | false =>
    rw [if_neg Bool.false_ne_true]
    split
    · exact .fail _
    · exact .bind _ _ (.note _ (.logged _) rfl) fun _ => .note _ .skipped rfl

theorem refresh_made (r : Retrying σ) (ha : r.authorizer.Moves P) (kind : Denial) (f : Failure) :
    Made P (Note.Own r.display) (r.refresh kind f) := by
  refine .bind _ _ (.note _ (.logged _) rfl) fun _ =>
    .bind _ _ (.call _ _ .rebuilding ha) fun answer => ?_
  match answer with
  | .error cause => exact .fail _
  | .ok () => exact .note _ (.refreshed kind) rfl

theorem attemptUntil_made (r : Retrying σ) (hf : r.function.Moves P)
    (ha : r.authorizer.Moves P) (deadline attempts : Nat) :
    Made P (Note.Own r.display) (r.attemptUntil deadline attempts) := by
  induction attempts with
  | zero => exact .stall
  | succ attempts ih =>
    refine .bind _ _ (.call _ _ .called hf) fun answer => ?_
    match answer with
    | .ok () => exact .done ()
    | .error f =>
      dsimp only
      split
      · exact .fail _
      · next kind _ =>
        refine .bind _ _ .now fun t => ?_
        split
        · exact .fail _
        · exact .bind _ _ (refresh_made r ha kind f) fun _ =>
            .bind _ _ .now fun _ => .bind _ _ (.rest _) fun _ => ih

/-- **What a step is made of**, whatever its kind. -/
theorem made (step : Step σ) (h : step.Moves P) : Made P (Note.Own step.display) step.run := by
  cases step with
  | action a => exact .bind _ _ (.call _ _ .called h) fun _ => .ofExcept _
  | condition c => exact condition_made c h
  | retrying r =>
    exact .bind _ _ (.look _ fun _ _ _ => rfl) fun _ => .bind _ _ .now fun _ =>
      attemptUntil_made r h.1 h.2 _ _

end Step

/-! ## One process behind another -/

namespace Process

variable {p : Process σ α} {next : α → Process σ β} {s s' : State σ} {before : List Moment}

/-- What comes to a value goes on where it ended. -/
theorem run_bind_value {a : α} (h : p.run s = ⟨.value a, before, s'⟩) :
    (p >>= next).run s =
      { (next a).run s' with moments := before ++ ((next a).run s').moments } := by
  rw [run_bind, h]

/-- A note stands in front of what follows. -/
theorem run_note_bind (n : Note) (next : Unit → Process σ β) (s : State σ) :
    (note n >>= next).run s =
      { (next ()).run s with moments := ⟨s.now, n⟩ :: ((next ()).run s).moments } := rfl

/-- A look changes nothing. -/
theorem run_look_bind (f : State σ → α) (next : α → Process σ β) (s : State σ) :
    (look f >>= next).run s = (next (f s)).run s := rfl

/-- What a call does once it has begun: the moves that the time and the
world give it. -/
def carry (f : Function σ α) : Process σ α := do
  let c ← take f
  performAll c.moves
  return c.answer

/-- A call begins unless the run is cancelled. -/
theorem run_call (hs : s.isCancelled = false) (what : Note) (f : Function σ α) :
    (call what f).run s = (note what >>= fun _ => carry f).run s :=
  if_neg (by rw [hs]; exact Bool.false_ne_true)

theorem run_call_of_isCancelled (hs : s.isCancelled = true) (what : Note) (f : Function σ α) :
    (call what f).run s = ⟨.failed .cancelled, [], s⟩ :=
  if_pos hs

theorem run_carry (f : Function σ α) (s : State σ) :
    (carry f).run s =
      (performAll (f s.now s.world).1.moves >>= fun _ => done (f s.now s.world).1.answer).run
        { s with world := (f s.now s.world).2 } := rfl

theorem run_bind_failed {f : Failure} (h : p.run s = ⟨.failed f, before, s'⟩) :
    (p >>= next).run s = ⟨.failed f, before, s'⟩ := by
  rw [run_bind, h]

theorem run_bind_stalled (h : p.run s = ⟨.stalled, before, s'⟩) :
    (p >>= next).run s = ⟨.stalled, before, s'⟩ := by
  rw [run_bind, h]

end Process

/-! ## The course of a run -/

/-- **What is left of a process follows on what it started from**: nobody
has cancelled the run, the clock has not gone back, and everything on record
happened in between. -/
structure Span.Follows (r : Span σ α) (s : State σ) : Prop where
  cancelAt : r.state.cancelAt = s.cancelAt
  limit : r.state.limit = s.limit
  le : s.now ≤ r.state.now
  within : ∀ m ∈ r.moments, s.now ≤ m.time ∧ m.time ≤ r.state.now

/-- What follows on what has followed. -/
theorem Span.Follows.append {e : Ending α} {before : List Moment} {s s' : State σ} {r : Span σ β}
    (h : (⟨e, before, s'⟩ : Span σ α).Follows s) (hr : r.Follows s') :
    ({ r with moments := before ++ r.moments } : Span σ β).Follows s := by
  refine ⟨hr.cancelAt.trans h.cancelAt, hr.limit.trans h.limit, Nat.le_trans h.le hr.le, ?_⟩
  intro m hm
  obtain hm | hm := List.mem_append.1 hm
  · exact ⟨(h.within m hm).1, Nat.le_trans (h.within m hm).2 hr.le⟩
  · exact ⟨Nat.le_trans h.le (hr.within m hm).1, (hr.within m hm).2⟩

namespace Process

/-- A process that leaves the token alone. -/
def Calm (p : Process σ α) : Prop := ∀ s, (p.run s).Follows s

/-- Where nothing is recorded, only the clock matters. -/
theorem follows_of_moments_nil {r : Span σ α} {s : State σ} (hc : r.state.cancelAt = s.cancelAt)
    (hl : r.state.limit = s.limit) (hle : s.now ≤ r.state.now) (hm : r.moments = []) :
    r.Follows s :=
  ⟨hc, hl, hle, fun m hmem => by rw [hm] at hmem; cases hmem⟩

theorem calm_done (a : α) : Calm (done a : Process σ α) :=
  fun s => follows_of_moments_nil (s := s) rfl rfl (Nat.le_refl _) rfl

theorem calm_fail (f : Failure) : Calm (fail f : Process σ α) :=
  fun s => follows_of_moments_nil (s := s) rfl rfl (Nat.le_refl _) rfl

theorem calm_stall : Calm (stall : Process σ α) :=
  fun s => follows_of_moments_nil (s := s) rfl rfl (Nat.le_refl _) rfl

theorem calm_look (f : State σ → α) : Calm (look f) :=
  fun s => follows_of_moments_nil (s := s) rfl rfl (Nat.le_refl _) rfl

theorem calm_note (n : Note) : Calm (note n : Process σ Unit) := by
  refine fun s => ⟨rfl, rfl, Nat.le_refl _, fun m hm => ?_⟩
  obtain rfl := List.mem_singleton.1 hm
  exact ⟨Nat.le_refl _, Nat.le_refl _⟩

theorem calm_rest (wake : Option Nat) : Calm (rest wake : Process σ Unit) := by
  intro s
  have hmove : ∀ t, s.now ≤ (s.moveTo t).now := fun t => Nat.le_max_left _ _
  simp only [run, rest]
  -- a rest ends where it began, when it is cut off, at the limit, or at its own time
  split
  · exact follows_of_moments_nil rfl rfl (Nat.le_refl _) rfl
  split
  · exact follows_of_moments_nil rfl rfl (hmove _) rfl
  split
  · exact follows_of_moments_nil rfl rfl (hmove _) rfl
  split
  · exact follows_of_moments_nil rfl rfl (hmove _) rfl
  · exact follows_of_moments_nil rfl rfl (Nat.le_refl _) rfl

theorem Calm.bind {p : Process σ α} {next : α → Process σ β} (hp : Calm p)
    (hnext : ∀ a, Calm (next a)) : Calm (p >>= next) := by
  intro s
  have hfollows := hp s
  rcases h : p.run s with ⟨a | f | -, before, s'⟩ <;> rw [h] at hfollows
  · rw [run_bind_value h]
    exact hfollows.append (hnext a s')
  · rw [run_bind_failed h]
    exact ⟨hfollows.cancelAt, hfollows.limit, hfollows.le, hfollows.within⟩
  · rw [run_bind_stalled h]
    exact ⟨hfollows.cancelAt, hfollows.limit, hfollows.le, hfollows.within⟩

theorem calm_perform {m : Move} (hm : m.Calm) : Calm (perform m : Process σ Unit) := by
  cases m with
  | log e => exact calm_note _
  | wait ms =>
    rw [perform]
    split
    · exact calm_done ()
    · exact .bind (calm_look _) fun _ => calm_rest _
  | cancel => exact absurd rfl hm
  | awaitCancel =>
    refine .bind (calm_look _) fun c => ?_
    split
    · exact calm_done ()
    · exact calm_rest none
  | hang => exact calm_rest none

theorem calm_performAll {ms : List Move} (hms : ∀ m ∈ ms, m.Calm) :
    Calm (performAll ms : Process σ Unit) := by
  induction ms with
  | nil => exact calm_done ()
  | cons m ms ih =>
    exact .bind (calm_perform (hms m List.mem_cons_self)) fun _ =>
      ih fun m hm => hms m (List.mem_cons_of_mem _ hm)

theorem Calm.attempt {p : Process σ α} (hp : Calm p) : Calm p.attempt := by
  intro s
  have hs := hp s
  rcases h : p.run s with ⟨a | f | -, moments, s'⟩ <;>
    (rw [h] at hs
     rw [run, Process.attempt, show p s = _ from h]
     exact ⟨hs.cancelAt, hs.limit, hs.le, hs.within⟩)

theorem calm_carry {f : Function σ α} (hf : f.Moves Move.Calm) : Calm (carry f) := by
  intro s
  let taken := f s.now s.world
  have hmoves : Calm (performAll taken.1.moves >>= fun _ => (done taken.1.answer : Process σ α)) :=
    (calm_performAll (hf _ _)).bind fun _ => calm_done _
  have h := hmoves { s with world := taken.2 }
  rw [run_carry]
  exact ⟨h.cancelAt, h.limit, h.le, h.within⟩

theorem calm_call (what : Note) {f : Function σ α} (hf : f.Moves Move.Calm) :
    Calm (call what f) := by
  intro s
  cases hs : s.isCancelled with
  | true =>
    rw [run_call_of_isCancelled hs]
    exact follows_of_moments_nil rfl rfl (Nat.le_refl _) rfl
  | false =>
    rw [run_call hs]
    exact (calm_note what).bind (fun _ => calm_carry hf) s

theorem Made.calm {p : Process σ α} {N : Note → Prop} (h : Made Move.Calm N p) : Calm p := by
  induction h with
  | done a => exact calm_done a
  | fail f => exact calm_fail f
  | stall => exact calm_stall
  | look f _ => exact calm_look f
  | note n _ _ => exact calm_note n
  | rest wake => exact calm_rest wake
  | call what f _ hf => exact calm_call what hf
  | bind p next _ _ ihp ihnext => exact ihp.bind ihnext

/-! ## What a process puts on record -/

/-- A process all of whose notes are ones of which `N` holds. -/
def Notes (N : Note → Prop) (p : Process σ α) : Prop :=
  ∀ s, ∀ m ∈ (p.run s).moments, N m.note

variable {N : Note → Prop}

/-- Rests leave no record. -/
theorem moments_rest (wake : Option Nat) (s : State σ) : ((rest wake).run s).moments = [] := by
  simp only [run, rest]
  split
  · rfl
  split
  · rfl
  split
  · rfl
  split <;> rfl

/-- What is on record comes from the one process or from the next. -/
theorem mem_moments_bind {p : Process σ α} {next : α → Process σ β} {s : State σ} {m : Moment}
    (hm : m ∈ ((p >>= next).run s).moments) :
    m ∈ (p.run s).moments ∨
      ∃ a before s', p.run s = ⟨.value a, before, s'⟩ ∧ m ∈ ((next a).run s').moments := by
  rcases h : p.run s with ⟨a | f | -, before, s'⟩
  · rw [run_bind_value h] at hm
    exact (List.mem_append.1 hm).imp_right fun hm => ⟨a, before, s', rfl, hm⟩
  · rw [run_bind_failed h] at hm
    exact Or.inl hm
  · rw [run_bind_stalled h] at hm
    exact Or.inl hm

theorem Notes.bind {p : Process σ α} {next : α → Process σ β} (hp : Notes N p)
    (hnext : ∀ a, Notes N (next a)) : Notes N (p >>= next) := by
  intro s m hm
  obtain hm | ⟨a, before, s', -, hm⟩ := mem_moments_bind hm
  · exact hp s m hm
  · exact hnext a s' m hm

theorem Notes.of_moments_nil {p : Process σ α} (h : ∀ s, (p.run s).moments = []) : Notes N p :=
  fun s m hm => by rw [h s] at hm; cases hm

theorem notes_note {n : Note} (hn : N n) : Notes N (note n : Process σ Unit) :=
  fun _ m hm => by obtain rfl := List.mem_singleton.1 hm; exact hn

/-- Moves log, and put nothing else on record. -/
theorem notes_performAll (hlog : ∀ e, N (.logged e)) (ms : List Move) :
    Notes N (performAll ms : Process σ Unit) := by
  have hmove : ∀ m : Move, Notes N (perform m : Process σ Unit) := by
    intro m
    cases m with
    | log e => exact notes_note (hlog e)
    | wait ms =>
      rw [perform]
      split
      · exact .of_moments_nil fun _ => rfl
      · exact .bind (.of_moments_nil fun _ => rfl) fun _ => .of_moments_nil (moments_rest _)
    | cancel => exact .of_moments_nil fun _ => rfl
    | awaitCancel =>
      refine .bind (.of_moments_nil fun _ => rfl) fun c => ?_
      split
      · exact .of_moments_nil fun _ => rfl
      · exact .of_moments_nil (moments_rest _)
    | hang => exact .of_moments_nil (moments_rest _)
  induction ms with
  | nil => exact .of_moments_nil fun _ => rfl
  | cons m ms ih => exact .bind (hmove m) fun _ => ih

theorem notes_carry (hlog : ∀ e, N (.logged e)) (f : Function σ α) : Notes N (carry f) := by
  intro s
  rw [run_carry]
  exact (notes_performAll hlog _).bind (fun _ => .of_moments_nil fun _ => rfl) _

theorem notes_call {what : Note} (hwhat : N what) (hlog : ∀ e, N (.logged e))
    (f : Function σ α) : Notes N (call what f) := by
  intro s m hm
  cases hs : s.isCancelled with
  | true =>
    rw [run_call_of_isCancelled hs] at hm
    cases hm
  | false =>
    rw [run_call hs] at hm
    exact (notes_note hwhat).bind (fun _ => notes_carry hlog f) s m hm

theorem Made.notes {P : Move → Prop} {p : Process σ α} (h : Made P N p)
    (hlog : ∀ e, N (.logged e)) : Notes N p := by
  induction h with
  | done a => exact .of_moments_nil fun _ => rfl
  | fail f => exact .of_moments_nil fun _ => rfl
  | stall => exact .of_moments_nil fun _ => rfl
  | look f _ => exact .of_moments_nil fun _ => rfl
  | note n hn _ => exact notes_note hn
  | rest wake => exact .of_moments_nil (moments_rest wake)
  | call what f hwhat _ => exact notes_call hwhat hlog f
  | bind p next _ _ ihp ihnext => exact ihp.bind ihnext

end Process

namespace Step

/-- **A step whose functions leave the token alone leaves it alone.** -/
theorem follows {step : Step σ} (h : step.Moves Move.Calm) (s : State σ) :
    (step.run.run s).Follows s :=
  (step.made h).calm s

/-- **What a step puts on record is its own.** -/
theorem own (step : Step σ) (s : State σ) :
    ∀ m ∈ (step.run.run s).moments, m.note.Own step.display := by
  have hany : step.Moves fun _ => True := by
    cases step <;> simp [Moves, Function.Moves]
  exact (step.made hany).notes .logged s

end Step

end Provision.Pipeline

/-! ## A rehearsal -/

namespace Provision.Rehearsal

open Pipeline

variable {β : Type} {P : Move → Prop}

/-- One call of a script is one of those that are written down, or one of
which nothing is said. -/
theorem Script.outcome_mem (s : Script) (n : Nat) : s.outcome n ∈ s ∨ s.outcome n = .plain := by
  rw [outcome]
  cases hn : s[n]? with
  | some o => exact Or.inl (List.mem_of_getElem? hn)
  | none =>
    cases hl : s.getLast? with
    | some o => exact Or.inl (List.mem_of_getLast? hl)
    | none => exact Or.inr rfl

/-- Besides what concerns the token, a call waits or hangs. -/
theorem Outcome.of_mem_moves {o : Outcome} {token : List Move} (hwait : ∀ ms, P (.wait ms))
    (hhang : P .hang) (htoken : ∀ m ∈ token, P m) : ∀ m ∈ o.moves token, P m := by
  intro m hm
  simp only [moves, List.cons_append, List.mem_cons, List.mem_append] at hm
  obtain rfl | (hm | hm) | hm := hm
  · exact hwait _
  · exact htoken m hm
  · split at hm
    · exact List.mem_singleton.1 hm ▸ hhang
    · cases hm
  · obtain ⟨ms, -, rfl⟩ := Option.map_eq_some_iff.1 (Option.mem_toList.1 hm)
    exact hwait ms

theorem Script.moves_poll {s : Script} (hwait : ∀ ms, P (.wait ms)) (hhang : P .hang)
    (h : ∀ o ∈ s, ∀ m ∈ o.token, P m) (slot : Nat) (name : String) :
    (s.poll slot name : Function (World β) _).Moves P := by
  intro t w
  refine Outcome.of_mem_moves hwait hhang ?_
  obtain hmem | hplain := s.outcome_mem (w.count slot)
  · exact h _ hmem
  · rw [hplain]
    intro m hm
    cases hm

theorem Script.moves_act {s : Script} (hwait : ∀ ms, P (.wait ms)) (hhang : P .hang)
    (h : ∀ o ∈ s, ∀ m ∈ o.token, P m) (slot : Nat) (name : String) :
    (s.act slot name : Function (World β) _).Moves P :=
  moves_poll hwait hhang h slot name

/-- An authorizer has nothing to do with the token of the run. -/
theorem Script.moves_authorize (s : Script) (hwait : ∀ ms, P (.wait ms)) (hhang : P .hang)
    (slot : Nat) (name : String) : (s.authorize slot name : Function (World β) _).Moves P := by
  intro t w
  refine Outcome.of_mem_moves hwait hhang fun m hm => ?_
  split at hm
  · exact List.mem_singleton.1 hm ▸ hhang
  · cases hm

end Provision.Rehearsal
