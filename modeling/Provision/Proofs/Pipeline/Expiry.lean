import Provision.Proofs.Pipeline.Polling
/-!
# Pipelines — expiries that are wrapped

An error is put together from the inside: something with no error behind it
(`Core`), and around it any number of wrappings, each of which says in its
own way what is behind it. Whether a failure counts as the expiry of a
deadline is asked of the chain that remains visible from outside.

**The innermost wrapping decides** (`isDeadlineExceeded_within_iff`). If it
shows the expiry as its reason, no wrapping around it hides that again. If it
takes the expiry's place, the expiry is lost for good; and a failure that is
reported as if it were the error in it does just that, except when it is the
outermost, for there the question goes to the error itself.

What is found to be an expiry becomes of a condition whose poll fails with
it: however many polls did not hold before, and whatever they did on the
clock, the condition fails of an internal timeout then and there
(`Condition.run_of_comes`).
-/

namespace Provision.Pipeline

/-! ## Errors from the inside -/

/-- An error with no error behind it. -/
inductive Core where
  | ordinary (words : Link)
  /-- The expiry of a deadline, as a timer reports it. -/
  | elapsed
  | authorization (kind : Denial) (message : String)
  /-- The expiry of a deadline, as a step reports it. -/
  | deadlineExceeded
  | timedOut (step : String) (hint : Option String)
  | cancelled

/-- Whether an error is itself the expiry of a deadline. -/
def Core.IsExpiry : Core → Prop
  | elapsed => True
  | deadlineExceeded => True
  | _ => False

/-- One way of wrapping an error in another. -/
inductive Wrapping where
  /-- An ordinary error whose reason is the wrapped one. -/
  | ordinary (words : Link)
  /-- An ordinary error in place of the wrapped one: its reason is what was
  the reason of that. -/
  | transparent (words : Link)
  /-- The failure to obtain fresh credentials. -/
  | refresh
  /-- The failure of a poll that ran into a deadline of its own. -/
  | internalTimeout
  /-- Any other failure. -/
  | other

/-- Whether the wrapped error is not among the errors behind its wrapping. -/
def Wrapping.Hides : Wrapping → Prop
  | ordinary _ => False
  | refresh => False
  | _ => True

/-- The error as others see it. -/
def Core.cause : Core → Cause
  | ordinary words => ⟨{ words with expired := false }, []⟩
  | elapsed => .elapsed
  | authorization kind message => (Failure.authorization kind message).toCause
  | deadlineExceeded => Failure.deadlineExceeded.toCause
  | timedOut step hint => (Failure.timedOut step hint).toCause
  | cancelled => Failure.cancelled.toCause

/-- An error in its wrapping, as others see it. -/
def Wrapping.apply : Wrapping → Cause → Cause
  | ordinary words, c => ⟨{ words with expired := false }, c.links⟩
  | transparent words, c => ⟨{ words with expired := false }, c.sources⟩
  | refresh, c => (Failure.refresh c).toCause
  | internalTimeout, c =>
    ⟨c.head.under "condition encountered internal timeout: ",
      { c.head with expired := false } :: c.sources⟩
  | other, c => (Failure.other c).toCause

/-- **An error with all its wrappings**, the innermost first. -/
def Core.within (k : Core) (ws : List Wrapping) : Cause :=
  ws.foldl (fun c w => w.apply c) k.cause

/-! ## What can be seen of an expiry -/

/-- Whether an expiry is among the links. -/
def showsExpiry (links : List Link) : Bool := links.any Link.expired

theorem isDeadlineExceeded_other (c : Cause) :
    (Failure.other c).isDeadlineExceeded = showsExpiry c.links := rfl

theorem showsExpiry_cause (k : Core) : showsExpiry k.cause.links = true ↔ k.IsExpiry := by
  cases k <;> simp [showsExpiry, Core.cause, Core.IsExpiry, Cause.links, Cause.elapsed,
    Failure.toCause, Failure.link, Failure.sources, Link.ofText]

theorem sources_cause (k : Core) : k.cause.sources = [] := by
  cases k <;> rfl

/-- A wrapping is no expiry. -/
theorem expired_apply (w : Wrapping) (c : Cause) : (w.apply c).head.expired = false := by
  cases w <;> rfl

/-- **A wrapping shows** the wrapped error and what is behind it, or, if it
hides that error, only what is behind it. -/
theorem showsExpiry_apply (w : Wrapping) (c : Cause) :
    (¬ w.Hides → showsExpiry (w.apply c).links = showsExpiry c.links) ∧
      (w.Hides → showsExpiry (w.apply c).links = showsExpiry c.sources) := by
  cases w <;> simp [Wrapping.Hides, Wrapping.apply, showsExpiry, Cause.links, Failure.toCause,
    Failure.link, Failure.sources, Link.under]

/-- Behind a wrapping nothing more can be hidden. -/
theorem showsExpiry_foldl (ws : List Wrapping) {c : Cause} (hc : c.head.expired = false) :
    showsExpiry (ws.foldl (fun c w => w.apply c) c).links = showsExpiry c.links := by
  induction ws generalizing c with
  | nil => rfl
  | cons w ws ih =>
    have hhead : showsExpiry c.links = showsExpiry c.sources := by
      simp [showsExpiry, Cause.links, hc]
    rw [List.foldl_cons, ih (expired_apply w c)]
    by_cases hw : w.Hides
    · rw [(showsExpiry_apply w c).2 hw, hhead]
    · exact (showsExpiry_apply w c).1 hw

/-- **The innermost wrapping decides** whether an expiry is seen. -/
theorem isDeadlineExceeded_within_iff (k : Core) (ws : List Wrapping) :
    (Failure.other (k.within ws)).isDeadlineExceeded = true ↔
      k.IsExpiry ∧ ∀ w ∈ ws.head?, ¬ w.Hides := by
  rw [isDeadlineExceeded_other, Core.within]
  cases ws with
  | nil => simp [showsExpiry_cause]
  | cons w ws =>
    rw [List.foldl_cons, showsExpiry_foldl ws (expired_apply w _)]
    by_cases hw : w.Hides
    · rw [(showsExpiry_apply w _).2 hw, sources_cause]
      simp [showsExpiry, hw]
    · rw [(showsExpiry_apply w _).1 hw, showsExpiry_cause]
      simp [hw]

/-! ## The clock

Whatever a call does, and be it to cancel the run, it does not turn back the
clock. -/

namespace Process

variable {σ α β : Type}

/-- A process that does not turn back the clock. -/
def Forward (p : Process σ α) : Prop := ∀ s, s.now ≤ (p.run s).state.now

theorem Calm.forward {p : Process σ α} (h : Calm p) : Forward p := fun s => (h s).le

theorem Forward.bind {p : Process σ α} {next : α → Process σ β} (hp : Forward p)
    (hnext : ∀ a, Forward (next a)) : Forward (p >>= next) := by
  intro s
  have hle := hp s
  rcases h : p.run s with ⟨a | f | -, before, s'⟩ <;> rw [h] at hle
  · rw [run_bind_value h]
    exact Nat.le_trans hle (hnext a s')
  · rwa [run_bind_failed h]
  · rwa [run_bind_stalled h]

theorem forward_perform (m : Move) : Forward (perform m : Process σ Unit) := by
  by_cases hm : m.Calm
  · exact (calm_perform hm).forward
  · obtain rfl := not_not.1 hm
    intro s
    change s.now ≤ s.cancel.now
    rw [State.cancel]
    split <;> exact Nat.le_refl _

theorem forward_performAll (ms : List Move) : Forward (performAll ms : Process σ Unit) := by
  induction ms with
  | nil => exact (calm_done ()).forward
  | cons m ms ih => exact (forward_perform m).bind fun _ => ih

theorem forward_call (what : Note) (f : Function σ α) : Forward (call what f) := by
  intro s
  cases hs : s.isCancelled with
  | true =>
    rw [run_call_of_isCancelled hs]
  | false =>
    have hmoves : Forward (performAll (f s.now s.world).1.moves >>= fun _ =>
        (done (f s.now s.world).1.answer : Process σ α)) :=
      (forward_performAll _).bind fun _ => (calm_done _).forward
    rw [run_call hs, run_note_bind, run_carry]
    exact hmoves { s with world := (f s.now s.world).2 }

/-- A rest that is granted ends at its time, or was over before. -/
theorem now_of_rest {s s' : State σ} {t : Nat} {ms : List Moment}
    (h : (rest (some t)).run s = ⟨.value (), ms, s'⟩) : s'.now = max s.now t := by
  simp only [run, rest] at h
  split at h
  · cases h
  split at h
  · cases h
  split at h
  · cases h
  · obtain ⟨-, -, rfl⟩ := Span.mk.inj h
    rfl

end Process

/-! ## Conditions -/

namespace Condition

variable {σ : Type} {c : Condition σ} {deadline n : Nat} {s s' s'' : State σ} {f : Failure}

/-- **The course of the polls**: `n` of them do not hold, one after the
other, and lead from one state to the state of the next poll. -/
inductive Comes (c : Condition σ) (deadline : Nat) : Nat → State σ → State σ → Prop
  | here (s : State σ) : Comes c deadline 0 s s
  | later {n : Nat} {s s₁ s₂ s' : State σ} {ms ms' : List Moment}
      (hcall : (Process.call (.called c.display) c.function).run s = ⟨.value (.ok false), ms, s₁⟩)
      (hnext : s₁.now + c.interval < deadline)
      (hrest : (Process.rest (some (s₁.now + c.interval))).run s₁ = ⟨.value (), ms', s₂⟩)
      (rest : Comes c deadline n s₂ s') : Comes c deadline (n + 1) s s'

/-- Each poll but the first uses up an interval. -/
theorem Comes.le (h : Comes c deadline n s s') : n * c.interval ≤ deadline - s.now := by
  induction h with
  | here s => simp
  | @later n s s₁ s₂ s' ms ms' hcall hnext hrest _ ih =>
    have hforward : s.now ≤ s₁.now := by
      have h := Process.forward_call (.called c.display) c.function s
      rwa [hcall] at h
    have hnow := Process.now_of_rest hrest
    have hmul : (n + 1) * c.interval = n * c.interval + c.interval := Nat.succ_mul n c.interval
    omega

/-- **A poll that fails ends the loop**, if the loop comes to it. -/
theorem pollUntil_of_comes (h : Comes c deadline n s s') {ms : List Moment}
    (hcall : (Process.call (.called c.display) c.function).run s' = ⟨.value (.error f), ms, s''⟩)
    {polls : Nat} (hpolls : n < polls) :
    ∃ ms', (c.pollUntil deadline polls).run s = ⟨.failed (classify f), ms', s''⟩ := by
  induction h generalizing polls with
  | here s =>
    obtain ⟨k, rfl⟩ : ∃ k, polls = k + 1 := ⟨polls - 1, by omega⟩
    rw [pollUntil, Process.run_bind_value hcall]
    exact ⟨_, rfl⟩
  | @later n s s₁ s₂ s' before resting hheld hnext hrest _ ih =>
    obtain ⟨k, rfl⟩ : ∃ k, polls = k + 1 := ⟨polls - 1, by omega⟩
    have hk : n < k := by omega
    obtain ⟨ms', hrun⟩ := ih hcall hk
    rw [pollUntil, Process.run_bind_value hheld]
    simp only [Process.now, Process.run_look_bind, if_neg (Nat.not_le.2 hnext)]
    rw [Process.log, Process.run_note_bind, Process.run_bind_value hrest, hrun]
    exact ⟨_, rfl⟩

/-- **A condition fails with the failure of its poll**, whichever poll that
is: an expiry as an internal timeout, anything else as it is. -/
theorem run_of_comes (h : Comes c (s.now + c.timeout.millis) n s s') {ms : List Moment}
    (hcall : (Process.call (.called c.display) c.function).run s' = ⟨.value (.error f), ms, s''⟩)
    (hn : 0 < c.interval ∨ n ≤ c.timeout.millis + s.patience) :
    (c.run.run s).ending =
      .failed (if f.isDeadlineExceeded then .internalTimeout f else f) := by
  have hpolls : n < c.timeout.millis + 1 + s.patience := by
    rcases hn with hpos | hn
    · have hle := h.le
      have hmul : n ≤ n * c.interval := Nat.le_mul_of_pos_right n hpos
      omega
    · omega
  obtain ⟨ms', hrun⟩ := pollUntil_of_comes h hcall hpolls
  rw [run_of_failed hrun]
  rfl

end Condition

/-- **An expiry is seen through its wrappings if the innermost of them shows
it**, or if there are none. So it is with every error: whatever is wrapped in
the end as any other failure counts as an expiry if and only if it has an
expiry at its core and the innermost wrapping does not take its place; no
error without an expiry counts as one. And a condition whose poll fails with
it, after any number of polls that did not hold, fails of an internal timeout
if it counts, and else with the failure itself. -/
theorem expiry_seen_iff (k : Core) (ws : List Wrapping) :
    let f := Failure.other (k.within ws)
    (f.isDeadlineExceeded = true ↔ k.IsExpiry ∧ ∀ w ∈ ws.head?, ¬ w.Hides) ∧
      (¬ k.IsExpiry → f.isDeadlineExceeded = false) ∧
      ∀ {σ : Type} (c : Condition σ) (s s' s'' : State σ) (n : Nat) (ms : List Moment),
        c.Comes (s.now + c.timeout.millis) n s s' →
        (Process.call (.called c.display) c.function).run s' = ⟨.value (.error f), ms, s''⟩ →
        (0 < c.interval ∨ n ≤ c.timeout.millis + s.patience) →
        (k.IsExpiry → (∀ w ∈ ws.head?, ¬ w.Hides) →
          (c.run.run s).ending = .failed (.internalTimeout f)) ∧
        ((¬ k.IsExpiry ∨ ∃ w ∈ ws.head?, w.Hides) → (c.run.run s).ending = .failed f) := by
  intro f
  have hseen : f.isDeadlineExceeded = true ↔ k.IsExpiry ∧ ∀ w ∈ ws.head?, ¬ w.Hides :=
    isDeadlineExceeded_within_iff k ws
  refine ⟨hseen, fun hk => Bool.eq_false_iff.2 fun h => hk (hseen.1 h).1,
    fun c s s' s'' n ms hcomes hcall hn => ?_⟩
  have hrun := Condition.run_of_comes hcomes hcall hn
  refine ⟨fun hk hws => ?_, fun hno => ?_⟩
  · rw [hrun, if_pos (hseen.2 ⟨hk, hws⟩)]
  · rw [hrun, if_neg]
    rintro h
    rcases hno with hk | ⟨w, hw, hhides⟩
    · exact hk (hseen.1 h).1
    · exact (hseen.1 h).2 w hw hhides

end Provision.Pipeline

/-! ## A rehearsal -/

namespace Provision.Rehearsal

open Pipeline

/-- **An expiry is lost** when it becomes a failure, which becomes a failure
once more: the first one counts as an expiry, and the second does not. -/
theorem expiry_lost_in_failures :
    let once := Failure.other Failure.deadlineExceeded.toCause
    once.isDeadlineExceeded = true ∧ (Failure.other once.toCause).isDeadlineExceeded = false ∧
      Condition.classify (.other once.toCause) = .other once.toCause := by
  decide

/-- The expiry of a timer as the reason of an ordinary error, in two failures
and another ordinary error. -/
def buried : Failure :=
  .other (Core.elapsed.within
    [.ordinary (.ofText "health check failed"), .other, .other,
      .ordinary (.ofText "cluster is not ready")])

/-- A condition that does not hold at first, and then runs into a deadline. -/
def expiring : Condition (World Unit) :=
  ⟨"ready", Script.poll
      [{ Outcome.plain with after := 1, answer := false },
        { Outcome.plain with after := 2, failure := some buried }] 0 "ready",
    .ofMillis 10, true, 4, none⟩

/-- Its second poll is found to have run into a deadline. -/
theorem expiry_seen_iff_buried :
    buried.isDeadlineExceeded = true ∧
      ∃ s', expiring.Comes 10 1 uncancelled s' ∧ s'.now = 5 ∧
        (expiring.run.run uncancelled).ending = .failed (.internalTimeout buried) := by
  obtain ⟨hseen, -, hpolls⟩ := expiry_seen_iff .elapsed
    [.ordinary (.ofText "health check failed"), .other, .other,
      .ordinary (.ofText "cluster is not ready")]
  have hhides : ∀ w ∈ [Wrapping.ordinary (.ofText "health check failed"), .other, .other,
      .ordinary (.ofText "cluster is not ready")].head?, ¬ w.Hides := by
    rintro w ⟨⟩ h
    exact h
  have hcomes : ∃ s', expiring.Comes 10 1 uncancelled s' ∧ s'.now = 5 ∧
      ∃ ms s'', (Process.call (.called expiring.display) expiring.function).run s' =
        ⟨.value (.error buried), ms, s''⟩ :=
    ⟨_, .later rfl (by decide) rfl (.here _), rfl, _, _, rfl⟩
  obtain ⟨s', hs', hnow, ms, s'', hcall⟩ := hcomes
  exact ⟨hseen.2 ⟨trivial, hhides⟩, s', hs', hnow,
    (hpolls expiring uncancelled s' s'' 1 ms hs' hcall (.inl (by decide))).1 trivial hhides⟩

end Provision.Rehearsal
