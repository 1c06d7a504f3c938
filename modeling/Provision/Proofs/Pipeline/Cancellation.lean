import Provision.Proofs.Pipeline.Protocol
/-!
# Pipelines — cancellation

Two runs of one process from one state: nobody cancels the first, and the
second is cancelled at an instant `c`. Only rests let time pass, and every
rest looks at the token first, so at `c` the second run either is done, and
then it is the first run, or it is cut off, and then its record is the
beginning of the first one's (`Cut`). The parts of steps give way so, and
what is made of them gives way too (`Step.yields`).

For whole runs this comes to `run_cancelled`: **cancellation cuts a run at
the instant of cancellation**, and one report is added, which blames the
step in progress. Not every run gets to that instant: polls that take no
time, with nothing between them, go on at the instant they started at
(`Condition.Restless`).
-/

namespace Provision.Pipeline

variable {σ α β : Type} {c : Nat} {l : Option Nat}

/-- A move that has nothing to do with the token. -/
def Move.Blind (m : Move) : Prop := m ≠ .cancel ∧ m ≠ .awaitCancel

theorem Move.Blind.calm {m : Move} (h : m.Blind) : m.Calm := h.1

/-! ## Nothing begins once a run is cancelled -/

namespace Process

/-- A process that calls nothing from `c` on if it is cancelled at `c`. -/
def Heeds (c : Nat) (p : Process σ α) : Prop :=
  ∀ s, s.cancelAt = some c → ∀ m ∈ (p.run s).moments, m.note.isCall → m.time < c

theorem Heeds.of_notes {p : Process σ α} (h : Notes (fun n => n.isCall = false) p) :
    Heeds c p := by
  intro s _ m hm hcall
  rw [h s m hm] at hcall
  cases hcall

theorem Heeds.bind {p : Process σ α} {next : α → Process σ β} (hp : Heeds c p) (hcalm : Calm p)
    (hnext : ∀ a, Heeds c (next a)) : Heeds c (p >>= next) := by
  intro s hs m hm
  obtain hm | ⟨a, before, s', h, hm⟩ := mem_moments_bind hm
  · exact hp s hs m hm
  · have hcancel : s'.cancelAt = s.cancelAt := by
      have hfollows := hcalm s
      rw [h] at hfollows
      exact hfollows.cancelAt
    exact hnext a s' (hcancel.trans hs) m hm

/-- A call is on record before anything else that it does. -/
theorem heeds_call (what : Note) (f : Function σ α) : Heeds c (call what f) := by
  intro s hs m hm hcall
  cases hnot : s.isCancelled with
  | true =>
    rw [run_call_of_isCancelled hnot] at hm
    cases hm
  | false =>
    rw [run_call hnot, run_note_bind] at hm
    rw [State.isCancelled, hs] at hnot
    obtain rfl | hm := List.mem_cons.1 hm
    · exact Nat.not_le.1 (of_decide_eq_false hnot)
    · have hcarry : Notes (fun n => n.isCall = false) (carry f) := notes_carry (fun _ => rfl) f
      rw [hcarry s m hm] at hcall
      cases hcall

theorem Made.heeds {p : Process σ α} {N : Note → Prop} (h : Made Move.Calm N p) : Heeds c p := by
  induction h with
  | done a => exact .of_notes (.of_moments_nil fun _ => rfl)
  | fail f => exact .of_notes (.of_moments_nil fun _ => rfl)
  | stall => exact .of_notes (.of_moments_nil fun _ => rfl)
  | look f _ => exact .of_notes (.of_moments_nil fun _ => rfl)
  | note n _ hcall => exact .of_notes (notes_note hcall)
  | rest wake => exact .of_notes (.of_moments_nil (moments_rest wake))
  | call what f _ _ => exact heeds_call what f
  | bind p next hp _ ihp ihnext => exact ihp.bind hp.calm ihnext

end Process

/-! ## Two runs -/

/-- The state, cancelled at `c` and waited for until `l`. -/
def State.cancelledAt (s : State σ) (c : Nat) (l : Option Nat) : State σ :=
  { s with cancelAt := some c, limit := l }

@[simp] theorem State.cancelledAt_cancelAt (s : State σ) :
    (s.cancelledAt c l).cancelAt = some c := rfl

@[simp] theorem State.cancelledAt_limit (s : State σ) : (s.cancelledAt c l).limit = l := rfl

/-- What is left of a process if the state it ends in is cancelled at `c`. -/
def Span.cancelledAt (r : Span σ α) (c : Nat) (l : Option Nat) : Span σ α :=
  { r with state := r.state.cancelledAt c l }

/-- **Not after `c`**, in a run that nobody cancels and that is waited for
until after `c`. -/
structure State.Until (s : State σ) (c : Nat) : Prop where
  cancelAt : s.cancelAt = none
  limit : ∃ L, s.limit = some L ∧ c < L
  now : s.now ≤ c

/-- What is left of a process that is cancelled at `c`, beside what is left
of it if nobody cancels it. -/
inductive Cut (c : Nat) (l : Option Nat) (r : Span σ α) : Span σ α → Prop
  /-- It was done by then. -/
  | spared (h : r.state.now ≤ c) : Cut c l r (r.cancelledAt c l)
  /-- It was not, and the rest of the record is missing. -/
  | severed (kept later : List Moment) (s' : State σ) (h : c ≤ r.state.now)
      (hmoments : r.moments = kept ++ later) (hlater : ∀ m ∈ later, c ≤ m.time)
      (hs' : s'.now = c) : Cut c l r ⟨.failed .cancelled, kept, s'⟩

/-- What went before went before in both runs. -/
theorem Cut.append {r r' : Span σ α} (h : Cut c l r r') (before : List Moment) :
    Cut c l { r with moments := before ++ r.moments }
      { r' with moments := before ++ r'.moments } := by
  cases h with
  | spared h => exact .spared h
  | severed kept later s' h hmoments hlater hs' =>
    refine .severed (before ++ kept) later s' h ?_ hlater hs'
    rw [List.append_assoc, ← hmoments]

/-- All that follows on what lasts until `c` is missing, too. -/
theorem Cut.severed_append {own kept later : List Moment} {s₁ s' : State σ}
    {r : Span σ β} (hr : r.Follows s₁) (h : c ≤ s₁.now) (hown : own = kept ++ later)
    (hlater : ∀ m ∈ later, c ≤ m.time) (hs' : s'.now = c) :
    Cut c l { r with moments := own ++ r.moments } ⟨.failed .cancelled, kept, s'⟩ := by
  refine .severed kept (later ++ r.moments) s' (Nat.le_trans h hr.le) ?_ (fun m hm => ?_) hs'
  · rw [hown, List.append_assoc]
  · obtain hm | hm := List.mem_append.1 hm
    · exact hlater m hm
    · exact Nat.le_trans h (hr.within m hm).1

theorem Span.Follows.until {r : Span σ α} {s : State σ} (h : r.Follows s) (hs : s.Until c)
    (hnow : r.state.now ≤ c) : r.state.Until c :=
  ⟨h.cancelAt.trans hs.cancelAt, h.limit ▸ hs.limit, hnow⟩

/-- Before `c` it makes no difference whether `c` is the end. -/
theorem State.isCancelled_cancelledAt (s : State σ) (c : Nat) (l : Option Nat) :
    (s.cancelledAt c l).isCancelled = decide (c ≤ s.now) := rfl

namespace Process

/-- What takes no time is done by then. -/
theorem cut_at_once {p : Process σ α} {s : State σ} (hs : s.Until c)
    (hnow : (p.run s).state.now = s.now)
    (h : p.run (s.cancelledAt c l) = (p.run s).cancelledAt c l) :
    Cut c l (p.run s) (p.run (s.cancelledAt c l)) :=
  h ▸ .spared (hnow ▸ hs.now)

/-- **A process that gives way to cancellation** at `c`. -/
structure Yields (c : Nat) (l : Option Nat) (p : Process σ α) : Prop where
  calm : Calm p
  cut : ∀ s, s.Until c → Cut c l (p.run s) (p.run (s.cancelledAt c l))

theorem Yields.bind {p : Process σ α} {next : α → Process σ β} (hp : Yields c l p)
    (hnext : ∀ a, Yields c l (next a)) : Yields c l (p >>= next) := by
  refine ⟨hp.calm.bind fun a => (hnext a).calm, fun s hs => ?_⟩
  have hfollows := hp.calm s
  have hcut := hp.cut s hs
  generalize hr' : p.run (s.cancelledAt c l) = r' at hcut
  rcases hr : p.run s with ⟨a | f | -, before, s₁⟩ <;> rw [hr] at hfollows hcut
  · rw [run_bind_value hr]
    cases hcut with
    | spared h =>
      rw [run_bind_value hr']
      exact ((hnext a).cut s₁ (hfollows.until hs h)).append before
    | severed kept later s' h hmoments hlater hs' =>
      rw [run_bind_failed hr']
      exact .severed_append ((hnext a).calm s₁) h hmoments hlater hs'
  · rw [run_bind_failed hr]
    cases hcut with
    | spared h =>
      rw [run_bind_failed hr']
      exact .spared h
    | severed kept later s' h hmoments hlater hs' =>
      rw [run_bind_failed hr']
      exact .severed kept later s' h hmoments hlater hs'
  · rw [run_bind_stalled hr]
    cases hcut with
    | spared h =>
      rw [run_bind_stalled hr']
      exact .spared h
    | severed kept later s' h hmoments hlater hs' =>
      rw [run_bind_failed hr']
      exact .severed kept later s' h hmoments hlater hs'

theorem yields_done (a : α) : Yields c l (done a : Process σ α) :=
  ⟨calm_done a, fun _ hs => cut_at_once hs rfl rfl⟩

theorem yields_note (n : Note) : Yields c l (note n : Process σ Unit) :=
  ⟨calm_note n, fun _ hs => cut_at_once hs rfl rfl⟩

theorem yields_look {f : State σ → α} (hf : ∀ s c l, f { s with cancelAt := c, limit := l } = f s) :
    Yields c l (look f) := by
  refine ⟨calm_look f, fun s hs => cut_at_once hs rfl ?_⟩
  simp only [run, look, State.cancelledAt, hf]
  rfl

/-- A rest in a run that nobody cancels is over in time, or is waited for
until the limit. -/
theorem run_rest_of_none {s : State σ} (hcancel : s.cancelAt = none) {L : Nat}
    (hlimit : s.limit = some L) (wake : Option Nat) :
    (rest wake).run s =
      if before (some L) wake then ⟨.stalled, [], s.moveTo L⟩
      else ⟨.value (), [], s.moveTo (wake.getD 0)⟩ := by
  simp only [run, rest, State.isCancelled, hcancel, hlimit]
  cases wake <;> rfl

/-- A rest in a run that is cancelled at `c`, which has not come. -/
theorem run_rest_cancelledAt {s : State σ} (hnow : s.now < c) (hl : ∀ L, l = some L → c < L)
    (wake : Option Nat) :
    (rest wake).run (s.cancelledAt c l) =
      if before (some c) wake then ⟨.failed .cancelled, [], (s.cancelledAt c l).moveTo c⟩
      else ⟨.value (), [], (s.cancelledAt c l).moveTo (wake.getD 0)⟩ := by
  have hlimit : ∀ t, t ≤ c → before l (some t) = false := by
    intro t ht
    cases l with
    | none => rfl
    | some L => exact decide_eq_false (Nat.not_lt.2 (Nat.le_trans ht (Nat.le_of_lt (hl L rfl))))
  have hstart : decide (c ≤ s.now) = false := decide_eq_false (Nat.not_le.2 hnow)
  by_cases hwake : before (some c) wake
  · simp [run, rest, State.isCancelled_cancelledAt, hstart, hlimit c (Nat.le_refl c), hwake]
  · cases wake with
    | none => exact absurd rfl hwake
    | some t =>
      have ht : t ≤ c := Nat.le_of_not_lt fun h => hwake (decide_eq_true h)
      simp [run, rest, State.isCancelled_cancelledAt, hstart, hlimit t ht, hwake]

/-- **A rest gives way.** It is over by `c`, or it is cut off. -/
theorem yields_rest (hl : ∀ L, l = some L → c < L) (wake : Option Nat) :
    Yields c l (rest wake : Process σ Unit) := by
  refine ⟨calm_rest wake, fun s hs => ?_⟩
  have hfollows := calm_rest wake s
  -- a rest that is cut off leaves no record, and no other one lasts until later
  have hsevered : ∀ s' : State σ, s'.now = c → c ≤ ((rest wake).run s).state.now →
      Cut c l ((rest wake).run s) ⟨.failed .cancelled, [], s'⟩ :=
    fun s' hs' h => .severed [] [] s' h (moments_rest wake s) (fun m hm => by cases hm) hs'
  rcases Nat.lt_or_ge s.now c with hnow | hnow
  · obtain ⟨hcancel, ⟨L, hlimit, hL⟩, -⟩ := hs
    have hr := run_rest_of_none hcancel hlimit wake
    rw [run_rest_cancelledAt hnow hl]
    by_cases hwake : before (some c) wake
    · rw [if_pos hwake]
      refine hsevered _ (Nat.max_eq_right (Nat.le_of_lt hnow)) ?_
      rw [hr]
      by_cases hlate : before (some L) wake
      · rw [if_pos hlate]
        exact Nat.le_trans (Nat.le_of_lt hL) (Nat.le_max_right _ _)
      · rw [if_neg hlate]
        cases wake with
        | none => exact absurd rfl hlate
        | some t =>
          exact Nat.le_trans (Nat.le_of_lt (of_decide_eq_true hwake)) (Nat.le_max_right _ _)
    · rw [if_neg hwake, hr]
      cases wake with
      | none => exact absurd rfl hwake
      | some t =>
        have ht : t ≤ c := Nat.le_of_not_lt fun h => hwake (decide_eq_true h)
        have hearly : before (some L) (some t) = false :=
          decide_eq_false (Nat.not_lt.2 (Nat.le_trans ht (Nat.le_of_lt hL)))
        rw [hearly, if_neg Bool.false_ne_true]
        exact .spared (Nat.max_le.2 ⟨Nat.le_of_lt hnow, ht⟩)
  · have hr' : (rest wake).run (s.cancelledAt c l) =
        ⟨.failed .cancelled, [], s.cancelledAt c l⟩ := by
      simp [run, rest, State.isCancelled_cancelledAt, hnow]
    rw [hr']
    exact hsevered _ (Nat.le_antisymm hs.now hnow) (Nat.le_trans hnow hfollows.le)

theorem yields_performAll (hl : ∀ L, l = some L → c < L) {ms : List Move}
    (hms : ∀ m ∈ ms, m.Blind) : Yields c l (performAll ms : Process σ Unit) := by
  have hmove : ∀ m : Move, m.Blind → Yields c l (perform m : Process σ Unit) := by
    intro m hm
    cases m with
    | log e => exact yields_note _
    | wait ms =>
      rw [perform]
      split
      · exact yields_done ()
      · exact .bind (yields_look fun _ _ _ => rfl) fun _ => yields_rest hl _
    | cancel => exact absurd rfl hm.1
    | awaitCancel => exact absurd rfl hm.2
    | hang => exact yields_rest hl none
  induction ms with
  | nil => exact yields_done ()
  | cons m ms ih =>
    exact .bind (hmove m (hms m List.mem_cons_self)) fun _ =>
      ih fun m hm => hms m (List.mem_cons_of_mem _ hm)

/-- Both runs take the same moves, which the time and the world give. -/
theorem yields_carry (hl : ∀ L, l = some L → c < L) {f : Function σ α}
    (hf : f.Moves Move.Blind) : Yields c l (carry f) := by
  refine ⟨calm_carry (hf.mono fun _ => Move.Blind.calm), fun s hs => ?_⟩
  let taken := f s.now s.world
  have hmoves : Yields c l
      (performAll taken.1.moves >>= fun _ => (done taken.1.answer : Process σ α)) :=
    .bind (yields_performAll hl (hf _ _)) fun _ => yields_done _
  exact hmoves.cut { s with world := taken.2 } ⟨hs.cancelAt, hs.limit, hs.now⟩

/-- **A call gives way.** It is not begun at `c`, and one that has begun is
cut off. -/
theorem yields_call (hl : ∀ L, l = some L → c < L) (what : Note) {f : Function σ α}
    (hf : f.Moves Move.Blind) : Yields c l (call what f) := by
  have hcalm : Calm (call what f) := calm_call what (hf.mono fun _ => Move.Blind.calm)
  refine ⟨hcalm, fun s hs => ?_⟩
  by_cases hcut : c ≤ s.now
  · have hfollows := hcalm s
    have hcancelled : (s.cancelledAt c l).isCancelled = true := decide_eq_true hcut
    rw [run_call_of_isCancelled hcancelled]
    exact .severed [] _ _ (Nat.le_trans hcut hfollows.le) rfl
      (fun m hm => Nat.le_trans hcut (hfollows.within m hm).1) (Nat.le_antisymm hs.now hcut)
  · have hnot : (s.cancelledAt c l).isCancelled = false := decide_eq_false hcut
    rw [run_call (isCancelled_of_none hs.cancelAt), run_call hnot]
    exact ((yields_note what).bind fun _ => yields_carry hl hf).cut s hs

theorem Made.yields (hl : ∀ L, l = some L → c < L) {p : Process σ α} {N : Note → Prop}
    (h : Made Move.Blind N p) : Yields c l p := by
  induction h with
  | done a => exact yields_done a
  | fail f => exact ⟨calm_fail f, fun _ hs => cut_at_once hs rfl rfl⟩
  | stall => exact ⟨calm_stall, fun _ hs => cut_at_once hs rfl rfl⟩
  | look f hf => exact yields_look hf
  | note n _ _ => exact yields_note n
  | rest wake => exact yields_rest hl wake
  | call what f _ hf => exact yields_call hl what hf
  | bind p next _ _ ihp ihnext => exact ihp.bind ihnext

end Process

/-- **A step gives way to cancellation**, wherever it is. -/
theorem Step.yields (hl : ∀ L, l = some L → c < L) {step : Step σ}
    (h : step.Moves Move.Blind) : step.run.Yields c l :=
  (step.made h).yields hl

/-! ## The run of all -/

open Process (Calm)

theorem calm_logCauses (links : List Link) : Calm (logCauses links : Process σ Unit) := by
  induction links with
  | nil => exact Process.calm_done ()
  | cons link links ih => exact .bind (Process.calm_note _) fun _ => ih

/-- A step of a pipeline leaves the token alone if its functions do. -/
theorem Step.calm_enter {step : Step σ} (h : step.Moves Move.Calm) : Calm step.enter := by
  refine .bind (Process.calm_look _) fun cancelled => ?_
  split
  · exact .bind (Process.calm_note _) fun _ => Process.calm_fail _
  refine .bind (Process.calm_note _) fun _ => .bind (Process.calm_note _) fun _ =>
    .bind (Process.calm_look _) fun start => .bind (.attempt fun s => step.follows h s) fun r => ?_
  match r with
  | .ok () =>
    exact .bind (Process.calm_look _) fun _ => .bind (Process.calm_note _) fun _ =>
      .bind (Process.calm_note _) fun _ => Process.calm_done _
  | .error f =>
    exact .bind (Process.calm_note _) fun _ => .bind (calm_logCauses _) fun _ =>
      .bind (Process.calm_note _) fun _ => Process.calm_fail _

theorem calm_run {steps : List (Step σ)} (h : ∀ step ∈ steps, step.Moves Move.Calm) :
    Calm (run steps) := by
  induction steps with
  | nil => exact Process.calm_done _
  | cons step steps ih =>
    exact .bind (Step.calm_enter (h step List.mem_cons_self)) fun _ =>
      .bind (ih fun x hx => h x (List.mem_cons_of_mem _ hx)) fun _ => Process.calm_done _

variable {step : Step σ} {steps : List (Step σ)} {s : State σ}

/-- **A run goes on from its first leg**: the account of that is the
beginning of the record, and the rest of the record is not earlier. -/
theorem run_goes_on (step : Step σ) (hs : s.isCancelled = false)
    (hcalm : ∀ step ∈ steps, step.Moves Move.Calm) :
    let leg : Leg σ := ⟨step, s, step.run.run s⟩
    let r := (run (step :: steps)).run s
    leg.span.state.now ≤ r.state.now ∧
      ∃ more, r.moments = leg.account ++ more ∧ ∀ m ∈ more, leg.span.state.now ≤ m.time := by
  intro leg r
  have hnil : ∀ m ∈ ([] : List Moment), leg.span.state.now ≤ m.time := fun m hm => by cases hm
  rcases h : step.run.run s with ⟨⟨⟩ | f | -, own, s₁⟩
  · have hfollows := calm_run hcalm s₁
    simp only [leg, r, h, run_cons_value hs h]
    exact ⟨hfollows.le, _, rfl, fun m hm => (hfollows.within m hm).1⟩
  · simp only [leg, r, h, run_cons_failed hs h] at hnil ⊢
    exact ⟨Nat.le_refl _, [], (List.append_nil _).symm, hnil⟩
  · simp only [leg, r, h, run_cons_stalled hs h] at hnil ⊢
    exact ⟨Nat.le_refl _, [], (List.append_nil _).symm, hnil⟩

/-! ## Marks -/

/-- Whether a moment is anything but a message of the log. -/
def Moment.isMark (m : Moment) : Bool :=
  match m.note with
  | .logged _ => false
  | _ => true

/-- The events and the calls on record. -/
def marks (ms : List Moment) : List Moment := ms.filter Moment.isMark

theorem marks_append (ms ms' : List Moment) : marks (ms ++ ms') = marks ms ++ marks ms' :=
  List.filter_append ..

theorem mem_of_mem_marks {m : Moment} {ms : List Moment} (h : m ∈ marks ms) : m ∈ ms :=
  (List.mem_filter.1 h).1

theorem Leg.marks_account (leg : Leg σ) :
    marks leg.account =
      ⟨leg.start.now, .notified (.started leg.step.display)⟩ :: marks leg.span.moments ++
        leg.report.map fun e => ⟨leg.span.state.now, .notified e⟩ := by
  have hremarks : ∀ (t : Nat) (es : List Log.Entry),
      marks ((es.map Note.logged).map (Moment.mk t)) = [] := by
    intro t es
    induction es with
    | nil => rfl
    | cons e es ih => exact ih
  have hreport : ∀ (t : Nat) (es : List Event),
      marks ((es.map Note.notified).map (Moment.mk t)) = es.map fun e => ⟨t, .notified e⟩ := by
    intro t es
    induction es with
    | nil => rfl
    | cons e es ih => exact congrArg (_ :: ·) ih
  simp only [account, List.map_append, marks_append, hremarks, hreport, List.nil_append]
  rfl

/-- The account of a leg is as long as the leg. -/
theorem Leg.within {leg : Leg σ} (h : leg.span.Follows leg.start) :
    ∀ m ∈ leg.account, m.time ≤ leg.span.state.now := by
  intro m hm
  simp only [account, List.mem_append] at hm
  obtain (hm | hm) | hm := hm
  · obtain ⟨n, -, rfl⟩ := List.mem_map.1 hm
    exact h.le
  · exact (h.within m hm).2
  · obtain ⟨n, -, rfl⟩ := List.mem_map.1 hm
    exact Nat.le_refl _

/-- What ends is reported when it ends. -/
theorem Leg.exists_report (leg : Leg σ) (h : leg.span.ending ≠ .stalled) :
    ∃ e, ⟨leg.span.state.now, .notified e⟩ ∈ leg.account := by
  have hreport : ∃ e, e ∈ leg.report := by
    rw [report]
    rcases hending : leg.span.ending with ⟨⟩ | f | -
    · exact ⟨_, List.mem_singleton_self _⟩
    · exact ⟨_, List.mem_singleton_self _⟩
    · exact absurd hending h
  obtain ⟨e, he⟩ := hreport
  refine ⟨e, List.mem_append_right _ ?_⟩
  exact List.mem_map_of_mem (List.mem_append_right _ (List.mem_map_of_mem he))

theorem filter_before_eq_self {ms : List Moment} (h : ∀ m ∈ ms, m.time < c) :
    ms.filter (fun m => m.time < c) = ms :=
  List.filter_eq_self.2 fun m hm => decide_eq_true (h m hm)

theorem filter_before_eq_nil {ms : List Moment} (h : ∀ m ∈ ms, c ≤ m.time) :
    ms.filter (fun m => m.time < c) = [] :=
  List.filter_eq_nil_iff.2 fun m hm hlt => Nat.not_lt.2 (h m hm) (of_decide_eq_true hlt)

/-- Before `c`, a leg that lasts until then leaves what the step has left,
and the report of its beginning. -/
theorem Leg.marks_account_before {leg : Leg σ} (hstart : leg.start.now < c)
    (hend : c ≤ leg.span.state.now) :
    (marks leg.account).filter (fun m => m.time < c) =
      ⟨leg.start.now, .notified (.started leg.step.display)⟩ ::
        (marks leg.span.moments).filter fun m => m.time < c := by
  have hreport : ∀ m ∈ leg.report.map (fun e => (⟨leg.span.state.now, .notified e⟩ : Moment)),
      c ≤ m.time := by
    intro m hm
    obtain ⟨e, -, rfl⟩ := List.mem_map.1 hm
    exact hend
  rw [marks_account, List.filter_append, filter_before_eq_nil hreport, List.append_nil]
  exact List.filter_cons_of_pos (decide_eq_true hstart)

/-- A step that is cut off: what is kept of its record comes to what it
leaves before `c` if nobody cancels. -/
theorem marks_of_severed {step : Step σ} (hcalm : step.Moves Move.Calm)
    {own kept later : List Moment} {s s' : State σ} (hs : s.cancelAt = some c)
    (h : step.run.run s = ⟨.failed .cancelled, kept, s'⟩) (hs' : s'.now = c)
    (hmoments : own = kept ++ later) (hlater : ∀ m ∈ later, c ≤ m.time)
    (hreport : ∀ e, ⟨c, .notified e⟩ ∉ own) :
    (marks own).filter (fun m => m.time < c) = marks kept := by
  have hheeds := (step.made hcalm).heeds s hs
  have hfollows := step.follows hcalm s
  rw [h] at hheeds hfollows
  have hkept : ∀ m ∈ marks kept, m.time < c := by
    intro m hm
    obtain ⟨hm, hmark⟩ := List.mem_filter.1 hm
    have hle : m.time ≤ c := hs' ▸ (hfollows.within m hm).2
    obtain ⟨t, n⟩ := m
    cases n with
    | logged e => cases hmark
    | notified e =>
      refine Nat.lt_of_le_of_ne hle fun heq => hreport e ?_
      rw [hmoments, ← heq]
      exact List.mem_append_left _ hm
    | called d => exact hheeds _ hm rfl
    | rebuilding d => exact hheeds _ hm rfl
  rw [hmoments, marks_append, List.filter_append, filter_before_eq_self hkept,
    filter_before_eq_nil fun m hm => hlater m (mem_of_mem_marks hm), List.append_nil]

/-- A step does not end at `c` if nothing is reported then, and the run does
not end then. -/
theorem end_ne_of_not_reported (hs : s.isCancelled = false)
    (hcalm : ∀ x ∈ steps, x.Moves Move.Calm)
    (hreport : ∀ e, ⟨c, .notified e⟩ ∉ ((run (step :: steps)).run s).moments)
    (hend : ((run (step :: steps)).run s).state.now ≠ c) : (step.run.run s).state.now ≠ c := by
  intro heq
  obtain ⟨-, more, hmoments, -⟩ := run_goes_on step hs hcalm
  rcases hr : step.run.run s with ⟨e, own, s₁⟩
  by_cases hstalled : e = .stalled
  · subst hstalled
    rw [run_cons_stalled hs hr] at hend
    rw [hr] at heq
    exact hend heq
  · obtain ⟨e, he⟩ := Leg.exists_report ⟨step, s, step.run.run s⟩ (by rw [hr]; exact hstalled)
    rw [heq] at he
    exact hreport e (hmoments ▸ List.mem_append_left _ he)

/-- **A run whose first step is cut off** fails then, and blames that step. -/
theorem run_cons_severed (hs : s.isCancelled = false)
    (hs' : (s.cancelledAt c l).isCancelled = false) (hcalm : ∀ x ∈ step :: steps, x.Moves Move.Calm)
    (hreport : ∀ e, ⟨c, .notified e⟩ ∉ ((run (step :: steps)).run s).moments)
    {kept later : List Moment} {s₁ : State σ}
    (h : step.run.run (s.cancelledAt c l) = ⟨.failed .cancelled, kept, s₁⟩) (hs₁ : s₁.now = c)
    (hend : c ≤ (step.run.run s).state.now) (hown : (step.run.run s).moments = kept ++ later)
    (hlater : ∀ m ∈ later, c ≤ m.time) :
    let r := (run (step :: steps)).run s
    let r' := (run (step :: steps)).run (s.cancelledAt c l)
    r'.ending = .failed .cancelled ∧ r'.state.now = c ∧
      marks r'.moments = (marks r.moments).filter (fun m => m.time < c) ++
        [⟨c, .notified (.failed step.display "step cancelled")⟩] := by
  have hnow : s.now < c := Nat.not_le.1 (of_decide_eq_false hs')
  obtain ⟨-, more, hmoments, hmore⟩ := run_goes_on step hs
    fun x hx => hcalm x (List.mem_cons_of_mem _ hx)
  dsimp only
  rw [run_cons_failed hs' h]
  refine ⟨rfl, hs₁, ?_⟩
  have hkept : (marks (step.run.run s).moments).filter (fun m => m.time < c) = marks kept :=
    marks_of_severed (hcalm step List.mem_cons_self) rfl h hs₁ hown hlater fun e he =>
      hreport e (hmoments ▸ List.mem_append_left _
        (List.mem_append_left _ (List.mem_append_right _ he)))
  -- all that is missing of the leg and of what follows is after `c`
  have hrest : ∀ m ∈ marks more, c ≤ m.time :=
    fun m hm => Nat.le_trans hend (hmore m (mem_of_mem_marks hm))
  rw [hmoments, marks_append, List.filter_append, filter_before_eq_nil hrest, List.append_nil,
    Leg.marks_account_before hnow hend, hkept, Leg.marks_account, ← hs₁]
  rfl

/-- **Cancelling at `c` changes nothing or cuts off one leg**, if `c` is
neither the time of a report nor the end. -/
theorem run_cancelledAt (hl : ∀ L, l = some L → c < L) (hs : s.Until c) (hnow : s.now < c)
    (hblind : ∀ step ∈ steps, step.Moves Move.Blind)
    (hreport : ∀ e, ⟨c, .notified e⟩ ∉ ((run steps).run s).moments)
    (hend : ((run steps).run s).state.now ≠ c) :
    let r := (run steps).run s
    let r' := (run steps).run (s.cancelledAt c l)
    r.state.now < c ∧ r' = r.cancelledAt c l ∨
    c < r.state.now ∧ r'.ending = .failed .cancelled ∧ r'.state.now = c ∧
      ∃ leg ∈ legs steps s, leg.start.now < c ∧ c < leg.span.state.now ∧
        marks r'.moments = (marks r.moments).filter (fun m => m.time < c) ++
          [⟨c, .notified (.failed leg.step.display "step cancelled")⟩] := by
  induction steps generalizing s with
  | nil => exact Or.inl ⟨hnow, rfl⟩
  | cons step steps ih =>
    have hcalm : ∀ x ∈ step :: steps, x.Moves Move.Calm :=
      fun x hx => (hblind x hx).mono fun _ => Move.Blind.calm
    have hyields : step.run.Yields c l := step.yields hl (hblind step List.mem_cons_self)
    have hfollows := hyields.calm s
    have hcut := hyields.cut s hs
    have hnot := isCancelled_of_none hs.cancelAt
    have hnot' : (s.cancelledAt c l).isCancelled = false := decide_eq_false (Nat.not_le.2 hnow)
    have hrest : ∀ x ∈ steps, x.Moves Move.Calm := fun x hx => hcalm x (List.mem_cons_of_mem _ hx)
    have hle := (run_goes_on step hnot hrest).1
    have hne := end_ne_of_not_reported hnot hrest hreport hend
    generalize hr' : step.run.run (s.cancelledAt c l) = q' at hcut
    cases hcut with
    | spared h =>
      have hlt : (step.run.run s).state.now < c := Nat.lt_of_le_of_ne h hne
      rcases hr : step.run.run s with ⟨⟨⟩ | f | -, own, s₁⟩ <;> rw [hr] at hr' hlt hfollows
      · have hr'' : step.run.run (s.cancelledAt c l) = ⟨.value (), own, s₁.cancelledAt c l⟩ := hr'
        have hlegs : legs (step :: steps) s = ⟨step, s, ⟨.value (), own, s₁⟩⟩ :: legs steps s₁ := by
          rw [legs, hr]
        rw [run_cons_value hnot hr] at hreport hend ⊢
        rw [run_cons_value hnot' hr'', hlegs]
        obtain ⟨hbefore, heq⟩ | ⟨hafter, hending, hstate, leg, hleg, hstart, hstop, hmarks⟩ :=
          ih (hfollows.until hs (Nat.le_of_lt hlt)) hlt
            (fun x hx => hblind x (List.mem_cons_of_mem _ hx))
            (fun e he => hreport e (List.mem_append_right _ he)) hend
        · exact Or.inl ⟨hbefore, by rw [heq]; rfl⟩
        · refine Or.inr ⟨hafter, by rw [hending]; rfl, hstate, leg, List.mem_cons_of_mem _ hleg,
            hstart, hstop, ?_⟩
          have hfirst : ∀ m ∈ marks (Leg.account ⟨step, s, ⟨.value (), own, s₁⟩⟩), m.time < c :=
            fun m hm => Nat.lt_of_le_of_lt (Leg.within hfollows m (mem_of_mem_marks hm)) hlt
          rw [marks_append, marks_append, List.filter_append, filter_before_eq_self hfirst, hmarks,
            List.append_assoc]
          rfl
      · refine Or.inl ?_
        rw [run_cons_failed hnot hr, run_cons_failed hnot' hr']
        exact ⟨hlt, rfl⟩
      · refine Or.inl ?_
        rw [run_cons_stalled hnot hr, run_cons_stalled hnot' hr']
        exact ⟨hlt, rfl⟩
    | severed kept later s' h hown hlater hs' =>
      have hlt : c < (step.run.run s).state.now := Nat.lt_of_le_of_ne h (Ne.symm hne)
      obtain ⟨hending, hstate, hmarks⟩ :=
        run_cons_severed hnot hnot' hcalm hreport hr' hs' h hown hlater
      exact Or.inr ⟨Nat.lt_of_lt_of_le hlt hle, hending, hstate, ⟨step, s, step.run.run s⟩,
        by rw [legs]; exact List.mem_cons_self, hnow, hlt, hmarks⟩

/-- **Cancellation cuts a run at the instant of cancellation.** The run that
nobody cancels is waited for until `L`, which is later than the instant `c`,
and `c` is neither the time of a report nor the end of it. If its clock does
not get to `c`, cancelling at `c` changes nothing. If it does, the cancelled
run fails at `c`; of its events and calls those before `c` are the same, and
there is one more, which says that the step in progress was cancelled. A run
of steps that is cancelled before it starts leaves all as it is, and reports
and calls nothing. -/
theorem run_cancelled (steps : List (Step σ)) (s : State σ) (c L : Nat) (hs : s.cancelAt = none)
    (hlimit : ∀ l, s.limit = some l → c < l) (hc : s.now < c) (hL : c < L)
    (hblind : ∀ step ∈ steps, step.Moves Move.Blind)
    (hreport : ∀ e, ⟨c, .notified e⟩ ∉ ((run steps).run { s with limit := some L }).moments)
    (hend : ((run steps).run { s with limit := some L }).state.now ≠ c) :
    let r := (run steps).run { s with limit := some L }
    let r' := (run steps).run { s with cancelAt := some c }
    (r.state.now < c → r' = r.cancelledAt c s.limit) ∧
    (c < r.state.now →
      r'.ending = .failed .cancelled ∧ r'.state.now = c ∧
      ∃ leg ∈ legs steps { s with limit := some L },
        leg.start.now < c ∧ c < leg.span.state.now ∧
        marks r'.moments = (marks r.moments).filter (fun m => m.time < c) ++
          [⟨c, .notified (.failed leg.step.display "step cancelled")⟩]) ∧
    ∀ s₀ : State σ, s₀.isCancelled → steps ≠ [] →
      ∃ e, (run steps).run s₀ = ⟨.failed .cancelled, [⟨s₀.now, .logged e⟩], s₀⟩ := by
  intro r r'
  have huntil : State.Until { s with limit := some L } c := ⟨hs, ⟨L, rfl, hL⟩, Nat.le_of_lt hc⟩
  have hcut := run_cancelledAt hlimit huntil hc hblind hreport hend
  refine ⟨fun h => ?_, fun h => ?_, fun s₀ hs₀ hne => ?_⟩
  · obtain ⟨-, heq⟩ | ⟨hlt, -⟩ := hcut
    · exact heq
    · exact absurd hlt (Nat.lt_asymm h)
  · obtain ⟨hlt, -⟩ | ⟨-, hcut⟩ := hcut
    · exact absurd hlt (Nat.lt_asymm h)
    · exact hcut
  · cases steps with
    | nil => exact absurd rfl hne
    | cons step steps =>
      refine ⟨⟨.warn, "pipeline cancelled before step", [("step", .text step.display)]⟩, ?_⟩
      have henter : step.enter.run s₀ = ⟨.failed .cancelled, [⟨s₀.now, .logged
          ⟨.warn, "pipeline cancelled before step", [("step", .text step.display)]⟩⟩], s₀⟩ := by
        rw [Step.enter, Process.isCancelled, Process.run_look_bind, if_pos hs₀]
        rfl
      rw [run, Process.run_bind_failed henter]

/-! ## A clock that stands still -/

/-- A move that takes no time. -/
def Move.Still : Move → Prop
  | .log _ => True
  | .wait ms => ms = 0
  | _ => False

namespace Process

variable {s : State σ}

theorem run_perform_of_still {m : Move} (hm : m.Still) :
    ∃ own, (perform m).run s = ⟨.value (), own, s⟩ := by
  cases m with
  | log e => exact ⟨_, rfl⟩
  | wait ms =>
    obtain rfl : ms = 0 := hm
    exact ⟨[], rfl⟩
  | cancel => exact hm.elim
  | awaitCancel => exact hm.elim
  | hang => exact hm.elim

theorem run_performAll_of_still {ms : List Move} (hms : ∀ m ∈ ms, m.Still) :
    ∃ own, (performAll ms).run s = ⟨.value (), own, s⟩ := by
  induction ms with
  | nil => exact ⟨[], rfl⟩
  | cons m ms ih =>
    obtain ⟨own, hfirst⟩ := run_perform_of_still (s := s) (hms m List.mem_cons_self)
    obtain ⟨rest, hrest⟩ := ih fun x hx => hms x (List.mem_cons_of_mem _ hx)
    refine ⟨own ++ rest, ?_⟩
    rw [performAll, run_bind_value hfirst, hrest]

/-- **A call that takes no time** leaves everything but the world. -/
theorem run_call_of_still (hs : s.isCancelled = false) {f : Function σ α}
    (hf : f.Moves Move.Still) (what : Note) :
    ∃ own, (call what f).run s =
      ⟨.value (f s.now s.world).1.answer, own, { s with world := (f s.now s.world).2 }⟩ := by
  obtain ⟨own, hmoves⟩ := run_performAll_of_still (s := { s with world := (f s.now s.world).2 })
    (hf s.now s.world)
  refine ⟨⟨s.now, what⟩ :: (own ++ []), ?_⟩
  rw [run_call hs, run_note_bind, run_carry, run_bind_value hmoves]
  rfl

/-- A rest that is over at once. -/
theorem run_rest_now (hs : s.isCancelled = false)
    (hlimit : ∀ t, s.limit = some t → s.now ≤ t) :
    (rest (some s.now)).run s = ⟨.value (), [], s⟩ := by
  have hcancel : before s.cancelAt (some s.now) = false := by
    cases h : s.cancelAt with
    | none => rfl
    | some t =>
      rw [State.isCancelled, h] at hs
      exact decide_eq_false fun hlt => of_decide_eq_false hs (Nat.le_of_lt hlt)
  have hpatient : before s.limit (some s.now) = false := by
    cases h : s.limit with
    | none => rfl
    | some t => exact decide_eq_false (Nat.not_lt.2 (hlimit t h))
  simp [run, rest, hs, hcancel, hpatient, State.moveTo]

end Process

namespace Condition

/-- **A condition that never rests**: its polls take no time and do not hold,
and nothing lies between them. -/
structure Restless (c : Condition σ) : Prop where
  interval : c.interval = 0
  still : c.function.Moves Move.Still
  answer : ∀ t w, (c.function t w).1.answer = .ok false

variable {c : Condition σ} {s : State σ}

/-- **Its polls go on for ever**: however many are waited for, the clock gets
neither to the deadline nor to the instant at which the run is cancelled. -/
theorem Restless.pollUntil_stalls (h : c.Restless) {deadline : Nat}
    (hs : s.isCancelled = false) (hlimit : ∀ t, s.limit = some t → s.now ≤ t)
    (hearly : s.now < deadline) (polls : Nat) :
    ∃ own w, (c.pollUntil deadline polls).run s = ⟨.stalled, own, { s with world := w }⟩ := by
  induction polls generalizing s with
  | zero => exact ⟨[], s.world, rfl⟩
  | succ polls ih =>
    let s' : State σ := { s with world := (c.function s.now s.world).2 }
    obtain ⟨own, hcall⟩ := Process.run_call_of_still hs h.still (.called c.display)
    rw [h.answer] at hcall
    obtain ⟨later, w, hrest⟩ := ih (s := s') hs hlimit hearly
    have hpause : (Process.rest (some (s'.now + c.interval))).run s' = ⟨.value (), [], s'⟩ := by
      rw [h.interval]
      exact Process.run_rest_now hs hlimit
    have hnotyet : ¬ deadline ≤ s'.now + c.interval := by
      rw [h.interval]
      exact Nat.not_le.2 hearly
    rw [pollUntil, Process.run_bind_value hcall]
    simp only [Process.now, Process.run_look_bind]
    rw [if_neg hnotyet, Process.log, Process.run_note_bind, Process.run_bind_value hpause, hrest]
    exact ⟨_, w, rfl⟩

/-- If it has any time at all, it never ends. -/
theorem Restless.run_stalls (h : c.Restless) (htimeout : 0 < c.timeout.millis)
    (hs : s.isCancelled = false) (hlimit : ∀ t, s.limit = some t → s.now ≤ t) :
    ∃ own w, c.run.run s = ⟨.stalled, own, { s with world := w }⟩ := by
  obtain ⟨own, w, hpolls⟩ := h.pollUntil_stalls hs hlimit
    (Nat.lt_add_of_pos_right htimeout) (c.timeout.millis + 1 + s.patience)
  refine ⟨own, w, ?_⟩
  rw [run, Process.run_look_bind, Process.now, Process.run_look_bind,
    Process.run_bind_stalled hpolls]

end Condition

end Provision.Pipeline

/-! ## A rehearsal -/

namespace Provision.Rehearsal

open Pipeline

/-- A script of one outcome repeats it for ever. -/
theorem Script.outcome_singleton (o : Outcome) (n : Nat) : Script.outcome [o] n = o := by
  cases n <;> rfl

/-- A condition that never holds. -/
def idle : Condition (World Unit) :=
  ⟨"idle", Script.poll [{ Outcome.plain with answer := false }] 0 "idle", .ofMillis 1, true, 0,
    none⟩

/-- A step that polls again and again without a pause. -/
def restless : Step (World Unit) := .condition idle

theorem idle_restless : idle.Restless := by
  have hpoll (t : Nat) (w : World Unit) : (idle.function t w).1 = ⟨[.wait 0], .ok false⟩ := by
    simp only [idle, Script.poll, Script.outcome_singleton]
    rfl
  refine ⟨rfl, fun t w m hm => ?_, fun t w => by rw [hpoll]⟩
  rw [hpoll] at hm
  obtain rfl := List.mem_singleton.1 hm
  rfl

theorem restless_stalls {s : State (World Unit)} (hs : s.isCancelled = false)
    (hlimit : s.limit = none) :
    ((run [restless]).run s).ending = .stalled ∧ ((run [restless]).run s).state.now = s.now := by
  have htimeout : 0 < idle.timeout.millis := by
    rw [idle, Duration.millis_ofMillis]
    exact Nat.one_pos
  have hpatient : ∀ t, s.limit = some t → s.now ≤ t := by
    rw [hlimit]
    exact nofun
  obtain ⟨own, w, hrun⟩ := idle_restless.run_stalls htimeout hs hpatient
  have hstep : restless.run.run s = ⟨.stalled, own, { s with world := w }⟩ := hrun
  rw [run_cons_stalled hs hstep]
  exact ⟨rfl, rfl⟩

/-- **Who is never there is never cut off**: a run without steps succeeds even
if it is cancelled already, and a run whose clock stands still does not get
to the time at which it is cancelled, however long one waits for it. -/
theorem run_uncut :
    ({ uncancelled with cancelAt := some 0 }.isCancelled ∧
      ((run []).run { uncancelled with cancelAt := some 0 }).ending = .value []) ∧
    ∀ patience,
      ((run [restless]).run { uncancelled with patience }).ending = .stalled ∧
      ((run [restless]).run { uncancelled with patience, cancelAt := some 5 }).ending = .stalled ∧
      ((run [restless]).run { uncancelled with patience, cancelAt := some 5 }).state.now = 0 := by
  refine ⟨by decide +kernel, fun patience => ?_⟩
  obtain ⟨hfree, -⟩ := restless_stalls (s := { uncancelled with patience }) rfl rfl
  exact ⟨hfree, restless_stalls rfl rfl⟩

/-- The stages, cancelled while the third waits with fresh credentials. -/
theorem run_cancelled_stages :
    uncancelled.cancelAt = none ∧ (∀ l, uncancelled.limit = some l → 10 < l) ∧
    uncancelled.now < 10 ∧ 10 < 100 ∧ (∀ step ∈ stages, step.Moves Move.Blind) ∧
    (∀ m ∈ ((run stages).run { uncancelled with limit := some 100 }).moments, m.time ≠ 10) ∧
    ((run stages).run { uncancelled with limit := some 100 }).state.now = 12 ∧
    ((run stages).run { uncancelled with cancelAt := some 10 }).ending = .failed .cancelled ∧
    ((run stages).run { uncancelled with cancelAt := some 10 }).state.now = 10 := by
  have hblind : ∀ step ∈ stages, step.Moves Move.Blind :=
    stages_moves (by simp [Move.Blind]) (by simp [Move.Blind])
  have hlimit : ∀ l, uncancelled.limit = some l → 10 < l := nofun
  have htimes : ∀ m ∈ ((run stages).run { uncancelled with limit := some 100 }).moments,
      m.time ≠ 10 := by decide +kernel
  have hend : ((run stages).run { uncancelled with limit := some 100 }).state.now = 12 := by
    decide +kernel
  obtain ⟨-, hcut, -⟩ := run_cancelled stages uncancelled 10 100 rfl hlimit (by decide)
    (by decide) hblind (fun e he => htimes _ he rfl) (by rw [hend]; decide)
  obtain ⟨hending, hnow, -⟩ := hcut (by rw [hend]; decide)
  exact ⟨rfl, hlimit, by decide, by decide, hblind, htimes, hend, hending, hnow⟩

end Provision.Rehearsal
