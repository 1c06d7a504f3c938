import Provision.Proofs.Pipeline.Course
import Mathlib.Algebra.GroupWithZero.Nat
/-!
# Pipelines — the protocol of a run

A run is made of the runs of its steps, each from where the one before
ended, up to the first that does not succeed: its *legs*. What a leg leaves
on record is fixed by the step, by when it began and by what was left of it
(`Leg.account`), and **a run that nobody cancels is its legs and nothing
else** (`run_protocol`): its record is theirs, one behind the other; it ends
as the last of them ended; and the times that it gives are theirs.
-/

namespace Provision.Pipeline

variable {σ : Type}

/-- The event that a moment reports. -/
def Moment.event? (m : Moment) : Option Event :=
  match m.note with
  | .notified e => some e
  | _ => none

/-- An ending with its value changed. -/
def Ending.map {α β : Type} (f : α → β) : Ending α → Ending β
  | .value a => .value (f a)
  | .failed e => .failed e
  | .stalled => .stalled

/-! ## Legs -/

/-- One step of a run: what it started from, and what was left of it. -/
structure Leg (σ : Type) where
  step : Step σ
  start : State σ
  span : Span σ Unit

namespace Leg

/-- The milliseconds that the step took. -/
def elapsed (l : Leg σ) : Nat := l.span.state.now - l.start.now

/-- The time that is kept of the step. -/
def timing (l : Leg σ) : Timing := ⟨l.step.metric, l.elapsed⟩

/-- What a leg that has ended so comes to. -/
def ending (l : Leg σ) : Ending Timing :=
  match l.span.ending with
  | .value () => .value l.timing
  | .failed f => .failed f
  | .stalled => .stalled

/-- What is noted before a step runs. -/
def opening (l : Leg σ) : List Note :=
  [.logged ⟨.info, "running step", [("step", .text l.step.display)]⟩,
    .notified (.started l.step.display)]

/-- What is reported of how a step ended. -/
def report (l : Leg σ) : List Event :=
  match l.span.ending with
  | .value () => [.completed l.step.display (.ofMillis l.elapsed)]
  | .failed f => [.failed l.step.display f.message]
  | .stalled => []

/-- What is logged of how a step ended: if it failed, its failure, and then
what is behind that, outermost first and each link once. -/
def remarks (l : Leg σ) : List Log.Entry :=
  match l.span.ending with
  | .value () =>
    [⟨.info, "step completed",
      [("step", .text l.step.display), ("elapsed_ms", .number l.elapsed)]⟩]
  | .failed f =>
    ⟨.error, "step encountered error",
        [("step", .text l.step.display), ("error", .text f.message)]⟩ ::
      f.sources.map fun link => ⟨.error, "caused by", [("cause", .text link.message)]⟩
  | .stalled => []

/-- **What a leg leaves on record**: the opening, what the step itself put
there, and how it ended. -/
def account (l : Leg σ) : List Moment :=
  l.opening.map (Moment.mk l.start.now) ++ l.span.moments ++
    (l.remarks.map Note.logged ++ l.report.map Note.notified).map (Moment.mk l.span.state.now)

/-- The events of a leg are the report of its beginning, those of the step,
and the report of its end. -/
theorem events_account (l : Leg σ) :
    l.account.filterMap Moment.event? =
      .started l.step.display :: l.span.moments.filterMap Moment.event? ++ l.report := by
  have hremarks : ∀ (t : Nat) (es : List Log.Entry),
      ((es.map Note.logged).map (Moment.mk t)).filterMap Moment.event? = [] := by
    intro t es
    induction es with
    | nil => rfl
    | cons e es ih => exact ih
  have hreport : ∀ (t : Nat) (es : List Event),
      ((es.map Note.notified).map (Moment.mk t)).filterMap Moment.event? = es := by
    intro t es
    induction es with
    | nil => rfl
    | cons e es ih => exact congrArg (e :: ·) ih
  simp only [account, List.map_append, List.filterMap_append, hremarks, hreport,
    List.nil_append, opening]
  rfl

end Leg

/-- **The legs of a run**, up to the first step that does not succeed. -/
def legs : List (Step σ) → State σ → List (Leg σ)
  | [], _ => []
  | step :: steps, s =>
    let r := step.run.run s
    ⟨step, s, r⟩ :: match r.ending with
      | .value () => legs steps r.state
      | _ => []

/-! ## The run of one step -/

theorem logCauses_run (links : List Link) (s : State σ) :
    (logCauses links).run s =
      ⟨.value (), links.map fun link =>
        ⟨s.now, .logged ⟨.error, "caused by", [("cause", .text link.message)]⟩⟩, s⟩ := by
  induction links with
  | nil => rfl
  | cons link links ih =>
    rw [logCauses, Process.log, Process.run_note_bind, ih]
    rfl

namespace Step

/-- **A step that is supervised** leaves the account of its leg. -/
theorem supervise_run (step : Step σ) (s : State σ) :
    step.supervise.run s =
      let l : Leg σ := ⟨step, s, step.run.run s⟩
      ⟨l.ending, l.account, l.span.state⟩ := by
  rw [supervise, Process.log, Process.run_note_bind, Process.run_note_bind, Process.now,
    Process.run_look_bind]
  rcases h : step.run.run s with ⟨a | f | -, moments, s'⟩
  · have hattempt : step.run.attempt.run s = ⟨.value (.ok a), moments, s'⟩ := by
      rw [Process.run, Process.attempt, show step.run s = _ from h]
    rw [Process.run_bind_value hattempt]
    rfl
  · have hattempt : step.run.attempt.run s = ⟨.value (.error f), moments, s'⟩ := by
      rw [Process.run, Process.attempt, show step.run s = _ from h]
    have hcauses := logCauses_run (σ := σ) f.sources s'
    rw [Process.run_bind_value hattempt]
    dsimp only
    rw [abandon, Process.log, Process.run_note_bind, Process.run_bind_value hcauses,
      Process.run_note_bind]
    simp [Leg.ending, Leg.account, Leg.opening, Leg.remarks, Leg.report, Process.run,
      Process.fail]
  · have hattempt : step.run.attempt.run s = ⟨.stalled, moments, s'⟩ := by
      rw [Process.run, Process.attempt, show step.run s = _ from h]
    rw [Process.run_bind_stalled hattempt]
    simp [Leg.ending, Leg.account, Leg.opening, Leg.remarks, Leg.report]

/-- A step is entered unless the run is cancelled. -/
theorem enter_run (step : Step σ) {s : State σ} (hs : s.isCancelled = false) :
    step.enter.run s = step.supervise.run s := by
  rw [enter, Process.isCancelled, Process.run_look_bind, hs, if_neg Bool.false_ne_true]

end Step

/-! ## The run of all -/

variable {step : Step σ} {steps : List (Step σ)} {s : State σ}

theorem isCancelled_of_none (hs : s.cancelAt = none) : s.isCancelled = false := by
  rw [State.isCancelled, hs]
  rfl

/-- The first step succeeds, and the others run from where it ended. -/
theorem run_cons_value (hs : s.isCancelled = false) {own : List Moment} {s' : State σ}
    (h : step.run.run s = ⟨.value (), own, s'⟩) :
    let l : Leg σ := ⟨step, s, ⟨.value (), own, s'⟩⟩
    let r := (run steps).run s'
    (run (step :: steps)).run s =
      ⟨r.ending.map (l.timing :: ·), l.account ++ r.moments, r.state⟩ := by
  intro l r
  have henter : step.enter.run s = ⟨.value l.timing, l.account, s'⟩ := by
    rw [step.enter_run hs, step.supervise_run, h]
    rfl
  rw [run, Process.run_bind_value henter]
  rcases hr : (run steps).run s' with ⟨timings | f | -, moments, s''⟩
  · rw [Process.run_bind_value hr]
    simp [r, hr, Ending.map]
  · rw [Process.run_bind_failed hr]
    simp [r, hr, Ending.map]
  · rw [Process.run_bind_stalled hr]
    simp [r, hr, Ending.map]

/-- The first step fails, and its failure is that of the run. -/
theorem run_cons_failed (hs : s.isCancelled = false) {f : Failure} {own : List Moment}
    {s' : State σ} (h : step.run.run s = ⟨.failed f, own, s'⟩) :
    let l : Leg σ := ⟨step, s, ⟨.failed f, own, s'⟩⟩
    (run (step :: steps)).run s = ⟨.failed f, l.account, s'⟩ := by
  intro l
  have henter : step.enter.run s = ⟨.failed f, l.account, s'⟩ := by
    rw [step.enter_run hs, step.supervise_run, h]
    rfl
  rw [run, Process.run_bind_failed henter]

/-- The first step does not end, and neither does the run. -/
theorem run_cons_stalled (hs : s.isCancelled = false) {own : List Moment} {s' : State σ}
    (h : step.run.run s = ⟨.stalled, own, s'⟩) :
    let l : Leg σ := ⟨step, s, ⟨.stalled, own, s'⟩⟩
    (run (step :: steps)).run s = ⟨.stalled, l.account, s'⟩ := by
  intro l
  have henter : step.enter.run s = ⟨.stalled, l.account, s'⟩ := by
    rw [step.enter_run hs, step.supervise_run, h]
    rfl
  rw [run, Process.run_bind_stalled henter]

/-! ## What is run -/

theorem prefix_legs (steps : List (Step σ)) (s : State σ) :
    (legs steps s).map Leg.step <+: steps := by
  induction steps generalizing s with
  | nil => exact List.prefix_refl _
  | cons step steps ih =>
    rw [legs]
    split
    · exact (List.prefix_cons_inj step).2 (ih _)
    · exact (List.prefix_cons_inj step).2 List.nil_prefix

/-- Each leg is the run of its step. -/
theorem span_of_mem_legs {l : Leg σ} (hl : l ∈ legs steps s) :
    l.span = l.step.run.run l.start := by
  induction steps generalizing s with
  | nil => cases hl
  | cons step steps ih =>
    rw [legs] at hl
    obtain rfl | hl := List.mem_cons.1 hl
    · rfl
    · split at hl
      · exact ih hl
      · cases hl

/-- **Only the last leg may not succeed.** -/
theorem value_of_mem_dropLast {l : Leg σ} (hl : l ∈ (legs steps s).dropLast) :
    l.span.ending = .value () := by
  induction steps generalizing s with
  | nil => cases hl
  | cons step steps ih =>
    rw [legs] at hl
    split at hl
    · next hvalue =>
      cases hrest : legs steps (step.run.run s).state with
      | nil =>
        rw [hrest] at hl
        cases hl
      | cons l' ls =>
        rw [hrest, List.dropLast_cons_cons] at hl
        obtain rfl | hl := List.mem_cons.1 hl
        · exact hvalue
        · exact ih (hrest ▸ hl)
    · cases hl

/-- What succeeds in all its legs has run all its steps. -/
theorem steps_of_legs (h : ∀ l ∈ legs steps s, l.span.ending = .value ()) :
    (legs steps s).map Leg.step = steps := by
  induction steps generalizing s with
  | nil => rfl
  | cons step steps ih =>
    rw [legs] at h ⊢
    have hfirst : (step.run.run s).ending = .value () := h _ List.mem_cons_self
    rw [hfirst] at h ⊢
    rw [List.map_cons, ih fun l hl => h l (List.mem_cons_of_mem _ hl)]

/-! ## What a run is -/

/-- **The record of a run is that of its legs.** -/
theorem moments_run (hs : s.cancelAt = none) (hcalm : ∀ step ∈ steps, step.Moves Move.Calm) :
    ((run steps).run s).moments = (legs steps s).flatMap Leg.account := by
  induction steps generalizing s with
  | nil => rfl
  | cons step steps ih =>
    have hnot := isCancelled_of_none hs
    have hfollows := step.follows (hcalm step List.mem_cons_self) s
    rcases h : step.run.run s with ⟨⟨⟩ | f | -, own, s'⟩
    · rw [h] at hfollows
      rw [run_cons_value hnot h, legs, h, List.flatMap_cons,
        ← ih (hfollows.cancelAt.trans hs) fun x hx => hcalm x (List.mem_cons_of_mem _ hx)]
    · rw [run_cons_failed hnot h, legs, h]
      simp
    · rw [run_cons_stalled hnot h, legs, h]
      simp

/-- **A run whose legs all succeed** gives their times, which add up to its
own. -/
theorem run_of_value (hs : s.cancelAt = none) (hcalm : ∀ step ∈ steps, step.Moves Move.Calm)
    (h : ∀ l ∈ legs steps s, l.span.ending = .value ()) :
    ((run steps).run s).ending = .value ((legs steps s).map Leg.timing) ∧
      s.now + ((legs steps s).map Leg.elapsed).sum = ((run steps).run s).state.now := by
  induction steps generalizing s with
  | nil => exact ⟨rfl, rfl⟩
  | cons step steps ih =>
    have hnot := isCancelled_of_none hs
    have hfollows := step.follows (hcalm step List.mem_cons_self) s
    rcases hr : step.run.run s with ⟨⟨⟩ | f | -, own, s'⟩
    · rw [hr] at hfollows
      have hlegs : legs (step :: steps) s = ⟨step, s, ⟨.value (), own, s'⟩⟩ :: legs steps s' := by
        rw [legs, hr]
      obtain ⟨hending, hsum⟩ := ih (hfollows.cancelAt.trans hs)
        (fun x hx => hcalm x (List.mem_cons_of_mem _ hx))
        (fun l hl => h l (hlegs ▸ List.mem_cons_of_mem _ hl))
      rw [run_cons_value hnot hr, hlegs]
      refine ⟨by rw [hending]; rfl, ?_⟩
      -- the time of the first step and the time from its end on
      have hle : s.now ≤ s'.now := hfollows.le
      rw [List.map_cons, List.sum_cons, ← hsum]
      simp only [Leg.elapsed]
      omega
    all_goals
      have hfirst := h ⟨step, s, step.run.run s⟩ (by rw [legs]; exact List.mem_cons_self)
      rw [hr] at hfirst
      cases hfirst

/-- **A run ends as its last leg**, if that does not succeed. -/
theorem run_of_last (hs : s.cancelAt = none) (hcalm : ∀ step ∈ steps, step.Moves Move.Calm)
    {l : Leg σ} (hl : l ∈ legs steps s) (hne : l.span.ending ≠ .value ()) :
    (legs steps s).getLast? = some l ∧
      ((run steps).run s).ending = l.ending.map fun t => [t] := by
  induction steps generalizing s with
  | nil => cases hl
  | cons step steps ih =>
    have hnot := isCancelled_of_none hs
    have hfollows := step.follows (hcalm step List.mem_cons_self) s
    rcases hr : step.run.run s with ⟨⟨⟩ | f | -, own, s'⟩
    · rw [hr] at hfollows
      have hlegs : legs (step :: steps) s = ⟨step, s, ⟨.value (), own, s'⟩⟩ :: legs steps s' := by
        rw [legs, hr]
      rw [hlegs] at hl ⊢
      obtain rfl | hl := List.mem_cons.1 hl
      · exact absurd rfl hne
      obtain ⟨hlast, hending⟩ := ih (hfollows.cancelAt.trans hs)
        (fun x hx => hcalm x (List.mem_cons_of_mem _ hx)) hl
      refine ⟨by rw [List.getLast?_cons, hlast]; rfl, ?_⟩
      rw [run_cons_value hnot hr, hending]
      -- neither ending has a value to change
      rcases h : l.span.ending with ⟨⟩ | f | -
      · exact absurd h hne
      · rw [Leg.ending, h]
        rfl
      · rw [Leg.ending, h]
        rfl
    · have hlegs : legs (step :: steps) s = [⟨step, s, ⟨.failed f, own, s'⟩⟩] := by
        rw [legs, hr]
      rw [hlegs] at hl ⊢
      obtain rfl := List.mem_singleton.1 hl
      exact ⟨rfl, by rw [run_cons_failed hnot hr]; rfl⟩
    · have hlegs : legs (step :: steps) s = [⟨step, s, ⟨.stalled, own, s'⟩⟩] := by
        rw [legs, hr]
      rw [hlegs] at hl ⊢
      obtain rfl := List.mem_singleton.1 hl
      exact ⟨rfl, by rw [run_cons_stalled hnot hr]; rfl⟩

/-- **The protocol of a run** that nobody cancels. Its legs are the runs of
the first steps in their order, all but the last of which succeeded; if all
did, they are all steps. Its record is that of the legs: for each the report
of its beginning, the events of the step, which bear its display text, and
the report of its end, with what is logged of a failure and of what is
behind it. It fails with the failure of its last leg, or gives the times of
all legs, which add up to the time that it took. -/
theorem run_protocol (steps : List (Step σ)) (s : State σ) (hs : s.cancelAt = none)
    (hcalm : ∀ step ∈ steps, step.Moves Move.Calm) :
    let r := (run steps).run s
    let ls := legs steps s
    (ls.map Leg.step <+: steps ∧ (∀ l ∈ ls, l.span = l.step.run.run l.start) ∧
      ∀ l ∈ ls.dropLast, l.span.ending = .value ()) ∧
    (r.moments = ls.flatMap Leg.account ∧
      r.moments.filterMap Moment.event? = ls.flatMap (fun l =>
        .started l.step.display :: l.span.moments.filterMap Moment.event? ++ l.report) ∧
      ∀ l ∈ ls, ∀ m ∈ l.span.moments, m.note.Own l.step.display) ∧
    (∀ l ∈ ls, ∀ f, l.span.ending = .failed f → ls.getLast? = some l ∧ r.ending = .failed f) ∧
    (∀ l ∈ ls, l.span.ending = .stalled → ls.getLast? = some l ∧ r.ending = .stalled) ∧
    ((∀ l ∈ ls, l.span.ending = .value ()) →
      ls.map Leg.step = steps ∧ r.ending = .value (ls.map Leg.timing) ∧
        (ls.map Leg.elapsed).sum = r.state.now - s.now) := by
  intro r ls
  have hmoments : r.moments = ls.flatMap Leg.account := moments_run hs hcalm
  refine ⟨⟨prefix_legs steps s, fun l => span_of_mem_legs, fun l => value_of_mem_dropLast⟩,
    ⟨hmoments, ?_, fun l hl => ?_⟩, fun l hl f hf => ?_, fun l hl hf => ?_, fun h => ?_⟩
  · rw [hmoments, List.filterMap_flatMap]
    simp only [Leg.events_account]
  · rw [span_of_mem_legs hl]
    exact l.step.own l.start
  · obtain ⟨hlast, hending⟩ := run_of_last hs hcalm hl (by rw [hf]; simp)
    refine ⟨hlast, hending.trans ?_⟩
    rw [Leg.ending, hf]
    rfl
  · obtain ⟨hlast, hending⟩ := run_of_last hs hcalm hl (by rw [hf]; simp)
    refine ⟨hlast, hending.trans ?_⟩
    rw [Leg.ending, hf]
    rfl
  · obtain ⟨hending, hsum⟩ := run_of_value hs hcalm h
    refine ⟨steps_of_legs h, hending, ?_⟩
    change s.now + (ls.map Leg.elapsed).sum = r.state.now at hsum
    omega

end Provision.Pipeline

/-! ## A rehearsal -/

namespace Provision.Rehearsal

open Pipeline

/-- A failure with something behind it. -/
def locked : Failure := .other (.wrap "zone is locked" (.ofText "lease held"))

/-- Five steps of all kinds: one is skipped, one needs fresh credentials, the
fourth fails. -/
def stages : List (Step (World Unit)) :=
  let denied : Failure := .authorization .authorizationFailed "role missing"
  [.action ⟨"prepare", Script.act [{ Outcome.plain with after := 5 }] 0 "prepare"⟩,
    .condition ⟨"ready", Script.poll [{ Outcome.plain with answer := false }] 1 "ready",
      .ofMillis 3, false, 2, none⟩,
    .retrying ⟨"grant",
      Script.act [{ Outcome.plain with failure := some denied }, .plain] 2 "grant",
      Script.authorize [] 3 "grant", 10, 4⟩,
    .action ⟨"finish", Script.act [{ Outcome.plain with failure := some locked }] 4 "finish"⟩,
    .action ⟨"never", Script.act [] 5 "never"⟩]

/-- Nothing has happened yet, and nobody cancels. -/
def uncancelled : State (World Unit) := ⟨0, none, none, 0, .fresh ()⟩

/-- The functions of the stages wait and do nothing else. -/
theorem stages_moves {P : Move → Prop} (hwait : ∀ ms, P (.wait ms)) (hhang : P .hang) :
    ∀ step ∈ stages, step.Moves P := by
  intro step hstep
  simp only [stages, List.mem_cons, List.not_mem_nil, or_false] at hstep
  obtain rfl | rfl | rfl | rfl | rfl := hstep
  · exact Script.moves_act hwait hhang (by simp [Outcome.token, Outcome.plain]) _ _
  · exact Script.moves_poll hwait hhang (by simp [Outcome.token, Outcome.plain]) _ _
  · exact ⟨Script.moves_act hwait hhang (by simp [Outcome.token, Outcome.plain]) _ _,
      Script.moves_authorize _ hwait hhang _ _⟩
  · exact Script.moves_act hwait hhang (by simp [Outcome.token, Outcome.plain]) _ _
  · exact Script.moves_act hwait hhang (by simp) _ _

theorem stages_calm : ∀ step ∈ stages, step.Moves Move.Calm :=
  stages_moves (by simp [Move.Calm]) (by simp [Move.Calm])

/-- Four of the five steps are run; the events of the skipped one and of the
one with fresh credentials stand between the reports of their beginnings and
ends; and the run ends with the failure of the fourth. -/
theorem run_protocol_stages :
    uncancelled.cancelAt = none ∧ (∀ step ∈ stages, step.Moves Move.Calm) ∧
    (legs stages uncancelled).map Leg.step <+: stages ∧
    (legs stages uncancelled).length = 4 ∧
    ((run stages).run uncancelled).moments.filterMap Moment.event? =
      [.started "[Action prepare]", .completed "[Action prepare]" (.ofMillis 5),
        .started "[Condition ready, timeout 3ms]", .skipped "[Condition ready, timeout 3ms]",
        .completed "[Condition ready, timeout 3ms]" (.ofMillis 3),
        .started "[AuthorizationRetryingAction grant]",
        .refreshed "[AuthorizationRetryingAction grant]" .authorizationFailed,
        .completed "[AuthorizationRetryingAction grant]" (.ofMillis 4),
        .started "[Action finish]", .failed "[Action finish]" "zone is locked"] ∧
    ((run stages).run uncancelled).ending = .failed locked := by
  obtain ⟨⟨hsteps, -, -⟩, ⟨-, hevents, -⟩, hfailed, -, -⟩ :=
    run_protocol stages uncancelled rfl stages_calm
  have hlast : (legs stages uncancelled).getLast?.map (fun l => l.span.ending) =
      some (.failed locked) := by decide +kernel
  obtain ⟨l, hl, hending⟩ := Option.map_eq_some_iff.1 hlast
  refine ⟨rfl, stages_calm, hsteps, by decide +kernel, hevents.trans (by decide +kernel), ?_⟩
  exact (hfailed l (List.mem_of_getLast? hl) _ hending).2

end Provision.Rehearsal
