import Provision.Proofs.Pipeline.Occasion
/-!
# Pipelines — the schedule of a retrying action

An attempt that is denied before the deadline is followed by fresh
credentials, and these by the next attempt, an interval later. The attempts
are therefore a `Schedule`, and **the last of them says how the action
ends**: by its own answer, or for want of credentials
(`Retrying.run_attempts`). The deadline is looked at when an attempt ends, so
one attempt may begin after it; but credentials are obtained before it only,
and at least an interval apart.
-/

namespace Provision.Pipeline

variable {σ : Type}

/-- How a step ends that ends with a call. -/
def Occasion.ending {α : Type} (o : Occasion σ) (f : Function σ (Except Failure α)) : Ending α :=
  match o.answer f with
  | .ok a => .value a
  | .error e => .failed e

namespace Retrying

section

variable (r : Retrying σ) (deadline : Nat) (a : Occasion σ)

/-- What an attempt was denied for, if it was, before the deadline. -/
def denied? : Option (Denial × Failure) :=
  match a.answer r.function with
  | .ok () => none
  | .error f =>
    if (a.leave r.function).time < deadline then f.denial?.map fun kind => (kind, f) else none

/-- **The attempt after an attempt** that was denied in time: an interval
after there are fresh credentials. -/
def next? : Option (Occasion σ) :=
  match r.denied? deadline a, (a.leave r.function).answer r.authorizer with
  | some _, .ok () => some (((a.leave r.function).leave r.authorizer).later r.interval)
  | _, _ => none

/-- What is logged before fresh credentials are obtained. -/
def remark (denial : Denial × Failure) : Log.Entry :=
  ⟨.warn, "authorization error, refreshing authorizer",
    [("step", .text r.display), ("kind", .text denial.1.message),
      ("error", .text denial.2.message)]⟩

/-- What obtaining fresh credentials leaves on record. -/
def renewal (denial : Denial × Failure) : List Moment :=
  ⟨a.time, .logged (r.remark denial)⟩ :: a.account r.authorizer (.rebuilding r.display) ++
    match a.answer r.authorizer with
    | .ok () => [⟨(a.leave r.authorizer).time, .notified (.refreshed r.display denial.1)⟩]
    | .error _ => []

/-- What an attempt leaves on record, with the fresh credentials that are
obtained for the next one. -/
def account : List Moment :=
  a.account r.function (.called r.display) ++
    match r.denied? deadline a with
    | some denial => r.renewal (a.leave r.function) denial
    | none => []

end

/-- **How the action ends with its last attempt**: by what that comes to, or
by not obtaining fresh credentials. -/
inductive Ends (r : Retrying σ) (deadline : Nat) (a : Occasion σ) : Ending Unit → Occasion σ → Prop
  | answered (h : r.denied? deadline a = none) :
      Ends r deadline a (a.ending r.function) (a.leave r.function)
  | unrenewed {denial : Denial × Failure} {cause : Cause} (h : r.denied? deadline a = some denial)
      (hcause : (a.leave r.function).answer r.authorizer = .error cause) :
      Ends r deadline a (.failed (.refresh cause)) ((a.leave r.function).leave r.authorizer)

variable {r : Retrying σ} {deadline : Nat} {s : State σ}

theorem of_denied? {a : Occasion σ} {denial : Denial × Failure}
    (h : r.denied? deadline a = some denial) :
    a.answer r.function = .error denial.2 ∧ denial.2.denial? = some denial.1 ∧
      (a.leave r.function).time < deadline := by
  rw [denied?] at h
  split at h
  · cases h
  · next f hf =>
    split at h
    · next hlt =>
      obtain ⟨kind, hkind, rfl⟩ := Option.map_eq_some_iff.1 h
      exact ⟨hf, hkind, hlt⟩
    · cases h

theorem of_next? {a b : Occasion σ} (h : r.next? deadline a = some b) :
    (∃ denial, r.denied? deadline a = some denial) ∧
      (a.leave r.function).answer r.authorizer = .ok () ∧
      b = ((a.leave r.function).leave r.authorizer).later r.interval := by
  rw [next?] at h
  split at h
  · next denial hdenied hok => exact ⟨⟨denial, hdenied⟩, hok, (Option.some.inj h).symm⟩
  · cases h

theorem time_add_le_of_next? {a b : Occasion σ} (h : r.next? deadline a = some b) :
    a.time + r.interval ≤ b.time := by
  obtain ⟨-, -, rfl⟩ := of_next? h
  exact Nat.add_le_add_right
    (Nat.le_trans (a.time_le_leave r.function) (Occasion.time_le_leave _ _)) _

/-- An attempt is the last if it is not denied, or there are no fresh
credentials. -/
theorem ends_of_next? {a : Occasion σ} (h : r.next? deadline a = none) :
    ∃ e o, r.Ends deadline a e o := by
  cases hdenied : r.denied? deadline a with
  | none => exact ⟨_, _, .answered hdenied⟩
  | some denial =>
    cases hanswer : (a.leave r.function).answer r.authorizer with
    | error cause => exact ⟨_, _, .unrenewed hdenied hanswer⟩
    | ok _ =>
      rw [next?, hdenied, hanswer] at h
      cases h

/-! ## The loop -/

/-- Obtaining fresh credentials takes the call of the authorizer. -/
theorem refresh_run (hs : s.Free) (ha : r.authorizer.Moves Move.Passes) (a : Occasion σ)
    (denial : Denial × Failure) :
    (r.refresh denial.1 denial.2).run (s.upon a) =
      ⟨match a.answer r.authorizer with
        | .ok () => .value ()
        | .error cause => .failed (.refresh cause),
        r.renewal a denial, s.upon (a.leave r.authorizer)⟩ := by
  have hcall := Process.run_call_upon hs ha (.rebuilding r.display) a
  rw [refresh, Process.log, Process.run_note_bind, Process.run_bind_value hcall, renewal]
  rcases a.answer r.authorizer with cause | ⟨⟩
  · rfl
  · rfl

/-- What is not denied in time is no denial, or too late. -/
theorem late_of_denied? {a : Occasion σ} {f : Failure} {kind : Denial}
    (h : r.denied? deadline a = none) (hf : a.answer r.function = .error f)
    (hkind : f.denial? = some kind) : deadline ≤ (a.leave r.function).time := by
  rw [denied?, hf] at h
  by_contra hlt
  simp only [if_pos (Nat.not_le.1 hlt), hkind, Option.map_some, reduceCtorEq] at h

/-- **The last attempt** ends the loop. -/
theorem attemptUntil_run_of_ends (hs : s.Free) (hf : r.function.Moves Move.Passes)
    (ha : r.authorizer.Moves Move.Passes) {a o : Occasion σ} {e : Ending Unit}
    (h : r.Ends deadline a e o) (attempts : Nat) :
    (r.attemptUntil deadline (attempts + 1)).run (s.upon a) =
      ⟨e, r.account deadline a, s.upon o⟩ := by
  have hcall := Process.run_call_upon hs hf (.called r.display) a
  rw [attemptUntil, Process.run_bind_value hcall, account]
  cases h with
  | answered h =>
    rw [h, Occasion.ending]
    rcases hanswer : a.answer r.function with f | ⟨⟩
    · cases hkind : f.denial? with
      | none =>
        simp only [hkind]
        rfl
      | some kind =>
        have hlate : deadline ≤ (s.upon (a.leave r.function)).now := late_of_denied? h hanswer hkind
        simp only [hkind, Process.now, Process.run_look_bind, if_pos hlate]
        rfl
    · rfl
  | @unrenewed denial cause h hcause =>
    obtain ⟨hanswer, hkind, hlt⟩ := of_denied? h
    have hearly : ¬deadline ≤ (s.upon (a.leave r.function)).now := Nat.not_le.2 hlt
    have hrefresh := refresh_run hs ha (a.leave r.function) denial
    rw [hcause] at hrefresh
    simp only [h, hanswer, hkind, Process.now, Process.run_look_bind, if_neg hearly]
    rw [Process.run_bind_failed hrefresh]

/-- **Any other attempt** is followed by the next. -/
theorem attemptUntil_run_of_next (hs : s.Free) (hf : r.function.Moves Move.Passes)
    (ha : r.authorizer.Moves Move.Passes) {a b : Occasion σ} (h : r.next? deadline a = some b)
    (attempts : Nat) :
    let rest := (r.attemptUntil deadline attempts).run (s.upon b)
    (r.attemptUntil deadline (attempts + 1)).run (s.upon a) =
      { rest with moments := r.account deadline a ++ rest.moments } := by
  intro rest
  obtain ⟨⟨denial, hdenied⟩, hok, rfl⟩ := of_next? h
  obtain ⟨hanswer, hkind, hlt⟩ := of_denied? hdenied
  have hcall := Process.run_call_upon hs hf (.called r.display) a
  have hearly : ¬deadline ≤ (s.upon (a.leave r.function)).now := Nat.not_le.2 hlt
  have hrefresh := refresh_run hs ha (a.leave r.function) denial
  have hrest := Process.run_rest_later hs ((a.leave r.function).leave r.authorizer) r.interval
  rw [hok] at hrefresh
  rw [attemptUntil, Process.run_bind_value hcall, account, hdenied, hanswer]
  simp only [hkind, Process.now, Process.run_look_bind, if_neg hearly]
  rw [Process.run_bind_value hrefresh, Process.run_look_bind, Process.run_bind_value hrest]
  simp [rest]

/-- **The loop runs to schedule**: it may attempt once more than there are
milliseconds left, and each attempt that has a next one uses one of them up. -/
theorem attemptUntil_run (hs : s.Free) (hf : r.function.Moves Move.Passes)
    (ha : r.authorizer.Moves Move.Passes) (hpos : 0 < r.interval) {attempts : Nat}
    {a : Occasion σ} (hattempts : deadline - a.time < attempts) :
    ∃ as z e o, Schedule (r.next? deadline) a as z ∧ r.Ends deadline z e o ∧
      (r.attemptUntil deadline attempts).run (s.upon a) =
        ⟨e, as.flatMap (r.account deadline), s.upon o⟩ := by
  induction attempts generalizing a with
  | zero => exact absurd hattempts (Nat.not_lt_zero _)
  | succ attempts ih =>
    cases h : r.next? deadline a with
    | none =>
      obtain ⟨e, o, hends⟩ := ends_of_next? h
      refine ⟨[a], a, e, o, .last h, hends, ?_⟩
      rw [attemptUntil_run_of_ends hs hf ha hends, List.flatMap_singleton]
    | some b =>
      obtain ⟨⟨denial, hdenied⟩, -, -⟩ := of_next? h
      have hlt := Nat.lt_of_le_of_lt (a.time_le_leave r.function) (of_denied? hdenied).2.2
      have hle := time_add_le_of_next? h
      obtain ⟨as, z, e, o, has, hends, hrun⟩ := ih (a := b) (by omega)
      refine ⟨a :: as, z, e, o, .more h has, hends,
        (attemptUntil_run_of_next hs hf ha h attempts).trans ?_⟩
      rw [hrun, List.flatMap_cons]

/-! ## The record of the attempts -/

/-- **The calls of an attempt**: its own, and that of the authorizer if it is
denied in time. -/
theorem filter_account {q : Moment → Bool} (hlog : ∀ t e, q ⟨t, .logged e⟩ = false)
    (hevent : ∀ t e, q ⟨t, .notified e⟩ = false) (a : Occasion σ) :
    (r.account deadline a).filter q = [⟨a.time, .called r.display⟩].filter q ++
      ((r.denied? deadline a).map fun _ =>
        (⟨(a.leave r.function).time, .rebuilding r.display⟩ : Moment)).toList.filter q := by
  rw [account, List.filter_append, a.filter_account _ hlog]
  cases r.denied? deadline a with
  | none => rfl
  | some denial =>
    have hremark : ¬q ⟨(a.leave r.function).time, .logged (r.remark denial)⟩ = true := by
      rw [hlog]
      exact Bool.false_ne_true
    dsimp only
    rw [renewal, List.filter_append, List.filter_cons_of_neg hremark,
      Occasion.filter_account _ _ hlog]
    split <;> simp [hevent]

theorem attempts_account (a : Occasion σ) :
    (r.account deadline a).filter (·.note = .called r.display) = [⟨a.time, .called r.display⟩] := by
  rw [filter_account (by simp) (by simp)]
  cases r.denied? deadline a <;> simp

theorem rebuilds_account (a : Occasion σ) :
    (r.account deadline a).filter (·.note = .rebuilding r.display) =
      ((r.denied? deadline a).map fun _ =>
        ⟨(a.leave r.function).time, .rebuilding r.display⟩).toList := by
  rw [filter_account (by simp) (by simp)]
  cases r.denied? deadline a <;> simp

theorem events_account (a : Occasion σ) :
    (r.account deadline a).filterMap Moment.event? =
      ((r.next? deadline a).bind fun _ =>
        (r.denied? deadline a).map fun denial => .refreshed r.display denial.1).toList := by
  rw [account, List.filterMap_append, a.events_account r.function rfl, List.nil_append, next?]
  cases r.denied? deadline a with
  | none => rfl
  | some denial =>
    dsimp only
    rw [renewal, List.filterMap_append, List.filterMap_cons_none rfl,
      Occasion.events_account _ _ rfl]
    rcases (a.leave r.function).answer r.authorizer with cause | ⟨⟩ <;> rfl

/-- **Fresh credentials are reported** for each attempt but the last. -/
theorem events_attempts {a z : Occasion σ} {as : List (Occasion σ)}
    (h : Schedule (r.next? deadline) a as z) :
    (as.flatMap (r.account deadline)).filterMap Moment.event? =
      as.dropLast.filterMap fun a =>
        (r.denied? deadline a).map fun denial => .refreshed r.display denial.1 := by
  obtain ⟨has, hnext⟩ := h.eq_dropLast_concat
  rw [List.filterMap_flatMap]
  simp only [events_account]
  rw [← List.filterMap_eq_flatMap_toList]
  conv_lhs => rw [has, List.filterMap_append, List.filterMap_cons_none (by rw [h.next_last]; rfl),
    List.filterMap_nil, List.append_nil]
  refine List.filterMap_congr fun x hx => ?_
  obtain ⟨_, hx⟩ := hnext x hx
  rw [hx, Option.bind_some]

/-- **Fresh credentials are rarely obtained**: only before the deadline, and
an interval apart. -/
theorem countP_denied_le (hpos : 0 < r.interval) {a z : Occasion σ} {as : List (Occasion σ)}
    (h : Schedule (r.next? deadline) a as z) :
    as.countP (fun x => (r.denied? deadline x).isSome) ≤ (deadline - a.time) ⌈/⌉ r.interval := by
  refine Nat.le_trans (List.countP_mono_left fun x _ hx => ?_)
    (h.countP_early_le hpos fun _ _ => time_add_le_of_next?)
  obtain ⟨denial, hdenied⟩ := Option.isSome_iff_exists.1 hx
  exact decide_eq_true (Nat.lt_of_le_of_lt (x.time_le_leave _) (of_denied? hdenied).2.2)

/-- Every attempt but the last was denied. -/
theorem countP_denied {a z : Occasion σ} {as : List (Occasion σ)}
    (h : Schedule (r.next? deadline) a as z) :
    as.countP (fun x => (r.denied? deadline x).isSome) + 1 =
      as.length + [z].countP fun x => (r.denied? deadline x).isSome := by
  obtain ⟨has, hnext⟩ := h.eq_dropLast_concat
  have hall : as.dropLast.countP (fun x => (r.denied? deadline x).isSome) = as.dropLast.length := by
    refine List.countP_eq_length.2 fun x hx => ?_
    obtain ⟨_, hx⟩ := hnext x hx
    exact Option.isSome_iff_exists.2 (of_next? hx).1
  conv_lhs => rw [has, List.countP_append, hall]
  conv_rhs => rw [has, List.length_append]
  simp only [List.length_singleton]
  omega

/-! ## The action -/

/-- **The schedule of a retrying action** that nobody cancels, with functions
that log, take their time and answer. The first attempt is made at once. Fresh
credentials are obtained at the end of each attempt that is denied before the
deadline, and never else; if they are, that is reported, and the next attempt
is made an interval later. So there are at most as many rebuilds as intervals
begin before the deadline. The action ends as its last attempt does if that
is not denied in time, after one attempt more than rebuilds, and else with the
failure of the last rebuild, of which nothing is reported. -/
theorem run_attempts (r : Retrying σ) (s : State σ) (hs : s.Free) (hpos : 0 < r.interval)
    (hf : r.function.Moves Move.Passes) (ha : r.authorizer.Moves Move.Passes) :
    let deadline := s.now + r.timeout
    let out := r.run.run s
    let attempts := out.moments.filter (·.note = .called r.display)
    let rebuilds := out.moments.filter (·.note = .rebuilding r.display)
    ∃ as last, Schedule (r.next? deadline) s.occasion as last ∧
      (∀ a ∈ as.dropLast, (∃ denial, r.denied? deadline a = some denial) ∧
        (a.leave r.function).answer r.authorizer = .ok ()) ∧
      out.moments = as.flatMap (r.account deadline) ∧
      attempts = as.map (fun a => ⟨a.time, .called r.display⟩) ∧
      rebuilds = as.filterMap (fun a => (r.denied? deadline a).map fun _ =>
        ⟨(a.leave r.function).time, .rebuilding r.display⟩) ∧
      out.moments.filterMap Moment.event? = as.dropLast.filterMap (fun a =>
        (r.denied? deadline a).map fun denial => .refreshed r.display denial.1) ∧
      rebuilds.length ≤ r.timeout ⌈/⌉ r.interval ∧
      match r.denied? deadline last with
      | none =>
        out.ending = last.ending r.function ∧ out.state = s.upon (last.leave r.function) ∧
          attempts.length = rebuilds.length + 1
      | some _ =>
        ∃ cause, (last.leave r.function).answer r.authorizer = .error cause ∧
          out.ending = .failed (.refresh cause) ∧
          out.state = s.upon ((last.leave r.function).leave r.authorizer) ∧
          attempts.length = rebuilds.length := by
  intro deadline out attempts rebuilds
  have hfuel : deadline - s.occasion.time < r.timeout + 1 + s.patience := by
    change s.now + r.timeout - s.now < _
    omega
  obtain ⟨as, z, e, o, has, hends, hrun⟩ := attemptUntil_run hs hf ha hpos hfuel
  have hout : out = ⟨e, as.flatMap (r.account deadline), s.upon o⟩ := hrun
  have hattempts : attempts = as.map fun a => ⟨a.time, .called r.display⟩ := by
    simp only [attempts, hout, List.filter_flatMap, attempts_account, List.map_eq_flatMap]
  have hrebuilds : rebuilds = as.filterMap fun a => (r.denied? deadline a).map fun _ =>
      ⟨(a.leave r.function).time, .rebuilding r.display⟩ := by
    simp only [rebuilds, hout, List.filter_flatMap, rebuilds_account,
      List.filterMap_eq_flatMap_toList]
  have hcount : rebuilds.length = as.countP fun a => (r.denied? deadline a).isSome := by
    rw [hrebuilds, List.length_filterMap_eq_countP]
    simp only [Option.isSome_map]
  have hsum : rebuilds.length + 1 =
      attempts.length + [z].countP fun a => (r.denied? deadline a).isSome := by
    rw [hcount, hattempts, List.length_map, countP_denied has]
  refine ⟨as, z, has, fun a ha => ?_, by rw [hout], hattempts, hrebuilds, ?_, ?_, ?_⟩
  · obtain ⟨_, hnext⟩ := has.eq_dropLast_concat.2 a ha
    exact ⟨(of_next? hnext).1, (of_next? hnext).2.1⟩
  · rw [hout, events_attempts has]
  · have hle := countP_denied_le hpos has
    rwa [← hcount, show deadline - s.occasion.time = r.timeout from
      Nat.add_sub_cancel_left s.now _] at hle
  · cases hends with
    | answered h =>
      rw [h]
      simp only [List.countP_singleton, h] at hsum
      exact ⟨by rw [hout], by rw [hout], hsum.symm⟩
    | @unrenewed denial cause h hcause =>
      rw [h]
      simp only [List.countP_singleton, h] at hsum
      exact ⟨cause, hcause, by rw [hout], by rw [hout], (Nat.succ.inj hsum).symm⟩

end Retrying

end Provision.Pipeline

/-! ## A rehearsal -/

namespace Provision.Rehearsal

open Pipeline

/-- An action that is denied again and again. -/
def refused : Retrying (World Unit) :=
  let denied : Failure := .authorization .authorizationFailed "role missing"
  ⟨"grant", Script.act [{ Outcome.plain with after := 3, failure := some denied }] 0 "grant",
    Script.authorize [{ Outcome.plain with after := 1 }] 1 "grant", 10, 4⟩

/-- Its second attempt begins in time but does not end in time, and so is the
last. -/
theorem run_attempts_refused :
    uncancelled.Free ∧ 0 < refused.interval ∧ refused.function.Moves Move.Passes ∧
    refused.authorizer.Moves Move.Passes ∧
    (∃ as last, Schedule (refused.next? 10) uncancelled.occasion as last ∧
      as.map Occasion.time = [0, 8]) ∧
    (refused.run.run uncancelled).ending =
      .failed (.authorization .authorizationFailed "role missing") ∧
    (refused.run.run uncancelled).state.now = 11 ∧
    (refused.run.run uncancelled).moments.filterMap Moment.event? =
      [.refreshed "[AuthorizationRetryingAction grant]" .authorizationFailed] := by
  have hinterval : 0 < refused.interval := by decide
  have hfunction : refused.function.Moves Move.Passes :=
    Script.passes_act (by simp [Outcome.Passes, Outcome.plain]) _ _
  have hauthorizer : refused.authorizer.Moves Move.Passes :=
    Script.passes_authorize (by simp [Outcome.Passes, Outcome.plain]) _ _
  obtain ⟨as, last, has, -, -, hattempts, -⟩ :=
    Retrying.run_attempts refused uncancelled uncancelled_free hinterval hfunction hauthorizer
  refine ⟨uncancelled_free, hinterval, hfunction, hauthorizer, ⟨as, last, has, ?_⟩,
    by decide +kernel, by decide +kernel, by decide +kernel⟩
  have htimes := congrArg (List.map Moment.time) hattempts
  rw [List.map_map] at htimes
  exact htimes.symm.trans (by decide +kernel)

end Provision.Rehearsal
