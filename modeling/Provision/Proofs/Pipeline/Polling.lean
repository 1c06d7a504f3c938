import Provision.Proofs.Pipeline.Occasion
/-!
# Pipelines — the schedule of a condition

A condition polls at once, and again an interval after each poll that did
not hold, as long as that is before its deadline. The polls are therefore a
`Schedule`, and **the last of them says how the condition ends**: by its own
answer, however late that comes, or, if it did not hold either, by the
deadline (`Condition.run_polls`). Since each poll starts at least an interval
after the one before, there are not many of them.
-/

namespace Provision.Pipeline

variable {σ : Type}

namespace Condition

section

variable (c : Condition σ) (deadline : Nat) (p : Occasion σ)

/-- **The poll after a poll** that did not hold: an interval after its end,
if that is before the deadline. -/
def next? : Option (Occasion σ) :=
  match p.answer c.function with
  | .ok false =>
    let q := (p.leave c.function).later c.interval
    if q.time < deadline then some q else none
  | _ => none

/-- What is logged between two polls. -/
def remark : Log.Entry := ⟨.debug, "condition not met yet", [("step", .text c.display)]⟩

/-- What a poll leaves on record, with what is logged before the next one,
if there is one. -/
def account : List Moment :=
  p.account c.function (.called c.display) ++
    if (c.next? deadline p).isSome then [⟨(p.leave c.function).time, .logged c.remark⟩] else []

/-- What the polls come to with this last one. -/
def held : Ending Bool :=
  match p.answer c.function with
  | .ok b => .value b
  | .error f => .failed (classify f)

/-- The occasion on which the polls are over: the end of the last one, or
the deadline, if it did not hold. -/
def stop : Occasion σ :=
  match p.answer c.function with
  | .ok false => (p.leave c.function).notBefore deadline
  | _ => p.leave c.function

/-- What is logged of a condition that is skipped. -/
def warning : Log.Entry :=
  ⟨.warn, "step failed but has configured 'fail=false', continuing",
    [("step", .text c.display), ("error", .text c.failure.message)]⟩

end

variable {c : Condition σ} {deadline : Nat} {s : State σ}

/-- Another poll starts an interval later, and before the deadline. -/
theorem of_next? {p q : Occasion σ} (h : c.next? deadline p = some q) :
    p.answer c.function = .ok false ∧ q = (p.leave c.function).later c.interval ∧
      q.time < deadline := by
  rw [next?] at h
  split at h
  · next hp =>
    dsimp only at h
    split at h
    · next hlt =>
      obtain rfl := Option.some.inj h
      exact ⟨hp, rfl, hlt⟩
    · cases h
  · cases h

theorem time_add_le_of_next? {p q : Occasion σ} (h : c.next? deadline p = some q) :
    p.time + c.interval ≤ q.time := by
  obtain ⟨-, rfl, -⟩ := of_next? h
  exact Nat.add_le_add_right (p.time_le_leave c.function) _

/-! ## The loop -/

/-- **The last poll** ends the loop, which waits for the deadline if that poll
did not hold. -/
theorem pollUntil_run_of_last (hs : s.Free) (hf : c.function.Moves Move.Passes) {p : Occasion σ}
    (h : c.next? deadline p = none) (polls : Nat) :
    (c.pollUntil deadline (polls + 1)).run (s.upon p) =
      ⟨c.held p, c.account deadline p, s.upon (c.stop deadline p)⟩ := by
  have hcall := Process.run_call_upon hs hf (.called c.display) p
  rw [pollUntil, Process.run_bind_value hcall, account, h]
  rcases hp : p.answer c.function with f | _ | _
  · simp [held, stop, hp, Process.fail, Process.run]
  · have hlate : deadline ≤ (s.upon (p.leave c.function)).now + c.interval := by
      simp only [next?, hp, ite_eq_right_iff, reduceCtorEq, imp_false, Nat.not_lt] at h
      exact h
    have hrest := Process.run_rest_upon hs (p.leave c.function) deadline
    simp only [Process.now, Process.run_look_bind]
    rw [if_pos hlate, Process.run_bind_value hrest]
    simp [held, stop, hp]
  · simp [held, stop, hp]

/-- **Any other poll** is followed by the next. -/
theorem pollUntil_run_of_next (hs : s.Free) (hf : c.function.Moves Move.Passes) {p q : Occasion σ}
    (h : c.next? deadline p = some q) (polls : Nat) :
    let r := (c.pollUntil deadline polls).run (s.upon q)
    (c.pollUntil deadline (polls + 1)).run (s.upon p) =
      { r with moments := c.account deadline p ++ r.moments } := by
  intro r
  have hcall := Process.run_call_upon hs hf (.called c.display) p
  obtain ⟨hp, rfl, hlt⟩ := of_next? h
  have hearly : ¬ deadline ≤ (s.upon (p.leave c.function)).now + c.interval := Nat.not_le.2 hlt
  have hrest := Process.run_rest_later hs (p.leave c.function) c.interval
  rw [pollUntil, Process.run_bind_value hcall, account, h, hp]
  simp only [Process.now, Process.run_look_bind]
  rw [if_neg hearly, Process.log, Process.run_note_bind, Process.run_bind_value hrest]
  simp [r, remark]
  rfl

/-- **The loop runs to schedule**: it may poll once more than there are
milliseconds left, and each poll but the first uses one of them up. -/
theorem pollUntil_run (hs : s.Free) (hf : c.function.Moves Move.Passes) (hpos : 0 < c.interval)
    {polls : Nat} {p : Occasion σ} (hpolls : deadline - p.time < polls) :
    ∃ ps z, Schedule (c.next? deadline) p ps z ∧
      (c.pollUntil deadline polls).run (s.upon p) =
        ⟨c.held z, ps.flatMap (c.account deadline), s.upon (c.stop deadline z)⟩ := by
  induction polls generalizing p with
  | zero => exact absurd hpolls (Nat.not_lt_zero _)
  | succ polls ih =>
    cases h : c.next? deadline p with
    | none =>
      refine ⟨[p], p, .last h, (pollUntil_run_of_last hs hf h polls).trans ?_⟩
      simp
    | some q =>
      obtain ⟨-, -, hlt⟩ := of_next? h
      have hle := time_add_le_of_next? h
      obtain ⟨ps, z, hps, hrun⟩ := ih (p := q) (by omega)
      refine ⟨p :: ps, z, .more h hps, (pollUntil_run_of_next hs hf h polls).trans ?_⟩
      rw [hrun, List.flatMap_cons]

/-! ## The record of the polls -/

/-- **The calls on record are the polls.** -/
theorem calls_polls (ps : List (Occasion σ)) :
    (ps.flatMap (c.account deadline)).filter (·.note.isCall) =
      ps.map fun p => ⟨p.time, .called c.display⟩ := by
  have haccount (p : Occasion σ) :
      (c.account deadline p).filter (·.note.isCall) = [⟨p.time, .called c.display⟩] := by
    rw [account, List.filter_append, p.filter_account c.function fun _ _ => rfl]
    split <;> rfl
  simp only [List.filter_flatMap, haccount, List.map_eq_flatMap]

/-- Polls report nothing. -/
theorem events_polls (ps : List (Occasion σ)) :
    (ps.flatMap (c.account deadline)).filterMap Moment.event? = [] := by
  have haccount (p : Occasion σ) : (c.account deadline p).filterMap Moment.event? = [] := by
    rw [account, List.filterMap_append, p.events_account c.function rfl]
    split <;> rfl
  simp [List.filterMap_flatMap, haccount]

/-- **Polls are few**: besides the first they are made before the deadline,
and an interval apart. -/
theorem length_polls_le (hpos : 0 < c.interval) {p z : Occasion σ} {ps : List (Occasion σ)}
    (h : Schedule (c.next? deadline) p ps z) :
    ps.length ≤ max 1 ((deadline - p.time) ⌈/⌉ c.interval) := by
  have hearly : ps.countP (fun q => q.time < deadline) ≤ _ :=
    h.countP_early_le hpos fun _ _ => time_add_le_of_next?
  obtain ⟨hps, htail⟩ := h.eq_cons_tail
  have hall : ps.tail.countP (fun q => q.time < deadline) = ps.tail.length := by
    refine List.countP_eq_length.2 fun q hq => ?_
    obtain ⟨_, hnext⟩ := htail q hq
    exact decide_eq_true (of_next? hnext).2.2
  rw [hps, List.countP_cons, hall] at hearly
  rw [hps, List.length_cons]
  by_cases hp : p.time < deadline
  · rw [if_pos (decide_eq_true hp)] at hearly
    exact Nat.le_trans hearly (Nat.le_max_right _ _)
  · -- nothing is left, not even for one more
    rw [Nat.sub_eq_zero_of_le (Nat.not_lt.1 hp), zero_ceilDiv] at hearly
    omega

/-! ## The condition -/

/-- What is left on record when polling is given up at a time. -/
def closing (c : Condition σ) (t : Nat) : List Moment :=
  if c.fails then [] else [⟨t, .logged c.warning⟩, ⟨t, .notified (.skipped c.display)⟩]

/-- A condition is its polls, and then what they come to. -/
theorem run_eq (s : State σ) :
    c.run.run s = (c.pollUntil (s.now + c.timeout.millis) (c.timeout.millis + 1 + s.patience) >>=
      fun held => if held then pure () else if c.fails then Process.fail c.failure else
        Process.note (.logged c.warning) >>= fun _ =>
          Process.note (.notified (.skipped c.display))).run s := rfl

section

variable {ms : List Moment} {s' : State σ}

theorem run_of_failed {f : Failure}
    (h : (c.pollUntil (s.now + c.timeout.millis) (c.timeout.millis + 1 + s.patience)).run s =
      ⟨.failed f, ms, s'⟩) :
    c.run.run s = ⟨.failed f, ms, s'⟩ :=
  (run_eq s).trans (Process.run_bind_failed h)

theorem run_of_held
    (h : (c.pollUntil (s.now + c.timeout.millis) (c.timeout.millis + 1 + s.patience)).run s =
      ⟨.value true, ms, s'⟩) :
    c.run.run s = ⟨.value (), ms, s'⟩ := by
  rw [run_eq, Process.run_bind_value h, if_pos rfl]
  simp

theorem run_of_not_held
    (h : (c.pollUntil (s.now + c.timeout.millis) (c.timeout.millis + 1 + s.patience)).run s =
      ⟨.value false, ms, s'⟩) :
    c.run.run s =
      ⟨if c.fails then .failed c.failure else .value (), ms ++ c.closing s'.now, s'⟩ := by
  rw [run_eq, Process.run_bind_value h, if_neg Bool.false_ne_true, closing]
  split <;> rfl

end

/-- **The schedule of a condition** that nobody cancels, with polls that log,
take their time and answer. The first poll is made at once, and another an
interval after the end of each that did not hold, if that is before the
deadline, and never else; so there are at most as many as intervals begin
before the deadline, though always one. The last poll says how the condition
ends: it holds, however late, or it fails as that poll failed, which ran into
a deadline of its own if it ran into one; and if it did not hold, the
condition ends with the deadline, or with the poll if that outlasts it, times
out if it may fail, and is else skipped, with one warning and one event. The
record has nothing else but the polls. -/
theorem run_polls (c : Condition σ) (s : State σ) (hs : s.Free) (hpos : 0 < c.interval)
    (hf : c.function.Moves Move.Passes) :
    let deadline := s.now + c.timeout.millis
    let r := c.run.run s
    ∃ polls last, Schedule (c.next? deadline) s.occasion polls last ∧
      (∀ p ∈ polls.dropLast, p.answer c.function = .ok false) ∧
      (∀ p ∈ polls.tail, p.time < deadline) ∧
      polls.length ≤ max 1 (c.timeout.millis ⌈/⌉ c.interval) ∧
      r.moments.filter (·.note.isCall) = polls.map (fun p => ⟨p.time, .called c.display⟩) ∧
      match last.answer c.function with
      | .ok true =>
        r = ⟨.value (), polls.flatMap (c.account deadline), s.upon (last.leave c.function)⟩ ∧
          r.moments.filterMap Moment.event? = []
      | .error f =>
        r = ⟨.failed (if f.isDeadlineExceeded then .internalTimeout f else f),
            polls.flatMap (c.account deadline), s.upon (last.leave c.function)⟩ ∧
          r.moments.filterMap Moment.event? = []
      | .ok false =>
        let finish := max (last.leave c.function).time deadline
        r.state = s.upon ⟨finish, (last.leave c.function).world⟩ ∧
          if c.fails then
            r.ending = .failed (.timedOut c.name c.hint) ∧
              r.moments = polls.flatMap (c.account deadline) ∧
              r.moments.filterMap Moment.event? = []
          else
            r.ending = .value () ∧
              r.moments = polls.flatMap (c.account deadline) ++
                [⟨finish, .logged c.warning⟩, ⟨finish, .notified (.skipped c.display)⟩] ∧
              r.moments.filterMap Moment.event? = [.skipped c.display] := by
  intro deadline r
  have hpolls : deadline - s.occasion.time < c.timeout.millis + 1 + s.patience := by
    change s.now + c.timeout.millis - s.now < _
    omega
  obtain ⟨ps, z, hps, hrun⟩ := pollUntil_run hs hf hpos hpolls
  rw [State.upon_occasion] at hrun
  have hcalls {rest : List Moment} (hr : r.moments = ps.flatMap (c.account deadline) ++ rest)
      (hrest : rest.filter (·.note.isCall) = []) :
      r.moments.filter (·.note.isCall) = ps.map fun p => ⟨p.time, .called c.display⟩ := by
    rw [hr, List.filter_append, hrest, List.append_nil, calls_polls]
  have hevents {rest : List Moment} (hr : r.moments = ps.flatMap (c.account deadline) ++ rest) :
      r.moments.filterMap Moment.event? = rest.filterMap Moment.event? := by
    rw [hr, List.filterMap_append, events_polls, List.nil_append]
  refine ⟨ps, z, hps, fun p hp => ?_, fun p hp => ?_, ?_, ?_⟩
  · obtain ⟨_, hnext⟩ := hps.eq_dropLast_concat.2 p hp
    exact (of_next? hnext).1
  · obtain ⟨_, hnext⟩ := hps.eq_cons_tail.2 p hp
    exact (of_next? hnext).2.2
  · have hlen := length_polls_le hpos hps
    rwa [show deadline - s.occasion.time = c.timeout.millis from
      Nat.add_sub_cancel_left s.now _] at hlen
  -- the last poll decides
  rw [held, stop] at hrun
  rcases hz : z.answer c.function with f | _ | _ <;> rw [hz] at hrun
  · have hr : r = _ := run_of_failed hrun
    have hmoments : r.moments = ps.flatMap (c.account deadline) ++ [] := by
      rw [hr, List.append_nil]
    exact ⟨hcalls hmoments rfl, hr, hevents hmoments⟩
  · have hr : r = _ := run_of_not_held hrun
    have hmoments : r.moments = ps.flatMap (c.account deadline) ++
        c.closing (max (z.leave c.function).time deadline) := by rw [hr]; rfl
    refine ⟨hcalls hmoments (by rw [closing]; split <;> rfl), by rw [hr]; rfl, ?_⟩
    rw [hevents hmoments, hmoments, hr]
    simp only [closing]
    split
    · exact ⟨rfl, List.append_nil _, rfl⟩
    · exact ⟨rfl, rfl, rfl⟩
  · have hr : r = _ := run_of_held hrun
    have hmoments : r.moments = ps.flatMap (c.account deadline) ++ [] := by
      rw [hr, List.append_nil]
    exact ⟨hcalls hmoments rfl, hr, hevents hmoments⟩

end Condition

end Provision.Pipeline

/-! ## A rehearsal -/

namespace Provision.Rehearsal

open Pipeline

/-- A condition that never holds, of which the third poll would start just
with the deadline. -/
def lapse : Condition (World Unit) :=
  ⟨"ready", Script.poll [{ Outcome.plain with after := 1, answer := false }] 0 "ready",
    .ofMillis 10, false, 4, none⟩

/-- It is polled twice, and skipped when time is up. -/
theorem run_polls_lapse :
    uncancelled.Free ∧ 0 < lapse.interval ∧ lapse.function.Moves Move.Passes ∧
    (∃ polls last, Schedule (lapse.next? 10) uncancelled.occasion polls last ∧
      polls.map Occasion.time = [0, 5]) ∧
    (lapse.run.run uncancelled).ending = .value () ∧
    (lapse.run.run uncancelled).state.now = 10 ∧
    (lapse.run.run uncancelled).moments.filterMap Moment.event? =
      [.skipped "[Condition ready, timeout 10ms]"] := by
  have hinterval : 0 < lapse.interval := by decide
  have hmoves : lapse.function.Moves Move.Passes :=
    Script.passes_poll (by simp [Outcome.Passes, Outcome.plain]) _ _
  obtain ⟨polls, last, hpolls, -, -, -, hcalls, -⟩ :=
    Condition.run_polls lapse uncancelled uncancelled_free hinterval hmoves
  refine ⟨uncancelled_free, hinterval, hmoves, ⟨polls, last, hpolls, ?_⟩,
    by decide +kernel, by decide +kernel, by decide +kernel⟩
  have htimes := congrArg (List.map Moment.time) hcalls
  rw [List.map_map] at htimes
  exact htimes.symm.trans (by decide +kernel)

end Provision.Rehearsal
