import Provision.Installer
import Provision.Proofs.Pipeline.Course
import Provision.Proofs.Vault.Storing
/-!
# The installer — persisting a graph

Each run of the step begins with an empty graph: it seeds it and resolves it
before it asks anything of the store. So **what the graph cannot give is
refused while the store is as it was** (`Refuses`), and what is saved was
worked out in that run.

Nothing is left to the runs that follow but the blobs, and a save puts new
blobs in the place of the old ones. **Any number of runs, failed ones among
them, work out the same graph anew each time**, and once one of them has
succeeded the store gives that graph and its payload, whatever the runs
after it came to (`persistStep_repeatable`). What carries this from run to
run is `Vault.Stores`: the two blobs of the scope are the graph and its
payload.
-/

namespace Provision

open Asset Blob Pipeline

/-! ## Actions that only log -/

namespace Pipeline

variable {σ α : Type}

/-- A move that logs something. -/
def Move.Logs (m : Move) : Prop := ∃ e, m = .log e

/-- How a process ends that comes to this. -/
def Ending.ofExcept : Except Failure α → Ending α
  | .ok a => .value a
  | .error f => .failed f

theorem Ending.ofExcept_eq_value {r : Except Failure α} {a : α} :
    ofExcept r = .value a ↔ r = .ok a := by
  cases r <;> simp [ofExcept]

namespace Process

theorem run_ofExcept (r : Except Failure α) (s : State σ) :
    (ofExcept r).run s = ⟨.ofExcept r, [], s⟩ := by
  cases r <;> rfl

/-- Logging takes no time and changes nothing. -/
theorem run_performAll_logs {ms : List Move} (h : ∀ m ∈ ms, m.Logs) (s : State σ) :
    ∃ moments, (performAll ms).run s = ⟨.value (), moments, s⟩ := by
  induction ms with
  | nil => exact ⟨[], rfl⟩
  | cons m ms ih =>
    obtain ⟨e, rfl⟩ := h m List.mem_cons_self
    obtain ⟨moments, hms⟩ := ih fun m hm => h m (List.mem_cons_of_mem _ hm)
    exact ⟨_, by rw [performAll, perform, run_note_bind, hms]⟩

end Process

namespace Action

variable {a : Action σ} {s : State σ}

/-- An action of a run that is cancelled is not begun. -/
theorem run_of_isCancelled (hs : s.isCancelled = true) :
    a.run.run s = ⟨.failed .cancelled, [], s⟩ :=
  Process.run_bind_failed (Process.run_call_of_isCancelled hs _ _)

/-- **An action whose function only logs** ends with its answer, and leaves
the world to it. -/
theorem run_of_logs (ha : a.function.Moves Move.Logs) (hs : s.isCancelled = false) :
    (a.run.run s).ending = .ofExcept (a.function s.now s.world).1.answer ∧
      (a.run.run s).state = { s with world := (a.function s.now s.world).2 } := by
  obtain ⟨moments, hmoves⟩ := Process.run_performAll_logs (ha s.now s.world)
    { s with world := (a.function s.now s.world).2 }
  have hcarry : (Process.carry a.function).run s =
      ⟨.value (a.function s.now s.world).1.answer, moments ++ [],
        { s with world := (a.function s.now s.world).2 }⟩ := by
    rw [Process.run_carry, Process.run_bind_value hmoves]
    rfl
  have hcall : (Process.call (.called a.display) a.function).run s =
      ⟨.value (a.function s.now s.world).1.answer, ⟨s.now, .called a.display⟩ :: (moments ++ []),
        { s with world := (a.function s.now s.world).2 }⟩ := by
    rw [Process.run_call hs, Process.run_note_bind, hcarry]
  rw [run, Process.run_bind_value hcall, Process.run_ofExcept]
  exact ⟨rfl, rfl⟩

end Action

/-- **Runs of one step, one after the other.** Each begins at any time and
with any token, in the world that the one before it left. -/
inductive Step.Repeats (step : Step σ) : σ → List (Span σ Unit) → σ → Prop
  | nil (w : σ) : Repeats step w [] w
  | cons (s : State σ) {spans : List (Span σ Unit)} {w : σ}
      (rest : Repeats step (step.run.run s).state.world spans w) :
      Repeats step s.world (step.run.run s :: spans) w

end Pipeline

/-! ## Sites -/

namespace Installer

/-- **A site that keeps its blobs in memory.** Nothing but a session with the
store changes them, and it is known of the world what has happened. -/
structure Site.InMemory {τ σ : Type} (site : Site τ σ) where
  blobs : σ → Memory
  keep : Memory → σ → σ
  happened : σ → List (Happening τ)
  store_eq : site.store = Memory.store.within blobs keep
  blobs_keep : ∀ m w, blobs (keep m w) = m
  happened_keep : ∀ m w, happened (keep m w) = happened w
  blobs_nonce : ∀ w, blobs (site.nonce w).2 = blobs w
  happened_nonce : ∀ w, happened (site.nonce w).2 = happened w
  blobs_witness : ∀ hs w, blobs (site.witness hs w) = blobs w
  happened_witness : ∀ hs w, happened (site.witness hs w) = happened w ++ hs

variable {τ ν σ : Type} [Kind τ] [DecidableEq τ] {i : Installer τ ν σ} {scope : Vault.Scope}
variable {seed : Seed τ ν} {root : τ} {value : ν} {r : Resolution τ ν}

/-! ## What a run works out -/

/-- **What a run of the step works out before it saves**, from an empty
graph. -/
def plan (i : Installer τ ν σ) (seed : Seed τ ν) (root : τ) (value : ν) :
    Except Asset.Error (Resolution τ ν) :=
  (seed .empty).map fun g => g.resolve i.declarations root value

/-- What happens to assets meanwhile. -/
def happenings (i : Installer τ ν σ) (seed : Seed τ ν) (root : τ) (value : ν) :
    List (Happening τ) :=
  match i.plan seed root value with
  | .error _ => []
  | .ok r => r.happenings

/-- **Why there is nothing to save**: seeding fails, or resolving does, or
the graph lacks the asset of the payload. -/
inductive Refuses (i : Installer τ ν σ) (seed : Seed τ ν) (root : τ) (value : ν) : Cause → Prop
  | unseeded {e : Asset.Error} (h : seed .empty = .error e) : Refuses i seed root value e.toCause
  | unresolved {r : Resolution τ ν} {e : Asset.Error} (h : i.plan seed root value = .ok r)
      (hr : r.verdict = .error e) : Refuses i seed root value e.toCause
  | lacking {r : Resolution τ ν} (h : i.plan seed root value = .ok r) (hr : r.verdict = .ok ())
      (hlacks : r.graph.get? i.vault.bootstrap = none) :
      Refuses i seed root value (Vault.Error.missingBootstrap (Kind.name i.vault.bootstrap)).toCause

/-! ## One call of its function -/

omit [Kind τ] [DecidableEq τ] in
theorem logs_of_logged {m : Move} {hs : List (Happening τ)} (hm : m ∈ hs.filterMap logged) :
    m.Logs := by
  obtain ⟨h, -, hh⟩ := List.mem_filterMap.1 hm
  cases h with
  | logged e => exact ⟨e, (Option.some.inj hh).symm⟩
  | loading => cases hh
  | generating => cases hh

/-- **The function of the step only logs.** -/
theorem persist_moves (i : Installer τ ν σ) (scope : Vault.Scope) (seed : Seed τ ν) (root : τ)
    (value : ν) : (i.persist scope seed root value).Moves Move.Logs := by
  intro t w m hm
  simp only [persist] at hm
  split at hm
  · cases hm
  · split at hm
    · exact logs_of_logged hm
    · obtain hm | hm := List.mem_append.1 hm
      · exact logs_of_logged hm
      · obtain rfl | hm := List.mem_cons.1 hm
        · exact ⟨_, rfl⟩
        · obtain ⟨e, -, rfl⟩ := List.mem_map.1 hm
          exact ⟨e, rfl⟩

/-- Where there is no plan, seeding has failed. -/
theorem unseeded_of_plan {e : Asset.Error} (h : i.plan seed root value = .error e) :
    seed .empty = .error e := by
  rw [plan] at h
  cases hseed : seed .empty with
  | error e' => rw [hseed] at h; cases h; rfl
  | ok g => rw [hseed] at h; cases h

/-- And a plan is the resolution of a seeded graph. -/
theorem seeded_of_plan (h : i.plan seed root value = .ok r) :
    ∃ g, seed .empty = .ok g ∧ g.resolve i.declarations root value = r := by
  rw [plan] at h
  cases hseed : seed .empty with
  | error e => rw [hseed] at h; cases h
  | ok g => rw [hseed] at h; cases h; exact ⟨g, rfl, rfl⟩

/-- Without a plan nothing is done. -/
theorem persist_of_error {e : Asset.Error} (h : i.plan seed root value = .error e) (t : Nat)
    (w : σ) : i.persist scope seed root value t w = (⟨[], .error (.other e.toCause)⟩, w) := by
  rw [persist, unseeded_of_plan h]

variable (scope) in
/-- A graph that is not resolved is not saved. -/
theorem persist_of_unresolved {e : Asset.Error} (h : i.plan seed root value = .ok r)
    (hr : r.verdict = .error e) (t : Nat) (w : σ) :
    (i.persist scope seed root value t w).1.answer = .error (.other e.toCause) ∧
      (i.persist scope seed root value t w).2 = i.site.witness r.happenings w := by
  obtain ⟨g, hseed, rfl⟩ := seeded_of_plan h
  simp only [persist, hseed, hr]
  exact ⟨trivial, trivial⟩

variable (scope) in
/-- **A graph that is resolved is saved.** -/
theorem persist_of_resolved (h : i.plan seed root value = .ok r) (hr : r.verdict = .ok ())
    (t : Nat) (w : σ) :
    let drawn := i.site.nonce (i.site.witness r.happenings w)
    let saved := (i.vault.save drawn.1 scope r.graph).run i.site.store drawn.2
    (i.persist scope seed root value t w).1.answer =
        saved.result.mapError (fun e => .other e.toCause) ∧
      (i.persist scope seed root value t w).2 = saved.state := by
  obtain ⟨g, hseed, rfl⟩ := seeded_of_plan h
  simp only [persist, hseed, hr]
  exact ⟨trivial, trivial⟩

variable (l : i.site.InMemory)

variable (scope) in
/-- A save at a site is a save in its memory. -/
theorem save_inMemory (nonce : Cipher.Nonce) (g : Asset.Graph τ ν) (w : σ) :
    let saved := (i.vault.save nonce scope g).run i.site.store w
    let alone := (i.vault.save nonce scope g).run Memory.store (l.blobs w)
    saved.result = alone.result ∧ l.blobs saved.state = alone.state ∧
      l.happened saved.state = l.happened w := by
  rw [l.store_eq]
  obtain ⟨hresult, hstate⟩ := Session.run_within l.blobs_keep
    (i.vault.save nonce scope g) w
  exact ⟨hresult, hstate, Session.see_run_within l.happened_keep _ w⟩

variable (scope) in
/-- **A graph that is resolved is saved in the memory as it was.** -/
theorem persist_saves (h : i.plan seed root value = .ok r) (hr : r.verdict = .ok ()) (t : Nat)
    (w : σ) :
    ∃ nonce,
      let saved := (i.vault.save nonce scope r.graph).run Memory.store (l.blobs w)
      (i.persist scope seed root value t w).1.answer =
          saved.result.mapError (fun e => .other e.toCause) ∧
        l.blobs (i.persist scope seed root value t w).2 = saved.state ∧
        l.happened (i.persist scope seed root value t w).2 = l.happened w ++ r.happenings := by
  obtain ⟨hanswer, hworld⟩ := persist_of_resolved scope h hr t w
  obtain ⟨hresult, hblobs, hhappened⟩ := save_inMemory scope l
    (i.site.nonce (i.site.witness r.happenings w)).1 r.graph
    (i.site.nonce (i.site.witness r.happenings w)).2
  rw [l.blobs_nonce, l.blobs_witness] at hresult hblobs
  rw [l.happened_nonce, l.happened_witness] at hhappened
  exact ⟨_, by rw [hanswer, hresult], by rw [hworld, hblobs], by rw [hworld, hhappened]⟩

/-- **What is refused is answered with its cause, and no blob is touched.** -/
theorem persist_of_refuses {c : Cause} (h : i.Refuses seed root value c) (t : Nat) (w : σ) :
    (i.persist scope seed root value t w).1.answer = .error (.other c) ∧
      l.blobs (i.persist scope seed root value t w).2 = l.blobs w := by
  cases h with
  | @unseeded e h =>
    have hplan : i.plan seed root value = .error e := by rw [plan, h]; rfl
    rw [persist_of_error hplan]
    exact ⟨rfl, rfl⟩
  | unresolved h hr =>
    obtain ⟨hanswer, hworld⟩ := persist_of_unresolved scope h hr t w
    exact ⟨hanswer, by rw [hworld, l.blobs_witness]⟩
  | lacking h hr hlacks =>
    obtain ⟨nonce, hanswer, hblobs, -⟩ := persist_saves scope l h hr t w
    rw [hanswer, hblobs, (Vault.run_save_lacking hlacks).1, (Vault.run_save_lacking hlacks).2]
    exact ⟨rfl, rfl⟩

/-- **The assets are worked out anew in every call**, and nothing else
happens to assets. -/
theorem happened_persist (t : Nat) (w : σ) :
    l.happened (i.persist scope seed root value t w).2 =
      l.happened w ++ i.happenings seed root value := by
  rw [happenings]
  cases h : i.plan seed root value with
  | error e => rw [persist_of_error h, List.append_nil]
  | ok r =>
    cases hr : r.verdict with
    | error e => rw [(persist_of_unresolved scope h hr t w).2, l.happened_witness]
    | ok =>
      obtain ⟨-, -, -, hhappened⟩ := persist_saves scope l h hr t w
      exact hhappened

variable (scope seed root value) in
/-- **A call refuses and touches no blob, or it saves what was worked out.** -/
theorem persist_cases (t : Nat) (w : σ) :
    let call := i.persist scope seed root value t w
    (∃ c, call.1.answer = .error (.other c) ∧ l.blobs call.2 = l.blobs w) ∨
    ∃ r nonce, i.plan seed root value = .ok r ∧ r.verdict = .ok () ∧
      let saved := (i.vault.save nonce scope r.graph).run Memory.store (l.blobs w)
      call.1.answer = saved.result.mapError (fun e => .other e.toCause) ∧
        l.blobs call.2 = saved.state := by
  cases h : i.plan seed root value with
  | error e => exact Or.inl ⟨_, persist_of_refuses l (.unseeded (unseeded_of_plan h)) t w⟩
  | ok r =>
    cases hr : r.verdict with
    | error e => exact Or.inl ⟨_, persist_of_refuses l (.unresolved h hr) t w⟩
    | ok =>
      obtain ⟨nonce, hanswer, hblobs, -⟩ := persist_saves scope l h hr t w
      exact Or.inr ⟨r, nonce, rfl, hr, hanswer, hblobs⟩

/-- **A call that succeeds stores the graph that was worked out.** -/
theorem stores_of_persist (hseal : i.vault.sealer.Opens) (hcodec : i.vault.codec.Lawful) {t : Nat}
    {w : σ} (hok : (i.persist scope seed root value t w).1.answer = .ok ()) :
    ∃ r, i.plan seed root value = .ok r ∧ r.verdict = .ok () ∧
      i.vault.Stores (l.blobs (i.persist scope seed root value t w).2) scope r.graph := by
  obtain ⟨c, hanswer, -⟩ | ⟨r, nonce, h, hr, hanswer, hblobs⟩ :=
    persist_cases scope seed root value l t w
  · rw [hanswer] at hok
    cases hok
  · refine ⟨r, h, hr, ?_⟩
    rw [hblobs]
    refine Vault.stores_of_run_save hseal hcodec ?_
    rw [hanswer] at hok
    generalize Outcome.result _ = result at hok ⊢
    cases result with
    | ok => rfl
    | error e => cases hok

/-- **And no later call takes it away**, however it ends. -/
theorem stores_persist (hseal : i.vault.sealer.Opens) (hcodec : i.vault.codec.Lawful)
    (h : i.plan seed root value = .ok r) {t : Nat} {w : σ}
    (hstores : i.vault.Stores (l.blobs w) scope r.graph) :
    i.vault.Stores (l.blobs (i.persist scope seed root value t w).2) scope r.graph := by
  obtain ⟨-, -, hblobs⟩ | ⟨r', nonce, h', -, -, hblobs⟩ := persist_cases scope seed root value l t w
  · rw [hblobs]
    exact hstores
  · obtain rfl : r' = r := Except.ok.inj (h'.symm.trans h)
    rw [hblobs]
    exact hstores.save hseal hcodec nonce

/-! ## One run -/

variable {name : String} {s : State σ}

variable (i scope seed root value) in
/-- The step calls its function once, if the run is not cancelled. -/
theorem run_persistStep (name : String) (hs : s.isCancelled = false) :
    let span := (i.persistStep name scope seed root value).run.run s
    let call := i.persist scope seed root value s.now s.world
    span.ending = .ofExcept call.1.answer ∧ span.state.world = call.2 := by
  obtain ⟨hending, hstate⟩ :=
    Action.run_of_logs (a := ⟨name, i.persist scope seed root value⟩)
      (i.persist_moves scope seed root value) hs
  exact ⟨hending, congrArg State.world hstate⟩

/-- And otherwise nothing happens. -/
theorem run_persistStep_of_isCancelled (hs : s.isCancelled = true) :
    (i.persistStep name scope seed root value).run.run s = ⟨.failed .cancelled, [], s⟩ :=
  Action.run_of_isCancelled hs

include l in
/-- A run that is not cancelled before does not end as if it were. -/
theorem ending_ne_cancelled (hs : s.isCancelled = false) :
    ((i.persistStep name scope seed root value).run.run s).ending ≠ .failed .cancelled := by
  rw [(run_persistStep i scope seed root value name hs).1]
  obtain ⟨c, hanswer, -⟩ | ⟨r, nonce, -, -, hanswer, -⟩ :=
    persist_cases scope seed root value l s.now s.world
  · rw [hanswer]
    exact fun h => nomatch h
  · rw [hanswer]
    generalize Outcome.result _ = result
    cases result <;> exact fun h => nomatch h

/-- What a run works out: everything, unless it was cancelled. -/
def worked (i : Installer τ ν σ) (seed : Seed τ ν) (root : τ) (value : ν) (span : Span σ Unit) :
    List (Happening τ) :=
  if span.ending = .failed .cancelled then [] else i.happenings seed root value

/-- **A run works the assets out from the start.** -/
theorem happened_run (s : State σ) :
    let span := (i.persistStep name scope seed root value).run.run s
    l.happened span.state.world = l.happened s.world ++ i.worked seed root value span := by
  intro span
  cases hs : s.isCancelled with
  | true =>
    have hspan : span = ⟨.failed .cancelled, [], s⟩ := run_persistStep_of_isCancelled hs
    rw [hspan, worked, if_pos rfl, List.append_nil]
  | false =>
    have hworld : span.state.world = _ := (run_persistStep i scope seed root value name hs).2
    rw [hworld, happened_persist, worked, if_neg (ending_ne_cancelled l hs)]

/-- **A run that succeeds stores the graph that it worked out.** -/
theorem stores_of_run (hseal : i.vault.sealer.Opens) (hcodec : i.vault.codec.Lawful)
    (hok : ((i.persistStep name scope seed root value).run.run s).ending = .value ()) :
    ∃ r, i.plan seed root value = .ok r ∧ r.verdict = .ok () ∧
      i.vault.Stores (l.blobs ((i.persistStep name scope seed root value).run.run s).state.world)
        scope r.graph := by
  cases hs : s.isCancelled with
  | true =>
    rw [run_persistStep_of_isCancelled hs] at hok
    cases hok
  | false =>
    obtain ⟨hending, hworld⟩ := run_persistStep i scope seed root value name hs
    rw [hending] at hok
    rw [hworld]
    exact stores_of_persist l hseal hcodec (Ending.ofExcept_eq_value.1 hok)

/-- **And what is stored, no run takes away.** -/
theorem stores_run (hseal : i.vault.sealer.Opens) (hcodec : i.vault.codec.Lawful)
    (h : i.plan seed root value = .ok r)
    (hstores : i.vault.Stores (l.blobs s.world) scope r.graph) :
    i.vault.Stores (l.blobs ((i.persistStep name scope seed root value).run.run s).state.world)
      scope r.graph := by
  cases hs : s.isCancelled with
  | true =>
    rw [run_persistStep_of_isCancelled hs]
    exact hstores
  | false =>
    rw [(run_persistStep i scope seed root value name hs).2]
    exact stores_persist l hseal hcodec h hstores

/-! ## Any number of runs -/

variable {spans : List (Span σ Unit)} {w w' : σ}

theorem happened_repeats
    (hruns : (i.persistStep name scope seed root value).Repeats w spans w') :
    l.happened w' = l.happened w ++ spans.flatMap (i.worked seed root value) := by
  induction hruns with
  | nil w => rw [List.flatMap_nil, List.append_nil]
  | cons s rest ih => rw [ih, happened_run, List.flatMap_cons, List.append_assoc]

theorem stores_repeats (hseal : i.vault.sealer.Opens) (hcodec : i.vault.codec.Lawful)
    (h : i.plan seed root value = .ok r)
    (hruns : (i.persistStep name scope seed root value).Repeats w spans w')
    (hstores : i.vault.Stores (l.blobs w) scope r.graph) :
    i.vault.Stores (l.blobs w') scope r.graph := by
  induction hruns with
  | nil w => exact hstores
  | cons s rest ih => exact ih (stores_run l hseal hcodec h hstores)

/-- **After one run that succeeds, the graph stays.** -/
theorem stores_of_repeats (hseal : i.vault.sealer.Opens) (hcodec : i.vault.codec.Lawful)
    (h : i.plan seed root value = .ok r)
    (hruns : (i.persistStep name scope seed root value).Repeats w spans w')
    (hok : ∃ span ∈ spans, span.ending = .value ()) :
    i.vault.Stores (l.blobs w') scope r.graph := by
  induction hruns with
  | nil w =>
    obtain ⟨span, hspan, -⟩ := hok
    cases hspan
  | cons s rest ih =>
    obtain ⟨span, hspan, hvalue⟩ := hok
    obtain rfl | hspan := List.mem_cons.1 hspan
    · obtain ⟨r', h', -, hstores⟩ := stores_of_run l hseal hcodec hvalue
      obtain rfl : r' = r := Except.ok.inj (h'.symm.trans h)
      exact stores_repeats l hseal hcodec h rest hstores
    · exact ih ⟨span, hspan, hvalue⟩

/-- **Persisting a graph is all or nothing up to the save, and can be
repeated.** Whatever the store held: a run in which seeding or resolving
fails, or whose graph lacks the asset of the payload, fails with that error
and touches no blob. After a run that succeeds the store gives the graph
that is worked out from an empty one, and its payload. And of any number of
runs each, unless it was cancelled before, works the assets out anew; once
one has succeeded the store gives that graph for good. -/
theorem persistStep_repeatable (hseal : i.vault.sealer.Opens) (hcodec : i.vault.codec.Lawful)
    (name : String) (scope : Vault.Scope) (seed : Seed τ ν) (root : τ) (value : ν) :
    let step := i.persistStep name scope seed root value
    (∀ s : State σ, s.isCancelled = false → ∀ c, i.Refuses seed root value c →
      (step.run.run s).ending = .failed (.other c) ∧
        l.blobs (step.run.run s).state.world = l.blobs s.world) ∧
    (∀ s : State σ, (step.run.run s).ending = .value () →
      ∃ r, i.plan seed root value = .ok r ∧ r.verdict = .ok () ∧
        i.vault.Returns (l.blobs (step.run.run s).state.world) scope r.graph) ∧
    ∀ (w : σ) (spans : List (Span σ Unit)) (w' : σ), step.Repeats w spans w' →
      l.happened w' = l.happened w ++ spans.flatMap (i.worked seed root value) ∧
      ∀ r, i.plan seed root value = .ok r → (∃ span ∈ spans, span.ending = .value ()) →
        i.vault.Returns (l.blobs w') scope r.graph := by
  intro step
  refine ⟨fun s hs c hc => ?_, fun s hok => ?_, fun w spans w' hruns => ⟨?_, fun r h hok => ?_⟩⟩
  · obtain ⟨hending, hworld⟩ := run_persistStep i scope seed root value name hs
    obtain ⟨hanswer, hblobs⟩ := persist_of_refuses l hc s.now s.world
    exact ⟨by rw [hending, hanswer]; rfl, by rw [hworld, hblobs]⟩
  · obtain ⟨r, h, hr, hstores⟩ := stores_of_run l hseal hcodec hok
    exact ⟨r, h, hr, hstores.returns hcodec⟩
  · exact happened_repeats l hruns
  · exact (stores_of_repeats l hseal hcodec h hruns hok).returns hcodec

end Installer

end Provision

/-! ## A rehearsal -/

namespace Provision.Rehearsal

open Asset Pipeline

/-- The site of a rehearsal: a world with a store in memory. -/
def rehearsedSite : Installer.Site Role (World Blob.Memory) :=
  ⟨World.store Blob.Memory.store, World.draw, World.witness⟩

/-- Its world tells the blobs from what has happened. -/
def rehearsedSite_inMemory : rehearsedSite.InMemory where
  blobs := World.blobs
  keep := fun blobs w => { w with blobs }
  happened := World.happenings
  store_eq := rfl
  blobs_keep _ _ := rfl
  happened_keep _ _ := rfl
  blobs_nonce _ := rfl
  happened_nonce _ := rfl
  blobs_witness _ _ := rfl
  happened_witness _ _ := rfl

/-- The kind whose payload is kept in the clear. -/
def payloadRole : Role := rehearsedVault.bootstrap

/-- The scope that is persisted for. -/
def clusterScope : Vault.Scope := ⟨"group", "one"⟩

/-- The asset of the payload over another one, which has to be seeded. -/
def seededCast : Cast := fun r =>
  if r = payloadRole then { Part.plain r with deps := [lastRole], reads := [lastRole] }
  else { Part.plain r with fails := some "must be seeded" }

/-- An installer of a rehearsal. -/
def rehearsedInstaller : Installer Role String (World Blob.Memory) where
  vault := rehearsedVault
  declarations := seededCast.declarations
  defaults := Settings.StepDefaults.standard
  site := rehearsedSite

/-- Seeds the asset that has to be seeded. -/
def rehearsedSeed : Installer.Seed Role String := fun g => .ok (g.put lastRole "seed")

/-- The beginning of a run over an empty store. -/
def emptyStart : State (World Blob.Memory) := ⟨0, none, none, 0, World.fresh Table.empty⟩

/-- What is worked out over the seed. -/
def seededGraph : Asset.Graph Role String :=
  (Graph.empty.put lastRole "seed").put payloadRole "n0(seed)"

theorem plan_rehearsedSeed :
    ∃ r, rehearsedInstaller.plan rehearsedSeed payloadRole "" = .ok r ∧ r.verdict = .ok () ∧
      r.graph = seededGraph :=
  ⟨_, rfl, look_resolve Resolution.verdict 9 rfl, look_resolve Resolution.graph 9 rfl⟩

/-- The step over the seed. -/
def rehearsedStep : Step (World Blob.Memory) :=
  rehearsedInstaller.persistStep "persist" clusterScope rehearsedSeed payloadRole ""

theorem rehearsedStep_succeeds : (rehearsedStep.run.run emptyStart).ending = .value () := by
  obtain ⟨r, h, hr, hgraph⟩ := plan_rehearsedSeed
  obtain ⟨hending, -⟩ := Installer.run_persistStep rehearsedInstaller clusterScope rehearsedSeed
    payloadRole "" "persist" (show emptyStart.isCancelled = false from rfl)
  have hsaved : ((rehearsedVault.save (World.nonceOf 0) clusterScope seededGraph).run
      Blob.Memory.store Table.empty).result = .ok () := by
    decide +kernel
  obtain ⟨hresult, -⟩ := Installer.save_inMemory clusterScope rehearsedSite_inMemory
    (i := rehearsedInstaller) (World.nonceOf 0) seededGraph
    (World.draw (World.witness r.happenings emptyStart.world)).2
  rw [rehearsedStep, hending, (Installer.persist_of_resolved clusterScope h hr _ _).1, hgraph]
  exact congrArg (fun r => Ending.ofExcept (Except.mapError _ r)) (hresult.trans hsaved)

/-- The step without the seed. -/
def bareStep : Step (World Blob.Memory) :=
  rehearsedInstaller.persistStep "persist" clusterScope .ok payloadRole ""

/-- Why it fails. -/
def unseededError : Asset.Error := .generate "n31" (.ofText "must be seeded")

theorem refuses_bare :
    rehearsedInstaller.Refuses .ok payloadRole "" unseededError.toCause :=
  .unresolved rfl (look_resolve Resolution.verdict 9 rfl)

/-- Three runs over the seed, the second of them cancelled, and one without
it. After the three the store gives the graph of the seed, and the assets
have been worked out twice; the one leaves an empty store empty. -/
theorem persistStep_repeatable_cancelled :
    let first := rehearsedStep.run.run emptyStart
    let again := rehearsedStep.run.run { first.state with cancelAt := some 0 }
    let last := rehearsedStep.run.run { again.state with cancelAt := none }
    let bare := bareStep.run.run emptyStart
    first.ending = .value () ∧
    rehearsedVault.Returns last.state.world.blobs clusterScope seededGraph ∧
    last.state.world.happenings =
      [first, again, last].flatMap (rehearsedInstaller.worked rehearsedSeed payloadRole "") ∧
    bare.ending = .failed (.other unseededError.toCause) ∧
    bare.state.world.blobs = Table.empty := by
  intro first again last bare
  have hseal : rehearsedInstaller.vault.sealer.Opens := Cipher.Sealer.ofKey_opens _
  have hcodec : rehearsedInstaller.vault.codec.Lawful := codec_lawful
  obtain ⟨r, h, -, hgraph⟩ := plan_rehearsedSeed
  obtain ⟨-, -, hruns⟩ := Installer.persistStep_repeatable rehearsedSite_inMemory hseal hcodec
    (i := rehearsedInstaller) "persist" clusterScope rehearsedSeed payloadRole ""
  obtain ⟨hrefused, -, -⟩ := Installer.persistStep_repeatable rehearsedSite_inMemory hseal hcodec
    (i := rehearsedInstaller) "persist" clusterScope .ok payloadRole ""
  obtain ⟨hhappened, hreturns⟩ := hruns emptyStart.world [first, again, last] last.state.world
    (.cons emptyStart (.cons { first.state with cancelAt := some 0 }
      (.cons { again.state with cancelAt := none } (.nil _))))
  obtain ⟨hbare, hblobs⟩ := hrefused emptyStart rfl _ refuses_bare
  exact ⟨rehearsedStep_succeeds,
    hgraph ▸ hreturns r h ⟨first, List.mem_cons_self, rehearsedStep_succeeds⟩, hhappened, hbare,
    hblobs⟩

end Provision.Rehearsal
