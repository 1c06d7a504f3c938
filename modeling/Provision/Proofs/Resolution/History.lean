import Provision.Proofs.Resolution.Making
/-!
# Resolution — the history of a graph

A graph is seeded, resolved and changed in any order, and resolutions fail
where they may; each has declarations of its own, so a generator that was
called once may do something else the next time. A *history* is the list of
the resolutions that took place. Whatever it is, **no asset is set about
whose name is taken**, so none is made twice (`history_once`).
-/

namespace Provision.Asset

open Asset.Graph

variable {τ ν : Type} [Kind τ]

/-! ## Calls -/

namespace Happening

omit [Kind τ] in
/-- The kind whose loader is called. -/
def loads? : Happening τ → Option τ
  | .loading t => some t
  | _ => none

omit [Kind τ] in
/-- The kind whose generator is called. -/
def generates? : Happening τ → Option τ
  | .generating t => some t
  | _ => none

omit [Kind τ] in
/-- The kind of which a function is called, be it the loader or the
generator. -/
def calls? : Happening τ → Option τ
  | .loading t => some t
  | .generating t => some t
  | .logged _ => none

end Happening

namespace Attempt

/-- The name of the asset. -/
def name (t : Attempt τ ν) : String := Kind.name t.item.kind

/-- **The asset is made**: its loader found it, or its generator gave it. -/
def succeeds (t : Attempt τ ν) : Bool := t.outcome.isOk

end Attempt

variable [DecidableEq τ] {d : Declarations τ ν} {g : Graph τ ν} {a : Item τ ν}
variable {path : List String} {as : List (Item τ ν)} {r : Resolution τ ν}

/-- An attempt calls functions of its own asset only. -/
theorem calls?_attempt :
    ∀ h ∈ (attempt d g a).happenings, ∀ t, h.calls? = some t → t = a.kind := by
  intro h hh t ht
  simp only [attempt, materialise] at hh
  repeat' split at hh
  all_goals
    simp only [List.mem_cons, List.not_mem_nil, or_false] at hh
    grind [Happening.calls?, Resolution.about]

/-- An attempt calls the loader at most once. -/
theorem loads?_attempt : (attempt d g a).happenings.filterMap Happening.loads? = [] ∨
    (attempt d g a).happenings.filterMap Happening.loads? = [a.kind] := by
  simp only [attempt, materialise]
  repeat' split
  all_goals simp [List.filterMap_cons, Happening.loads?, Resolution.about]

/-- And the generator at most once. -/
theorem generates?_attempt : (attempt d g a).happenings.filterMap Happening.generates? = [] ∨
    (attempt d g a).happenings.filterMap Happening.generates? = [a.kind] := by
  simp only [attempt, materialise]
  repeat' split
  all_goals simp [List.filterMap_cons, Happening.generates?, Resolution.about]

/-- **All that happens besides logging happens in attempts.** -/
theorem Search.filterMap_happenings {β : Type} (f : Happening τ → Option β)
    (hf : ∀ e, f (.logged e) = none) (h : Search d path as g r) :
    r.happenings.filterMap f = r.attempts.flatMap fun t => t.happenings.filterMap f := by
  induction h with
  | done => rfl
  | present _ _ _ ih => simp [Resolution.found, Resolution.about, hf, ih]
  | collides => rfl
  | circle => rfl
  | blocked _ _ _ _ ih => exact ih
  | failed _ _ _ _ ho ih => simp [settle_of_error ho, ih]
  | made _ _ _ _ ho _ ih ih' => simp [settle_of_ok ho, ih, ih']

/-! ## One resolution -/

/-- **What an attempt of a search saw and left**: it came in its turn, and
its value stays if there is one. -/
structure Attempted (d : Declarations τ ν) (g : Graph τ ν) (t : Attempt τ ν) (g' : Graph τ ν) :
    Prop where
  eq_attempt : t = attempt d t.graph t.item
  ready : Ready d t.graph t.item
  before : Grows g t.graph
  after : Grows t.graph g'
  kept : ∀ v, t.outcome = .ok v → Grows (t.graph.put t.item.kind v) g'

theorem Makes.attempted {g' : Graph τ ν} {ts : List (Attempt τ ν)} (h : Makes d g ts g')
    {t : Attempt τ ν} (ht : t ∈ ts) : Attempted d g t g' := by
  obtain ⟨v, heq, hready, ho, hgrows, hrest⟩ := h.of_mem ht
  refine ⟨heq, hready, hgrows, (grows_put hready.free).trans hrest, fun w hw => ?_⟩
  obtain rfl : v = w := Except.ok.inj (ho.symm.trans hw)
  exact hrest

theorem Search.attempted_of_mem (h : Search d path as g r) {t : Attempt τ ν}
    (ht : t ∈ r.attempts) : Attempted d g t r.graph := by
  obtain ⟨ts, hm, he⟩ := h.makes
  cases he with
  | complete _ heq => exact hm.attempted (heq ▸ ht)
  | circle _ _ heq => exact hm.attempted (heq ▸ ht)
  | collision _ _ _ _ _ heq => exact hm.attempted (heq ▸ ht)
  | failed b e ready ho _ heq =>
    rw [heq, List.mem_append, List.mem_singleton] at ht
    rcases ht with ht | rfl
    · exact hm.attempted ht
    · refine ⟨rfl, ready, hm.grows, .refl _, fun v hv => ?_⟩
      rw [ho] at hv
      cases hv

/-- **An attempt comes when its name is free.** -/
theorem Search.attempt_free (h : Search d path as g r) :
    ∀ t ∈ r.attempts, t = attempt d t.graph t.item ∧ t.graph.held? t.item.kind = none ∧
      Grows g t.graph := by
  intro t ht
  have hat := h.attempted_of_mem ht
  exact ⟨hat.eq_attempt, hat.ready.free, hat.before⟩

/-- **No function is called of an asset whose name is taken.** -/
theorem Search.free_of_call (h : Search d path as g r) {k : τ}
    (hk : k ∈ r.happenings.filterMap Happening.calls?) : g.held? k = none := by
  rw [h.filterMap_happenings _ fun _ => rfl] at hk
  obtain ⟨t, ht, hk⟩ := List.mem_flatMap.1 hk
  obtain ⟨x, hx, hxk⟩ := List.mem_filterMap.1 hk
  obtain ⟨heq, hfree, hgrows⟩ := h.attempt_free t ht
  rw [heq] at hx
  obtain rfl := calls?_attempt x hx k hxk
  exact hgrows.absent hfree

/-- **No name is attempted twice** in a resolution, also if it fails: what
was made before the failing attempt is there, and its own name is not. -/
theorem Search.attempts_nodup (h : Search d path as g r) :
    (r.attempts.map Attempt.name).Nodup := by
  obtain ⟨ts, hm, he⟩ := h.makes
  have hts : (ts.map Attempt.name).Nodup := hm.nodup
  cases he with
  | complete _ heq => exact heq ▸ hts
  | circle _ _ heq => exact heq ▸ hts
  | collision _ _ _ _ _ heq => exact heq ▸ hts
  | failed b e ready ho _ heq =>
    rw [heq, List.map_append, List.nodup_append]
    refine ⟨hts, by simp, fun n hn m hm' hnm => ?_⟩
    -- what was made is there, and the name of what failed is free
    obtain ⟨t, ht, rfl⟩ := List.mem_map.1 hn
    obtain ⟨v, hv⟩ := contains_iff.1 (hm.contains ht)
    have hfree := ready.free
    rw [List.map_singleton, List.mem_singleton] at hm'
    rw [Graph.held?, show Kind.name b.kind = Kind.name t.item.kind from (hnm.trans hm').symm,
      show r.graph.assets.get? (Kind.name t.item.kind) = some _ from hv] at hfree
    cases hfree

/-- The attempts that succeed are the makings. -/
theorem Search.successes (h : Search d path as g r) :
    Makes d g (r.attempts.filter Attempt.succeeds) r.graph := by
  obtain ⟨ts, hm, he⟩ := h.makes
  have hts : ts.filter Attempt.succeeds = ts := by
    refine List.filter_eq_self.2 fun t ht => ?_
    obtain ⟨v, -, -, ho, -, -⟩ := hm.of_mem ht
    rw [Attempt.succeeds, ho]
    rfl
  cases he with
  | complete _ heq => rwa [heq, hts]
  | circle _ _ heq => rwa [heq, hts]
  | collision _ _ _ _ _ heq => rwa [heq, hts]
  | failed b e _ ho _ heq =>
    have hb : (attempt d r.graph b).succeeds = false := by
      rw [Attempt.succeeds, ho]
      rfl
    rw [heq, List.filter_append, hts]
    simpa [hb] using hm

/-- What each attempt calls at most once is called for names that are
attempted. -/
theorem calls_sublist (f : Happening τ → Option τ)
    (hone : ∀ g a, (attempt d g a).happenings.filterMap f = [] ∨
      (attempt d g a).happenings.filterMap f = [a.kind]) (ts : List (Attempt τ ν))
    (hts : ∀ t ∈ ts, t = attempt d t.graph t.item) :
    ((ts.flatMap fun t => t.happenings.filterMap f).map Kind.name).Sublist
      (ts.map Attempt.name) := by
  induction ts with
  | nil => exact List.Sublist.refl _
  | cons t ts ih =>
    have ht := hts t List.mem_cons_self
    have hrest := ih fun s hs => hts s (List.mem_cons_of_mem _ hs)
    rw [List.flatMap_cons, List.map_append, List.map_cons]
    rcases hone t.graph t.item with hnone | hsome
    · rw [ht, hnone]
      exact hrest.cons _
    · rw [ht, hsome]
      exact hrest.cons_cons _

/-- So it is called at most once for each name. -/
theorem Search.calls_nodup (f : Happening τ → Option τ) (hf : ∀ e, f (.logged e) = none)
    (hone : ∀ g a, (attempt d g a).happenings.filterMap f = [] ∨
      (attempt d g a).happenings.filterMap f = [a.kind]) (h : Search d path as g r) :
    ((r.happenings.filterMap f).map Kind.name).Nodup := by
  rw [h.filterMap_happenings f hf]
  exact h.attempts_nodup.sublist
    (calls_sublist f hone _ fun t ht => (h.attempt_free t ht).1)

/-! ## Histories -/

/-- Something that is done to a graph. -/
inductive Operation (τ ν : Type) where
  | set (t : τ) (v : ν)
  | resolve (d : Declarations τ ν) (t : τ) (v : ν)
  | modify (t : τ) (f : ν → ν)

namespace Graph

/-- The graph after an operation, be it refused or not. -/
def perform (g : Graph τ ν) : Operation τ ν → Graph τ ν
  | .set t v =>
    match g.set t v with
    | .ok g' => g'
    | .error _ => g
  | .resolve d t v => (g.resolve d t v).graph
  | .modify t f => (g.modify? t f).getD g

/-- The resolution that an operation is, if it is one. -/
def resolution? (g : Graph τ ν) : Operation τ ν → Option (Resolution τ ν)
  | .resolve d t v => some (g.resolve d t v)
  | _ => none

/-- **The resolutions** among the operations on a graph, in order. -/
def history (g : Graph τ ν) : List (Operation τ ν) → List (Resolution τ ν)
  | [] => []
  | o :: os => (g.resolution? o).toList ++ (g.perform o).history os

/-- **A graph keeps its kinds**: no name is given up, and none passes to
another kind. -/
def KeepsKinds (g g' : Graph τ ν) : Prop :=
  ∀ n a, g.assets.get? n = some a → ∃ b, g'.assets.get? n = some b ∧ b.kind = a.kind

namespace KeepsKinds

variable {g' g'' : Graph τ ν}

omit [DecidableEq τ] in
theorem refl (g : Graph τ ν) : KeepsKinds g g := fun _ a h => ⟨a, h, rfl⟩

omit [DecidableEq τ] in
theorem trans (h : KeepsKinds g g') (h' : KeepsKinds g' g'') : KeepsKinds g g'' := by
  intro n a ha
  obtain ⟨b, hb, hkind⟩ := h n a ha
  obtain ⟨c, hc, hkind'⟩ := h' n b hb
  exact ⟨c, hc, hkind'.trans hkind⟩

omit [DecidableEq τ] in
theorem absent (h : KeepsKinds g g') {n : String} (hn : g'.assets.get? n = none) :
    g.assets.get? n = none := by
  cases hg : g.assets.get? n with
  | none => rfl
  | some a =>
    obtain ⟨b, hb, -⟩ := h n a hg
    rw [hn] at hb
    cases hb

theorem contains (h : KeepsKinds g g') {t : τ} (ht : g.contains t = true) :
    g'.contains t = true := by
  obtain ⟨v, hv⟩ := contains_iff.1 ht
  obtain ⟨⟨k, w⟩, hb, rfl⟩ := h _ _ hv
  exact contains_iff.2 ⟨w, hb⟩

end KeepsKinds

omit [DecidableEq τ] in
theorem Grows.keepsKinds {g' : Graph τ ν} (h : Grows g g') : KeepsKinds g g' :=
  fun n a ha => ⟨a, h.kept n a ha, rfl⟩

omit [DecidableEq τ] in
/-- An asset can take a free name, or the place of one of its kind. -/
theorem keepsKinds_put {t : τ} {v : ν} (h : ∀ b, g.held? t = some b → b.kind = t) :
    KeepsKinds g (g.put t v) := by
  intro n a ha
  rw [assets_put]
  split
  · next heq =>
    subst heq
    exact ⟨_, rfl, (h a ha).symm⟩
  · exact ⟨a, ha, rfl⟩

/-- **Every operation keeps the kinds**, be it refused or not. -/
theorem perform_keepsKinds (g : Graph τ ν) (o : Operation τ ν) : KeepsKinds g (g.perform o) := by
  cases o with
  | set t v =>
    rw [perform, Graph.set]
    cases hheld : g.held? t with
    | none => exact keepsKinds_put fun b hb => by rw [hheld] at hb; cases hb
    | some h =>
      by_cases hkind : h.kind = t
      · simp only [if_pos hkind]
        refine keepsKinds_put fun b hb => ?_
        rw [hheld] at hb
        exact Option.some.inj hb ▸ hkind
      · simp only [if_neg hkind]
        exact .refl g
  | resolve d t v => exact (search_resolve d t g v).grows.keepsKinds
  | modify t f =>
    rw [perform, modify?]
    cases hv : g.get? t with
    | none => exact .refl g
    | some v =>
      refine keepsKinds_put fun b hb => ?_
      rw [get?_eq_some_iff.1 hv] at hb
      exact Option.some.inj hb ▸ rfl

/-- A name that is free after an operation was free before: **nothing takes
an asset out of a graph**. -/
theorem free_of_perform {o : Operation τ ν} {n : String}
    (h : (g.perform o).assets.get? n = none) : g.assets.get? n = none :=
  (g.perform_keepsKinds o).absent h

/-- Every resolution of a history is a search. -/
theorem search_of_mem_history {ops : List (Operation τ ν)} (hr : r ∈ g.history ops) :
    ∃ d a g', Search d [] [a] g' r := by
  induction ops generalizing g with
  | nil => cases hr
  | cons o os ih =>
    rcases List.mem_append.1 hr with hr | hr
    · cases o with
      | resolve d t v =>
        obtain rfl : r = g.resolve d t v := by simpa [resolution?] using hr
        exact ⟨d, ⟨t, v⟩, g, search_resolve d t g v⟩
      | set t v => simp [resolution?] at hr
      | modify t f => simp [resolution?] at hr
    · exact ih hr

/-- The assets that are made in a history, each with its attempt. -/
def makings (g : Graph τ ν) (ops : List (Operation τ ν)) : List (Attempt τ ν) :=
  ((g.history ops).flatMap Resolution.attempts).filter Attempt.succeeds

theorem makings_cons {o : Operation τ ν} {os : List (Operation τ ν)} :
    g.makings (o :: os) =
      ((g.resolution? o).toList.flatMap Resolution.attempts).filter Attempt.succeeds ++
        (g.perform o).makings os := by
  rw [makings, history, List.flatMap_append, List.filter_append, makings]

/-- What is made in a history has a name that is free at its beginning. -/
theorem free_of_mem_makings {ops : List (Operation τ ν)} {t : Attempt τ ν}
    (ht : t ∈ g.makings ops) : g.assets.get? t.name = none := by
  induction ops generalizing g with
  | nil => cases ht
  | cons o os ih =>
    rw [makings_cons, List.mem_append] at ht
    rcases ht with ht | ht
    · cases o with
      | resolve d k v =>
        exact (search_resolve d k g v).successes.free (by simpa [resolution?] using ht)
      | set k v => simp [resolution?] at ht
      | modify k f => simp [resolution?] at ht
    · exact free_of_perform (ih ht)

/-- **No name is made twice in a history.** -/
theorem makings_nodup (ops : List (Operation τ ν)) :
    ((g.makings ops).map Attempt.name).Nodup := by
  induction ops generalizing g with
  | nil => exact List.nodup_nil
  | cons o os ih =>
    rw [makings_cons, List.map_append]
    cases o with
    | resolve d k v =>
      have hm := (search_resolve d k g v).successes
      simp only [resolution?, Option.toList_some, List.flatMap_singleton]
      rw [List.nodup_append]
      refine ⟨hm.nodup, ih, fun n hn m hm' hnm => ?_⟩
      obtain ⟨t, ht, rfl⟩ := List.mem_map.1 hn
      obtain ⟨s, hs, rfl⟩ := List.mem_map.1 hm'
      -- the first is there when the resolution has ended, the second is not
      obtain ⟨w, hw⟩ := contains_iff.1 (hm.contains ht)
      have hfree := free_of_mem_makings hs
      rw [← hnm, perform, show (g.resolve d k v).graph.assets.get? t.name = some _ from hw] at hfree
      cases hfree
    | set k v => exact ih
    | modify k f => exact ih

end Graph

/-- **Each asset is made at most once**, whatever is done to a graph and
wherever a resolution fails. Functions are called in attempts only, each on
the asset that is attempted, and never when its name is taken; no name is
made twice in a history; and no resolution calls the loader of one name
twice, or its generator. -/
theorem history_once (g : Graph τ ν) (ops : List (Operation τ ν)) :
    (∀ r ∈ g.history ops,
      r.happenings.filterMap Happening.calls? =
        r.attempts.flatMap (fun t => t.happenings.filterMap Happening.calls?) ∧
      ∀ t ∈ r.attempts, t.name ∉ t.graph.names ∧
        ∀ k ∈ t.happenings.filterMap Happening.calls?, k = t.item.kind) ∧
    ((((g.history ops).flatMap Resolution.attempts).filter Attempt.succeeds).map
      Attempt.name).Nodup ∧
    ∀ r ∈ g.history ops,
      ((r.happenings.filterMap Happening.loads?).map Kind.name).Nodup ∧
      ((r.happenings.filterMap Happening.generates?).map Kind.name).Nodup := by
  refine ⟨fun r hr => ?_, makings_nodup ops, fun r hr => ?_⟩
  · obtain ⟨d, a, g', hs⟩ := search_of_mem_history hr
    refine ⟨hs.filterMap_happenings _ fun _ => rfl, fun t ht => ?_⟩
    obtain ⟨heq, hfree, -⟩ := hs.attempt_free t ht
    refine ⟨fun hn => ?_, fun k hk => ?_⟩
    · obtain ⟨b, hb⟩ := mem_names.1 hn
      rw [Attempt.name, show t.graph.assets.get? _ = none from hfree] at hb
      cases hb
    · obtain ⟨x, hx, hxk⟩ := List.mem_filterMap.1 hk
      rw [heq] at hx
      exact calls?_attempt x hx k hxk
  · obtain ⟨d, a, g', hs⟩ := search_of_mem_history hr
    exact ⟨hs.calls_nodup _ (fun _ => rfl) fun _ _ => loads?_attempt,
      hs.calls_nodup _ (fun _ => rfl) fun _ _ => generates?_attempt⟩

end Provision.Asset
