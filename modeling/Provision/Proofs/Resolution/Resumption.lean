import Provision.Proofs.Resolution.History
import Provision.Proofs.Resolution.Meaning
import Mathlib.Data.List.Nodup
/-!
# Resolution — failing, and going on

A resolution that fails leaves a graph behind, and it is **as good a
beginning as the graph it began with**. What is new in it was made
completely, before the failure, and the failure is the last thing that
happens (`Stops`). Whoever mends the function that failed and resolves
again on the graph left behind comes to the same verdict and the same graph
as by resolving from the start, without making anything a second time
(`resolve_resumes`).

Two searches are compared for that, `Joins`: one from the graph that was
left, which finds in its place whatever had been made, and one from the
graph before, which makes it again. They come together where the first run
broke off, and from there they are one search.
-/

namespace Provision.Asset

open Asset.Graph

variable {τ ν : Type} [Kind τ]

/-- **Declarations that differ in the functions of one kind at most**, or
not at all if there is no such kind. -/
structure Declarations.AgreesOutside (d' d : Declarations τ ν) (culprit : Option τ) : Prop where
  blank : d'.blank = d.blank
  dependencies : d'.dependencies = d.dependencies
  load : ∀ a, some a.kind ≠ culprit → d'.load a = d.load a
  generate : ∀ a, some a.kind ≠ culprit → d'.generate a = d.generate a

/-- **The failure of an asset's own function**: the error that reports it,
and the call that failed. -/
inductive Fails (d : Declarations τ ν) (files : Option Fetcher) (p : Parents τ ν) (a : Item τ ν) :
    Error → Happening τ → Prop
  | loader {c : Cause} (f : Fetcher) (hf : files = some f) (hl : d.load a f = .error c) :
      Fails d files p a (.load (Kind.name a.kind) c) (.loading a.kind)
  | generator {c : Cause} (f : Fetcher) (w : ν) (hf : files = some f)
      (hl : d.load a f = .ok (false, w)) (hg : d.generate ⟨a.kind, w⟩ p = .error c) :
      Fails d files p a (.generate (Kind.name a.kind) c) (.generating a.kind)
  | unfiled {c : Cause} (hf : files = none) (hg : d.generate a p = .error c) :
      Fails d files p a (.generate (Kind.name a.kind) c) (.generating a.kind)

/-- The kind whose own function failed in a resolution, if one did. -/
def Resolution.culprit? (r : Resolution τ ν) : Option τ :=
  (r.attempts.find? fun t => !t.succeeds).map fun t => t.item.kind

variable [DecidableEq τ]

/-- **An entry that was made completely**: its parents were there, its value
is what the declarations made of them, and it has stayed since. -/
inductive Complete (d : Declarations τ ν) (g : Graph τ ν) (root : Item τ ν) (g' : Graph τ ν) :
    Item τ ν → Prop
  | intro {b : Item τ ν} {h : Graph τ ν} {v : ν} (needed : Needed d g [root] b)
      (before : Grows g h) (ready : Ready d h b) (means : Means d g.files h.parents b v)
      (after : Grows (h.put b.kind v) g') : Complete d g root g' ⟨b.kind, v⟩

/-- **How a resolution stops short**, and whose function failed. -/
inductive Stops (d : Declarations τ ν) (r : Resolution τ ν) : Error → Option τ → Prop
  /-- A name came up again, and no function failed. -/
  | circle {p : List String} (all : ∀ t ∈ r.attempts, t.succeeds = true) :
      Stops d r (.cycle p) none
  /-- A name was taken by another kind, and no function failed. -/
  | collision {h : Item τ ν} {t : τ} (hheld : r.graph.held? t = some h) (hkind : h.kind ≠ t)
      (all : ∀ t ∈ r.attempts, t.succeeds = true) : Stops d r (collision h.kind t) none
  /-- One function failed. It was the last that was called. -/
  | failed {a : Item τ ν} {e : Error} {call : Happening τ} {hs : List (Happening τ)}
      {ts : List (Attempt τ ν)} (ready : Ready d r.graph a)
      (fails : Fails d r.graph.files r.graph.parents a e call) (last : r.happenings = hs ++ [call])
      (ho : (attempt d r.graph a).outcome = .error e)
      (ht : r.attempts = ts ++ [attempt d r.graph a]) (all : ∀ t ∈ ts, t.succeeds = true) :
      Stops d r e (some a.kind)

variable {d d' : Declarations τ ν} {g g' g₁ g₂ : Graph τ ν} {a : Item τ ν} {as : List (Item τ ν)}
variable {path : List String} {r before : Resolution τ ν} {e : Error} {culprit : Option τ}
variable {ts kept : List (Attempt τ ν)}

/-! ## How it stops -/

theorem succeeds_of_ok {v : ν} (ho : (attempt d g a).outcome = .ok v) :
    (attempt d g a).succeeds = true := by
  rw [Attempt.succeeds, ho]
  rfl

theorem not_succeeds_of_error (ho : (attempt d g a).outcome = .error e) :
    (attempt d g a).succeeds = false := by
  rw [Attempt.succeeds, ho]
  rfl

/-- A resolution that succeeds has made whatever it attempted. -/
theorem Search.all_succeed (h : Search d path as g r) (hv : r.verdict = .ok ()) :
    ∀ t ∈ r.attempts, t.succeeds = true := by
  obtain ⟨ts, hm, he⟩ := h.makes
  intro t ht
  rw [he.attempts_of_ok hv] at ht
  obtain ⟨v, -, -, ho, -, -⟩ := hm.of_mem ht
  rw [Attempt.succeeds, ho]
  rfl

/-- **An attempt fails with what its own function failed with**, and calls
nothing after that. -/
theorem fails_of_attempt (ho : (attempt d g a).outcome = .error e) :
    ∃ hs call, (attempt d g a).happenings = hs ++ [call] ∧
      Fails d g.files g.parents a e call := by
  simp only [attempt, materialise] at ho ⊢
  split at ho
  · next hf =>
    split at ho
    · cases ho
    · next c hg =>
      obtain rfl := Except.error.inj ho
      exact ⟨[], .generating a.kind, rfl, .unfiled hf hg⟩
  · next f hf =>
    split at ho
    · next c hl =>
      obtain rfl := Except.error.inj ho
      exact ⟨[], .loading a.kind, rfl, .loader f hf hl⟩
    · cases ho
    · next w hl =>
      split at ho
      · cases ho
      · next c hg =>
        obtain rfl := Except.error.inj ho
        exact ⟨[.loading a.kind], .generating a.kind, rfl,
          .generator f w hf hl hg⟩

/-- What was made before does not change how it stops. -/
theorem Stops.after (h : Stops d r e culprit) (hb : ∀ t ∈ before.attempts, t.succeeds = true) :
    Stops d (r.after before) e culprit := by
  have hall : ∀ ts : List (Attempt τ ν), (∀ t ∈ ts, t.succeeds = true) →
      ∀ t ∈ before.attempts ++ ts, t.succeeds = true := by
    intro ts hts t ht
    exact (List.mem_append.1 ht).elim (hb t) (hts t)
  cases h with
  | circle all => exact .circle (hall _ all)
  | collision hheld hkind all => exact .collision hheld hkind (hall _ all)
  | @failed a e call hs ts ready fails last ho ht all =>
    have hlast : (r.after before).happenings = (before.happenings ++ hs) ++ [call] := by
      rw [Resolution.happenings_after, last, List.append_assoc]
    have hattempts : (r.after before).attempts =
        (before.attempts ++ ts) ++ [attempt d r.graph a] := by
      rw [Resolution.attempts_after, ht, List.append_assoc]
    exact .failed ready fails hlast ho hattempts (hall ts all)

theorem stops_of_attempt (ready : Ready d g a) (ho : (attempt d g a).outcome = .error e) :
    Stops d (settle d g a) e (some a.kind) := by
  obtain ⟨hs, call, hlast, hfails⟩ := fails_of_attempt ho
  have hnone : ∀ t ∈ ([] : List (Attempt τ ν)), t.succeeds = true := by simp
  rw [settle_of_error ho]
  exact .failed ready hfails hlast ho rfl hnone

/-- **Every failure is one of these**, and it comes last. -/
theorem Search.stops (h : Search d path as g r) (hv : r.verdict = .error e) :
    ∃ culprit, Stops d r e culprit := by
  induction h with
  | done => cases hv
  | present _ _ _ ih =>
    obtain ⟨culprit, hs⟩ := ih hv
    exact ⟨culprit, hs.after (by simp [Resolution.found])⟩
  | collides hheld hkind =>
    obtain rfl := Except.error.inj hv
    exact ⟨none, .collision hheld hkind (by simp [Resolution.refused])⟩
  | circle =>
    obtain rfl := Except.error.inj hv
    exact ⟨none, .circle (by simp [Resolution.refused])⟩
  | blocked _ _ _ _ ih => exact ih hv
  | failed hheld _ above hv' ho _ =>
    rw [Resolution.verdict_after, settle_of_error ho] at hv
    obtain rfl := Except.error.inj hv
    exact ⟨_, (stops_of_attempt (above.ready hheld hv') ho).after (above.all_succeed hv')⟩
  | made _ _ above hv' ho _ _ ih' =>
    obtain ⟨culprit, hs⟩ := ih' hv
    refine ⟨culprit, hs.after fun t ht => ?_⟩
    rw [settle_of_ok ho, Resolution.attempts_after, List.mem_append, List.mem_singleton] at ht
    rcases ht with ht | rfl
    · exact above.all_succeed hv' t ht
    · exact succeeds_of_ok ho

/-- The kind that is blamed is the one whose attempt failed. -/
theorem Stops.culprit?_eq (h : Stops d r e culprit) : r.culprit? = culprit := by
  have hpass : ∀ ts : List (Attempt τ ν), (∀ t ∈ ts, t.succeeds = true) →
      ts.find? (fun t => !t.succeeds) = none := by
    intro ts hts
    exact List.find?_eq_none.2 fun t ht => by simp [hts t ht]
  cases h with
  | circle all => rw [Resolution.culprit?, hpass _ all]; rfl
  | collision _ _ all => rw [Resolution.culprit?, hpass _ all]; rfl
  | failed _ _ _ ho ht all =>
    rw [Resolution.culprit?, ht, List.find?_append, hpass _ all, Option.none_or,
      List.find?_singleton, not_succeeds_of_error ho]
    rfl

/-- What succeeded is not to blame. -/
theorem Stops.kind_ne (h : Stops d r e culprit) (hnodup : (r.attempts.map Attempt.name).Nodup)
    {t : Attempt τ ν} (ht : t ∈ r.attempts) (hok : t.succeeds = true) :
    some t.item.kind ≠ culprit := by
  cases h with
  | circle => simp
  | collision => simp
  | @failed a e call hs ts _ _ _ ho heq _ =>
    intro hkind
    have hname : t.name = (attempt d r.graph a).name := by
      rw [Attempt.name, Attempt.name, Option.some.inj hkind, attempt_item]
    have hmem : attempt d r.graph a ∈ r.attempts := by simp [heq]
    -- no name is attempted twice, so it would be the attempt that failed
    rw [List.inj_on_of_nodup_map hnodup ht hmem hname, not_succeeds_of_error ho] at hok
    cases hok

/-- **What is new was made completely.** -/
theorem Search.complete (h : Search d [] [a] g r) {n : String} {b : Item τ ν}
    (hg : g.assets.get? n = none) (hb : r.graph.assets.get? n = some b) :
    Complete d g a r.graph b := by
  have hm := h.successes
  obtain ⟨t, ht, hkind, hvalue⟩ := hm.exists_of_new hg hb
  obtain ⟨v, heq, ready, ho, hbefore, hafter⟩ := hm.of_mem ht
  have hneeded := h.needed t (List.mem_of_mem_filter ht)
  have hmeans : Means d g.files t.graph.parents t.item v :=
    hbefore.files ▸ means_of_attempt (heq ▸ ho)
  obtain rfl : v = b.value := Except.ok.inj (ho.symm.trans hvalue)
  have hentry : b = ⟨t.item.kind, b.value⟩ := by rw [hkind]
  rw [hentry]
  exact .intro hneeded hbefore ready hmeans hafter

/-! ## Two searches that come together -/

/-- **A search that goes on, and one that starts afresh**: from `g₁`, where
`kept` has been made already, and from `g₂`, where it has not. -/
inductive Joins (d : Declarations τ ν) (path : List String) (as : List (Item τ ν))
    (g₁ g₂ : Graph τ ν) (kept : List (Attempt τ ν)) : Prop
  | intro {again fresh : Resolution τ ν} (left : Search d path as g₁ again)
      (right : Search d path as g₂ fresh) (verdict : again.verdict = fresh.verdict)
      (graph : again.graph = fresh.graph) (attempts : fresh.attempts = kept ++ again.attempts)

namespace Joins

/-- From one graph there is one search. -/
theorem refl (d : Declarations τ ν) (path : List String) (as : List (Item τ ν)) (g : Graph τ ν) :
    Joins d path as g g [] := by
  obtain ⟨r, h⟩ := exists_search d path as g
  exact .intro h h rfl rfl rfl

/-- An asset that both find is no matter. -/
theorem present (h₁ : g₁.contains a.kind = true) (h₂ : g₂.contains a.kind = true)
    (h : Joins d path as g₁ g₂ kept) : Joins d path (a :: as) g₁ g₂ kept := by
  obtain ⟨v₁, hv₁⟩ := contains_iff.1 h₁
  obtain ⟨v₂, hv₂⟩ := contains_iff.1 h₂
  obtain ⟨left, right, hv, hg, hk⟩ := h
  exact .intro (.present hv₁ rfl left) (.present hv₂ rfl right) hv hg hk

/-- **Searches that come together above an asset make it alike**, or both
do not make it. -/
theorem of_parents (h₁ : g₁.held? a.kind = none) (h₂ : g₂.held? a.kind = none)
    (hpath : Kind.name a.kind ∉ path)
    (h : Joins d (path ++ [Kind.name a.kind]) (d.parents a) g₁ g₂ kept) :
    Joins d path (a :: as) g₁ g₂ kept := by
  obtain @⟨again, fresh, left, right, hv, hg, hk⟩ := h
  cases hverdict : again.verdict with
  | error e =>
    have hfresh : fresh.verdict = .error e := hv ▸ hverdict
    exact .intro (.blocked h₁ hpath left hverdict) (.blocked h₂ hpath right hfresh) hv hg hk
  | ok u =>
    have hfresh : fresh.verdict = .ok () := hv ▸ hverdict
    -- the asset is attempted on the same graph, and the rest is searched from the same
    cases ho : (attempt d again.graph a).outcome with
    | error e =>
      have ho' : (attempt d fresh.graph a).outcome = .error e := hg ▸ ho
      refine .intro (.failed h₁ hpath left hverdict ho) (.failed h₂ hpath right hfresh ho') ?_ ?_ ?_
      · rw [Resolution.verdict_after, Resolution.verdict_after, hg]
      · rw [Resolution.graph_after, Resolution.graph_after, hg]
      · rw [Resolution.attempts_after, Resolution.attempts_after, hg, hk, List.append_assoc]
    | ok v =>
      have ho' : (attempt d fresh.graph a).outcome = .ok v := hg ▸ ho
      obtain ⟨r', rest⟩ := exists_search d path as (again.graph.put a.kind v)
      have rest' : Search d path as (fresh.graph.put a.kind v) r' := hg ▸ rest
      refine .intro (.made h₁ hpath left hverdict ho rest)
        (.made h₂ hpath right hfresh ho' rest') rfl rfl ?_
      simp only [Resolution.attempts_after, hg, hk, List.append_assoc]

/-- What one finds, the other makes. -/
theorem made {v : ν} (h₁ : g₁.contains a.kind = true) (h₂ : g₂.held? a.kind = none)
    (hpath : Kind.name a.kind ∉ path)
    (above : Search d (path ++ [Kind.name a.kind]) (d.parents a) g₂ r) (hok : r.verdict = .ok ())
    (ho : (attempt d r.graph a).outcome = .ok v)
    (h : Joins d path as g₁ (r.graph.put a.kind v) kept) :
    Joins d path (a :: as) g₁ g₂ ((r.attempts ++ [attempt d r.graph a]) ++ kept) := by
  obtain ⟨w, hw⟩ := contains_iff.1 h₁
  obtain ⟨left, right, hv, hg, hk⟩ := h
  refine .intro (.present hw rfl left) (.made h₂ hpath above hok ho right) hv hg ?_
  simp only [settle_of_ok ho, Resolution.attempts_after, hk, Resolution.found, List.nil_append,
    List.append_assoc]

end Joins

/-- A search that finds everything in its place. -/
theorem exists_search_present (d : Declarations τ ν) (path : List String)
    (has : ∀ a ∈ as, g.contains a.kind = true) :
    ∃ r, Search d path as g r ∧ r.verdict = .ok () ∧ r.graph = g ∧ r.attempts = [] := by
  induction as with
  | nil => exact ⟨_, .done, rfl, rfl, rfl⟩
  | cons a as ih =>
    obtain ⟨r, h, hv, hg, ht⟩ := ih fun b hb => has b (List.mem_cons_of_mem _ hb)
    obtain ⟨v, hheld⟩ := contains_iff.1 (has a List.mem_cons_self)
    exact ⟨_, .present hheld rfl h, hv, hg, ht⟩

/-! ## Under declarations that were mended -/

theorem attempt_congr (hl : d'.load a = d.load a)
    (hg : ∀ w, d'.generate ⟨a.kind, w⟩ = d.generate ⟨a.kind, w⟩) :
    attempt d' g a = attempt d g a := by
  have hm : materialise d' g a = materialise d g a := by
    simp only [materialise, hl, hg]
  simp only [attempt, hm]

omit [Kind τ] [DecidableEq τ] in
theorem Declarations.AgreesOutside.parents_eq (h : d'.AgreesOutside d culprit) :
    d'.parents = d.parents := by
  funext a
  have hunmade : d'.unmade = d.unmade := by
    funext u
    rw [Declarations.unmade, Declarations.unmade, h.blank]
  rw [Declarations.parents, Declarations.parents, h.dependencies, hunmade]

theorem settle_congr (h : attempt d' g a = attempt d g a) : settle d' g a = settle d g a := by
  simp only [settle, h]

/-- A search is the same search where each attempt of it comes out the
same. -/
theorem Search.replay (hp : d'.parents = d.parents) (h : Search d path as g r)
    (ht : ∀ t ∈ r.attempts, attempt d' t.graph t.item = t) : Search d' path as g r := by
  induction h with
  | done => exact .done
  | present hheld hkind _ ih => exact .present hheld hkind (ih ht)
  | collides hheld hkind => exact .collides hheld hkind
  | circle hheld hpath => exact .circle hheld hpath
  | blocked hheld hpath _ hv ih => exact .blocked hheld hpath (hp ▸ ih ht) hv
  | @failed _ a _ _ r e hheld hpath _ hv ho ih =>
    rw [settle_of_error ho, Resolution.attempts_after, List.forall_mem_append,
      List.forall_mem_singleton] at ht
    have hself : attempt d' r.graph a = attempt d r.graph a := ht.2
    rw [← settle_congr hself]
    exact .failed hheld hpath (hp ▸ ih ht.1) hv (hself ▸ ho)
  | @made _ a _ _ r r' v hheld hpath _ hv ho _ ih ih' =>
    rw [settle_of_ok ho, Resolution.attempts_after, Resolution.attempts_after,
      List.forall_mem_append, List.forall_mem_append, List.forall_mem_singleton] at ht
    have hself : attempt d' r.graph a = attempt d r.graph a := ht.1.2
    rw [← settle_congr hself]
    exact .made hheld hpath (hp ▸ ih ht.1.1) hv (hself ▸ ho) (ih' ht.2)

/-- **A failed search can be taken up again**, under declarations for which
all that was made is made the same. -/
theorem Search.joins (hp : d'.parents = d.parents) (h : Search d path as g r)
    (hv : r.verdict = .error e)
    (ht : ∀ t ∈ r.attempts, t.succeeds = true → attempt d' t.graph t.item = t) :
    Joins d' path as r.graph g (r.attempts.filter Attempt.succeeds) := by
  induction h with
  | done => cases hv
  | @present _ a _ g h _ hheld hkind rest ih =>
    have hin : g.contains a.kind = true := contains_iff.2 ⟨h.value, by rw [hheld, ← hkind]⟩
    exact (ih hv ht).present (rest.grows.contains hin) hin
  | collides => exact .refl _ _ _ _
  | circle => exact .refl _ _ _ _
  | blocked hheld hpath above _ ih =>
    exact (hp ▸ ih hv ht).of_parents (above.free_self hheld) hheld hpath
  | @failed path a _ g r e hheld hpath above hok ho _ =>
    have hall := above.all_succeed hok
    rw [settle_of_error ho, Resolution.attempts_after, List.forall_mem_append] at ht
    rw [settle_of_error ho, Resolution.attempts_after, List.filter_append,
      List.filter_eq_self.2 hall, List.filter_singleton, not_succeeds_of_error ho]
    -- the parents are made in the fresh search, and found in the other
    have hmade := above.replay hp fun t hm => ht.1 t hm (hall t hm)
    obtain ⟨s, hfound, hs, hsg, hst⟩ :=
      exists_search_present d' (path ++ [Kind.name a.kind]) (above.contains hok)
    have hparents : Joins d' (path ++ [Kind.name a.kind]) (d'.parents a) r.graph g r.attempts :=
      .intro (hp ▸ hfound) (hp ▸ hmade) (hs.trans hok.symm) hsg (by rw [hst, List.append_nil])
    simpa using hparents.of_parents (above.free_self hheld) hheld hpath
  | @made path a _ g r r' v hheld hpath above hok ho rest _ ih' =>
    have hall := above.all_succeed hok
    rw [settle_of_ok ho] at ht ⊢
    simp only [Resolution.attempts_after, List.forall_mem_append, List.forall_mem_singleton] at ht
    simp only [Resolution.attempts_after, List.filter_append, List.filter_eq_self.2 hall,
      List.filter_singleton, succeeds_of_ok ho]
    have hself : attempt d' r.graph a = attempt d r.graph a := ht.1.2 (succeeds_of_ok ho)
    have hmade := above.replay hp fun t hm => ht.1.1 t hm (hall t hm)
    have hin : r'.graph.contains a.kind = true :=
      rest.grows.contains (contains_iff.2 ⟨v, held?_put_self⟩)
    rw [← hself]
    exact (ih' hv ht.2).made hin hheld hpath (hp ▸ hmade) hok (hself ▸ ho)

/-- **A resolution that failed can be gone on with.** What was there is
there, what is new was made completely, and the failure came last. Under any
declarations that differ in the functions of the kind that failed, and in
those of no kind if none failed, resolving again on the graph that was left
ends as resolving from the start does, verdict and graph: the second makes
what the first had kept and then does what the first does, and no function
is called of an asset that was kept. -/
theorem resolve_resumes (d : Declarations τ ν) (g : Graph τ ν) (t : τ) (v : ν) {e : Error}
    (h : (g.resolve d t v).verdict = .error e) :
    let r := g.resolve d t v
    (∀ n b, g.assets.get? n = some b → r.graph.assets.get? n = some b) ∧
    (∀ n b, g.assets.get? n = none → r.graph.assets.get? n = some b →
      Complete d g ⟨t, v⟩ r.graph b) ∧
    Stops d r e r.culprit? ∧
    ∀ d' : Declarations τ ν, d'.AgreesOutside d r.culprit? →
      let again := r.graph.resolve d' t v
      let fresh := g.resolve d' t v
      again.verdict = fresh.verdict ∧ again.graph = fresh.graph ∧
      fresh.attempts = r.attempts.filter Attempt.succeeds ++ again.attempts ∧
      ∀ k ∈ again.happenings.filterMap Happening.calls?, Kind.name k ∉ r.graph.names := by
  intro r
  have hs : Search d [] [⟨t, v⟩] g r := search_resolve d t g v
  obtain ⟨culprit, hstops⟩ := hs.stops h
  obtain rfl := hstops.culprit?_eq
  refine ⟨hs.grows.kept, fun n b => hs.complete, hstops, ?_⟩
  intro d' hd again fresh
  have hagain : Search d' [] [⟨t, v⟩] r.graph again := search_resolve d' t r.graph v
  have hfresh : Search d' [] [⟨t, v⟩] g fresh := search_resolve d' t g v
  have hrepeat : ∀ x ∈ r.attempts, x.succeeds = true → attempt d' x.graph x.item = x := by
    intro x hx hok
    have hne := hstops.kind_ne hs.attempts_nodup hx hok
    have heq : attempt d' x.graph x.item = attempt d x.graph x.item :=
      attempt_congr (hd.load x.item hne) fun w => hd.generate ⟨x.item.kind, w⟩ hne
    rw [heq, ← (hs.attempt_free x hx).1]
  obtain ⟨left, right, hv, hg, hk⟩ := hs.joins hd.parents_eq h hrepeat
  -- the two resolutions are the searches that come together
  rw [left.unique hagain] at hv hg hk
  rw [right.unique hfresh] at hv hg hk
  refine ⟨hv, hg, hk, fun k hk hn => ?_⟩
  obtain ⟨b, hb⟩ := mem_names.1 hn
  rw [show r.graph.assets.get? _ = none from hagain.free_of_call hk] at hb
  cases hb

end Provision.Asset

/-! ## A rehearsal -/

namespace Provision.Rehearsal

open Asset

/-- The diamond with a side that cannot be generated. -/
def brokenDiamond : Cast := fun r =>
  { diamond r with fails := if r.id = "n2" then some "no stone" else none }

/-- A diamond that breaks at its second side, when the point and the first
side are there, and is mended: it comes out as if it had never been broken. -/
theorem resolve_resumes_diamond :
    let r := (Graph.withFiles shelf).resolve brokenDiamond.declarations (.node 0) ""
    r.verdict = .error (.generate "n2" (.ofText "no stone")) ∧ r.culprit? = some (.node 2) ∧
    diamond.declarations.AgreesOutside brokenDiamond.declarations r.culprit? ∧
    (r.graph.resolve diamond.declarations (.node 0) "").verdict =
      ((Graph.withFiles shelf).resolve diamond.declarations (.node 0) "").verdict ∧
    (r.graph.resolve diamond.declarations (.node 0) "").graph =
      ((Graph.withFiles shelf).resolve diamond.declarations (.node 0) "").graph := by
  have hv : ((Graph.withFiles shelf).resolve brokenDiamond.declarations (.node 0) "").verdict =
      .error (.generate "n2" (.ofText "no stone")) :=
    look_resolve Resolution.verdict 9 rfl
  have hculprit : ((Graph.withFiles shelf).resolve brokenDiamond.declarations (.node 0)
      "").culprit? = some (.node 2) :=
    look_resolve Resolution.culprit? 9 rfl
  intro r
  have hd : diamond.declarations.AgreesOutside brokenDiamond.declarations r.culprit? := by
    rw [hculprit]
    refine ⟨rfl, rfl, fun a _ => rfl, fun a ha => ?_⟩
    have hid : ∀ r ∈ Role.all, r.id = "n2" → r = .node 2 := by decide
    have hside : a.kind.id ≠ "n2" :=
      fun heq => ha (congrArg some (hid a.kind (Role.mem_all a.kind) heq))
    have hpart : brokenDiamond a.kind = diamond a.kind := by
      simp [brokenDiamond, hside, diamond, Part.plain]
    simp only [Cast.declarations, hpart]
  obtain ⟨-, -, -, hresume⟩ := resolve_resumes _ _ _ _ hv
  exact ⟨hv, hculprit, hd, (hresume _ hd).1, (hresume _ hd).2.1⟩

end Provision.Rehearsal
