import Provision.Proofs.Resolution.Search
/-!
# Resolution — the search as a sequence of attempts

Whatever way the search takes, all it does to the graph is to make assets,
one at a time, each when **its name is free and all its parents are there**
(`Ready`). So a resolution is a sequence of makings, `Makes`, after which it
ends in one of four ways, `Ends`. What holds of the graph between two
makings is read off the sequence, and the path is never looked at again.
-/

namespace Provision.Asset

open Asset.Graph

variable {τ ν : Type} [Kind τ]

namespace Graph

/-- **A graph grows**: it keeps its files and every entry. -/
structure Grows (g g' : Graph τ ν) : Prop where
  /-- The files are the same. -/
  files : g'.files = g.files
  /-- No entry is lost or changed. -/
  kept : ∀ n h, g.assets.get? n = some h → g'.assets.get? n = some h

namespace Grows

variable {g g' g'' : Graph τ ν}

theorem refl (g : Graph τ ν) : Grows g g := ⟨rfl, fun _ _ h => h⟩

theorem trans (h : Grows g g') (h' : Grows g' g'') : Grows g g'' :=
  ⟨h'.files.trans h.files, fun n a ha => h'.kept n a (h.kept n a ha)⟩

/-- What is absent later was absent before. -/
theorem absent (h : Grows g g') {n : String} (hn : g'.assets.get? n = none) :
    g.assets.get? n = none := by
  cases hg : g.assets.get? n with
  | none => rfl
  | some a => rw [h.kept n a hg] at hn; cases hn

end Grows

variable {g g' : Graph τ ν} {t : τ} {v : ν}

/-- The names of a graph are those under which something stands. -/
theorem mem_names {n : String} : n ∈ g.names ↔ ∃ a, g.assets.get? n = some a := by
  rw [names, List.mem_mergeSort, Table.mem_keys_iff, Option.isSome_iff_exists]

theorem assets_put (n : String) :
    (g.put t v).assets.get? n = if Kind.name t = n then some ⟨t, v⟩ else g.assets.get? n :=
  Table.get?_insert ..

@[simp] theorem held?_put_self : (g.put t v).held? t = some ⟨t, v⟩ :=
  Table.get?_insert_self ..

/-- A name that is free can be taken without loss. -/
theorem grows_put (h : g.held? t = none) : Grows g (g.put t v) := by
  refine ⟨rfl, fun n a ha => ?_⟩
  rw [assets_put]
  split
  · next heq =>
    subst heq
    rw [show g.assets.get? (Kind.name t) = none from h] at ha
    cases ha
  · exact ha

variable [DecidableEq τ]

theorem get?_eq_some_iff : g.get? t = some v ↔ g.held? t = some ⟨t, v⟩ := by
  rw [get?]
  cases h : g.held? t with
  | none => simp
  | some a =>
    obtain ⟨k, x⟩ := a
    by_cases hk : k = t
    · subst hk
      simp
    · simp [hk]

theorem contains_iff : g.contains t = true ↔ ∃ v, g.held? t = some ⟨t, v⟩ := by
  simp only [contains, Option.isSome_iff_exists, get?_eq_some_iff]

/-- A parent that is there is seen by the generator. -/
theorem parents_of_get? (h : g.get? t = some v) : g.parents t = .ok v := by
  rw [parents, h]

theorem Grows.get? (h : Grows g g') (hv : g.get? t = some v) : g'.get? t = some v :=
  get?_eq_some_iff.2 (h.kept _ _ (get?_eq_some_iff.1 hv))

theorem Grows.contains (h : Grows g g') (ht : g.contains t = true) : g'.contains t = true := by
  obtain ⟨v, hv⟩ := contains_iff.1 ht
  exact contains_iff.2 ⟨v, h.kept _ _ hv⟩

end Graph

variable [DecidableEq τ] {d : Declarations τ ν} {path : List String} {as : List (Item τ ν)}
variable {g g' g'' : Graph τ ν} {r : Resolution τ ν}

/-! ## What the search keeps -/

/-- **A name that is being worked on stays free** until the work is done. -/
theorem Search.free (h : Search d path as g r) {n : String} (hn : n ∈ path)
    (hg : g.assets.get? n = none) : r.graph.assets.get? n = none := by
  induction h with
  | done => exact hg
  | present _ _ _ ih => exact ih hn hg
  | collides => exact hg
  | circle => exact hg
  | blocked _ _ _ _ ih => exact ih (List.mem_append_left _ hn) hg
  | failed _ _ _ _ ho ih =>
    rw [Resolution.graph_after, settle_of_error ho]
    exact ih (List.mem_append_left _ hn) hg
  | @made _ a _ _ _ _ _ _ hpath _ _ _ _ ih ih' =>
    -- what is put is no name of the path: that would have been a circle
    have hne : Kind.name a.kind ≠ n := fun heq => hpath (heq ▸ hn)
    refine ih' hn ?_
    rw [assets_put, if_neg hne]
    exact ih (List.mem_append_left _ hn) hg

/-- So an asset's own name is free when its parents have been searched. -/
theorem Search.free_self {a : Item τ ν}
    (h : Search d (path ++ [Kind.name a.kind]) (d.parents a) g r) (hg : g.held? a.kind = none) :
    r.graph.held? a.kind = none :=
  h.free (List.mem_append_right _ (List.mem_singleton_self _)) hg

/-- **The search loses nothing.** -/
theorem Search.grows (h : Search d path as g r) : Grows g r.graph := by
  induction h with
  | done => exact .refl _
  | present _ _ _ ih => exact ih
  | collides => exact .refl _
  | circle => exact .refl _
  | blocked _ _ _ _ ih => exact ih
  | failed _ _ _ _ ho ih =>
    rw [Resolution.graph_after, settle_of_error ho]
    exact ih
  | made hheld _ above _ _ _ ih ih' =>
    exact (ih.trans (grows_put (above.free_self hheld))).trans ih'

/-- A search that succeeds has found or made all that was asked for. -/
theorem Search.contains (h : Search d path as g r) (hv : r.verdict = .ok ()) :
    ∀ a ∈ as, r.graph.contains a.kind = true := by
  induction h with
  | done => intro a ha; cases ha
  | @present _ a _ _ h _ hheld hkind rest ih =>
    intro b hb
    rcases List.mem_cons.1 hb with rfl | hb
    · refine rest.grows.contains (contains_iff.2 ⟨h.value, ?_⟩)
      rw [hheld, ← hkind]
    · exact ih hv b hb
  | collides => cases hv
  | circle => cases hv
  | blocked _ _ _ he => rw [he] at hv; cases hv
  | failed _ _ _ _ ho => rw [Resolution.verdict_after, settle_of_error ho] at hv; cases hv
  | @made _ a _ _ _ _ v _ _ _ _ _ rest _ ih' =>
    intro b hb
    rcases List.mem_cons.1 hb with rfl | hb
    · exact rest.grows.contains (contains_iff.2 ⟨v, held?_put_self⟩)
    · exact ih' hv b hb

/-! ## The sequence -/

/-- The turn of an asset has come: its name is free, and its parents are
all there. -/
structure Ready (d : Declarations τ ν) (g : Graph τ ν) (a : Item τ ν) : Prop where
  /-- Nothing stands under its name. -/
  free : g.held? a.kind = none
  /-- Each kind that it depends on has its asset. -/
  parents : ∀ u ∈ d.dependencies a, g.contains u = true

/-- When the parents of an asset have been searched with success, its turn
has come. -/
theorem Search.ready {a : Item τ ν}
    (h : Search d (path ++ [Kind.name a.kind]) (d.parents a) g r) (hg : g.held? a.kind = none)
    (hv : r.verdict = .ok ()) : Ready d r.graph a :=
  ⟨h.free_self hg, fun u hu => h.contains hv (d.unmade u) (List.mem_map_of_mem hu)⟩

/-- **Assets are made one after the other**, each in its turn. -/
inductive Makes (d : Declarations τ ν) : Graph τ ν → List (Attempt τ ν) → Graph τ ν → Prop
  /-- No asset is made. -/
  | nil (g : Graph τ ν) : Makes d g [] g
  /-- One is made and put in its place, and then others. -/
  | cons {g g' : Graph τ ν} {a : Item τ ν} {v : ν} {ts : List (Attempt τ ν)}
      (ready : Ready d g a) (ho : (attempt d g a).outcome = .ok v)
      (rest : Makes d (g.put a.kind v) ts g') : Makes d g (attempt d g a :: ts) g'

namespace Makes

variable {ts ts' : List (Attempt τ ν)}

theorem append (h : Makes d g ts g') (h' : Makes d g' ts' g'') : Makes d g (ts ++ ts') g'' := by
  induction h with
  | nil => exact h'
  | cons ready ho _ ih => exact .cons ready ho (ih h')

theorem single {a : Item τ ν} {v : ν} (ready : Ready d g a)
    (ho : (attempt d g a).outcome = .ok v) : Makes d g [attempt d g a] (g.put a.kind v) :=
  .cons ready ho (.nil _)

theorem grows (h : Makes d g ts g') : Grows g g' := by
  induction h with
  | nil => exact .refl _
  | cons ready _ _ ih => exact (grows_put ready.free).trans ih

/-- **What each attempt saw and left**: it came in its turn, on a graph that
grew out of the first, and its value is in the last. -/
theorem of_mem (h : Makes d g ts g') {t : Attempt τ ν} (ht : t ∈ ts) :
    ∃ v, t = attempt d t.graph t.item ∧ Ready d t.graph t.item ∧ t.outcome = .ok v ∧
      Grows g t.graph ∧ Grows (t.graph.put t.item.kind v) g' := by
  induction h with
  | nil => cases ht
  | @cons g g' a v ts ready ho rest ih =>
    rcases List.mem_cons.1 ht with rfl | ht
    · exact ⟨v, rfl, ready, ho, .refl _, rest.grows⟩
    · obtain ⟨w, heq, hready, how, hgrows, hrest⟩ := ih ht
      exact ⟨w, heq, hready, how, (grows_put ready.free).trans hgrows, hrest⟩

/-- **What is new was made**: under a name that was free before and is not
free any more stands the value of some attempt. -/
theorem exists_of_new (h : Makes d g ts g') {n : String} {a : Item τ ν}
    (hg : g.assets.get? n = none) (hg' : g'.assets.get? n = some a) :
    ∃ t ∈ ts, t.item.kind = a.kind ∧ t.outcome = .ok a.value := by
  induction h with
  | nil => rw [hg] at hg'; cases hg'
  | @cons g g' b v ts ready ho rest ih =>
    by_cases hn : Kind.name b.kind = n
    · refine ⟨attempt d g b, List.mem_cons_self, ?_⟩
      have := rest.grows.kept n ⟨b.kind, v⟩ (by rw [assets_put, if_pos hn])
      rw [this] at hg'
      obtain rfl := Option.some.inj hg'
      exact ⟨rfl, ho⟩
    · obtain ⟨t, ht, hs⟩ := ih (by rw [assets_put, if_neg hn]; exact hg) hg'
      exact ⟨t, List.mem_cons_of_mem _ ht, hs⟩

/-- The names of what is made are free before. -/
theorem free (h : Makes d g ts g') {t : Attempt τ ν} (ht : t ∈ ts) :
    g.held? t.item.kind = none := by
  obtain ⟨v, -, hready, -, hgrows, -⟩ := h.of_mem ht
  exact hgrows.absent hready.free

/-- And the assets are there afterwards. -/
theorem contains (h : Makes d g ts g') {t : Attempt τ ν} (ht : t ∈ ts) :
    g'.contains t.item.kind = true := by
  obtain ⟨v, -, -, -, -, hrest⟩ := h.of_mem ht
  exact hrest.contains (contains_iff.2 ⟨v, held?_put_self⟩)

/-- **No name is made twice.** -/
theorem nodup (h : Makes d g ts g') : (ts.map fun t => Kind.name t.item.kind).Nodup := by
  induction h with
  | nil => exact List.nodup_nil
  | @cons g g' a v ts ready ho rest ih =>
    rw [List.map_cons, List.nodup_cons]
    refine ⟨fun hm => ?_, ih⟩
    obtain ⟨t, ht, heq⟩ := List.mem_map.1 hm
    have := rest.free ht
    -- a second attempt would find the value of the first in its place
    rw [Graph.held?, heq, attempt_item, assets_put, if_pos rfl] at this
    cases this

end Makes

/-- How a resolution ends that has made the assets of `ts`. -/
inductive Ends (d : Declarations τ ν) (r : Resolution τ ν) (ts : List (Attempt τ ν)) : Prop
  /-- All is there. -/
  | complete (hv : r.verdict = .ok ()) (ht : r.attempts = ts)
  /-- A name came up again. -/
  | circle (p : List String) (hv : r.verdict = .error (.cycle p)) (ht : r.attempts = ts)
  /-- A name was taken by another kind. -/
  | collision (h : Item τ ν) (t : τ) (hheld : r.graph.held? t = some h) (hkind : h.kind ≠ t)
      (hv : r.verdict = .error (collision h.kind t)) (ht : r.attempts = ts)
  /-- One more asset was set about, and failed. -/
  | failed (a : Item τ ν) (e : Error) (ready : Ready d r.graph a)
      (ho : (attempt d r.graph a).outcome = .error e) (hv : r.verdict = .error e)
      (ht : r.attempts = ts ++ [attempt d r.graph a])

/-- A resolution that succeeds has made what it attempted. -/
theorem Ends.attempts_of_ok {ts : List (Attempt τ ν)} (h : Ends d r ts)
    (hv : r.verdict = .ok ()) : r.attempts = ts := by
  cases h with
  | complete _ ht => exact ht
  | circle _ he => rw [hv] at he; cases he
  | collision _ _ _ _ he => rw [hv] at he; cases he
  | failed _ _ _ _ he => rw [hv] at he; cases he

/-- How a search ends depends on its last part alone. -/
theorem Ends.after {ts ts' : List (Attempt τ ν)} {before : Resolution τ ν} (h : Ends d r ts')
    (hb : before.attempts = ts) : Ends d (r.after before) (ts ++ ts') := by
  cases h with
  | complete hv ht => exact .complete hv (by rw [Resolution.attempts_after, hb, ht])
  | circle p hv ht => exact .circle p hv (by rw [Resolution.attempts_after, hb, ht])
  | collision h t hheld hkind hv ht =>
    exact .collision h t hheld hkind hv (by rw [Resolution.attempts_after, hb, ht])
  | failed a e ready ho hv ht =>
    refine .failed a e ready ho hv ?_
    rw [Resolution.attempts_after, hb, ht, List.append_assoc]
    rfl

/-- **Every search is a sequence of makings and an end.** -/
theorem Search.makes (h : Search d path as g r) : ∃ ts, Makes d g ts r.graph ∧ Ends d r ts := by
  induction h with
  | done => exact ⟨[], .nil _, .complete rfl rfl⟩
  | present _ _ _ ih =>
    obtain ⟨ts, hm, he⟩ := ih
    exact ⟨[] ++ ts, hm, he.after rfl⟩
  | collides hheld hkind => exact ⟨[], .nil _, .collision _ _ hheld hkind rfl rfl⟩
  | circle => exact ⟨[], .nil _, .circle _ rfl rfl⟩
  | blocked _ _ _ _ ih => exact ih
  | @failed _ a _ _ r e hheld _ above hv ho ih =>
    obtain ⟨ts, hm, he⟩ := ih
    rw [settle_of_error ho]
    refine ⟨ts, hm, .failed a e (above.ready hheld hv) ho rfl ?_⟩
    rw [Resolution.attempts_after, he.attempts_of_ok hv]
    rfl
  | @made _ a _ _ r r' v hheld _ above hv ho _ ih ih' =>
    obtain ⟨ts, hm, he⟩ := ih
    obtain ⟨ts', hm', he'⟩ := ih'
    -- what was made for the parents, the asset itself, and the rest
    refine ⟨(ts ++ [attempt d r.graph a]) ++ ts', ?_, he'.after ?_⟩
    · exact (hm.append (.single (above.ready hheld hv) ho)).append hm'
    · rw [settle_of_ok ho, Resolution.attempts_after, he.attempts_of_ok hv]

end Provision.Asset
