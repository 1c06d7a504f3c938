import Provision.Proofs.Resolution.History
/-!
# Resolution — integrity

The *moments* of a history are the states of a graph between operations, and
those within a resolution at which an asset is set about. From each moment
to every later one the graph keeps its kinds, an asset that was made stays,
and so do the parents that it asked for: **what a generator saw is there for
good**. Putting an asset in its place looks at no kind; that no other kind
has come there in the meantime is because the name was being worked on, and
names being worked on stay free (`Search.free`).
-/

namespace Provision.Asset

open Asset.Graph

variable {τ ν : Type} [Kind τ]

/-- What a graph goes through. -/
inductive Moment (τ ν : Type) [Kind τ] where
  /-- Nothing is being done. -/
  | rest (g : Graph τ ν)
  /-- An asset is set about in a resolution. -/
  | making (d : Declarations τ ν) (x : Attempt τ ν)

/-- The graph at a moment. -/
def Moment.graph : Moment τ ν → Graph τ ν
  | rest g => g
  | making _ x => x.graph

/-- **From one moment to a later one** kinds are kept; and if an asset was
made at the first, it is there at the second, with the parents that it
asked for, each of the kind that was asked for. -/
structure Moment.Keeps [DecidableEq τ] (m m' : Moment τ ν) : Prop where
  kinds : KeepsKinds m.graph m'.graph
  made : ∀ d x v, m = .making d x → x.outcome = .ok v →
    m'.graph.contains x.item.kind = true ∧
      ∀ u ∈ d.dependencies x.item, m'.graph.contains u = true

variable [DecidableEq τ] {d : Declarations τ ν} {g g' : Graph τ ν} {as : List (Item τ ν)}
variable {path : List String} {r : Resolution τ ν} {x : Attempt τ ν}

namespace Graph

/-- The moments within an operation. -/
def inner (g : Graph τ ν) : Operation τ ν → List (Moment τ ν)
  | .resolve d t v => (g.resolve d t v).attempts.map (.making d)
  | _ => []

/-- **The moments of a history**, in order. -/
def moments (g : Graph τ ν) : List (Operation τ ν) → List (Moment τ ν)
  | [] => [.rest g]
  | o :: os => .rest g :: (g.inner o ++ (g.perform o).moments os)

end Graph

/-! ## Within a resolution -/

theorem Attempted.keeps (h : Attempted d g x g') {m : Moment τ ν}
    (hm : KeepsKinds g' m.graph) : Moment.Keeps (.making d x) m := by
  refine ⟨h.after.keepsKinds.trans hm, fun d' x' v heq hv => ?_⟩
  cases heq
  refine ⟨hm.contains ((h.kept v hv).contains ?_), fun u hu => ?_⟩
  · exact contains_iff.2 ⟨v, held?_put_self⟩
  · exact hm.contains (h.after.contains (h.ready.parents u hu))

/-- Assets that are made one after the other are kept by those that come
after. -/
theorem Makes.pairwise_keeps {ts : List (Attempt τ ν)} (h : Makes d g ts g') :
    (ts.map (Moment.making d)).Pairwise Moment.Keeps := by
  induction h with
  | nil => exact List.Pairwise.nil
  | @cons g g' a v ts ready ho rest ih =>
    have hfirst : Attempted d g (attempt d g a) (g.put a.kind v) :=
      (Makes.single ready ho).attempted List.mem_cons_self
    rw [List.map_cons, List.pairwise_cons]
    refine ⟨fun m hm => ?_, ih⟩
    obtain ⟨t, ht, rfl⟩ := List.mem_map.1 hm
    exact hfirst.keeps (rest.attempted ht).before.keepsKinds

theorem Search.pairwise_keeps (h : Search d path as g r) :
    (r.attempts.map (Moment.making d)).Pairwise Moment.Keeps := by
  obtain ⟨ts, hm, he⟩ := h.makes
  cases he with
  | complete _ heq => exact heq ▸ hm.pairwise_keeps
  | circle _ _ heq => exact heq ▸ hm.pairwise_keeps
  | collision _ _ _ _ _ heq => exact heq ▸ hm.pairwise_keeps
  | failed b e _ _ _ heq =>
    rw [heq, List.map_append, List.pairwise_append]
    refine ⟨hm.pairwise_keeps, List.pairwise_singleton _ _, fun m hmem m' hmem' => ?_⟩
    -- the attempt that fails sees all that was made
    obtain ⟨t, ht, rfl⟩ := List.mem_map.1 hmem
    rw [List.map_singleton, List.mem_singleton] at hmem'
    subst hmem'
    exact (hm.attempted ht).keeps (.refl _)

namespace Graph

/-! ## Along a history -/

theorem exists_of_mem_inner {o : Operation τ ν} {m : Moment τ ν} (hm : m ∈ g.inner o) :
    ∃ d x, m = .making d x ∧ Attempted d g x (g.perform o) := by
  cases o with
  | resolve d t v =>
    obtain ⟨x, hx, rfl⟩ := List.mem_map.1 hm
    exact ⟨d, x, rfl, (search_resolve d t g v).attempted_of_mem hx⟩
  | set t v => cases hm
  | modify t f => cases hm

/-- **A graph keeps its kinds through all its moments.** -/
theorem keepsKinds_of_mem_moments {os : List (Operation τ ν)} {m : Moment τ ν}
    (hm : m ∈ g.moments os) : KeepsKinds g m.graph := by
  induction os generalizing g with
  | nil =>
    rw [moments, List.mem_singleton] at hm
    exact hm ▸ .refl g
  | cons o os ih =>
    rw [moments, List.mem_cons, List.mem_append] at hm
    rcases hm with rfl | hm | hm
    · exact .refl g
    · obtain ⟨d, x, rfl, hx⟩ := exists_of_mem_inner hm
      exact hx.before.keepsKinds
    · exact (g.perform_keepsKinds o).trans (ih hm)

/-- **Each moment is kept by those that come after.** -/
theorem pairwise_moments (g : Graph τ ν) (os : List (Operation τ ν)) :
    (g.moments os).Pairwise Moment.Keeps := by
  have hrest : ∀ {g : Graph τ ν} {m : Moment τ ν}, KeepsKinds g m.graph →
      Moment.Keeps (.rest g) m := by
    intro g m h
    exact ⟨h, fun d x v heq => by cases heq⟩
  induction os generalizing g with
  | nil => exact List.pairwise_singleton _ _
  | cons o os ih =>
    rw [moments, List.pairwise_cons, List.pairwise_append]
    refine ⟨fun m hm => hrest ?_, ?_, ih (g.perform o), fun m hm m' hm' => ?_⟩
    · have hlater : m ∈ g.moments (o :: os) := List.mem_cons_of_mem _ hm
      exact keepsKinds_of_mem_moments hlater
    · cases o with
      | resolve d t v => exact (search_resolve d t g v).pairwise_keeps
      | set t v => exact List.Pairwise.nil
      | modify t f => exact List.Pairwise.nil
    · obtain ⟨d, x, rfl, hx⟩ := exists_of_mem_inner hm
      exact hx.keeps (keepsKinds_of_mem_moments hm')

/-- An asset is set about when all that it asks for is there. -/
theorem ready_of_mem_moments {os : List (Operation τ ν)} (hm : .making d x ∈ g.moments os) :
    x = attempt d x.graph x.item ∧ Ready d x.graph x.item := by
  induction os generalizing g with
  | nil => simp [moments] at hm
  | cons o os ih =>
    rw [moments, List.mem_cons, List.mem_append] at hm
    rcases hm with hm | hm | hm
    · cases hm
    · obtain ⟨d', x', heq, hx⟩ := exists_of_mem_inner hm
      cases heq
      exact ⟨hx.eq_attempt, hx.ready⟩
    · exact ih hm

/-! ## A name that is taken -/

/-- **Another kind is refused** under a name that is taken, and the graph
stays as it was. -/
theorem set_of_taken {t : τ} {h : Item τ ν} (hheld : g.held? t = some h) (hkind : h.kind ≠ t)
    (v : ν) : g.set t v = .error (collision h.kind t) ∧ g.perform (.set t v) = g := by
  have hset : g.set t v = .error (collision h.kind t) := by
    rw [Graph.set, hheld]
    exact if_neg hkind
  refine ⟨hset, ?_⟩
  simp only [perform, hset]

theorem resolve_of_taken {t : τ} {h : Item τ ν} (hheld : g.held? t = some h)
    (hkind : h.kind ≠ t) (d : Declarations τ ν) (v : ν) :
    g.resolve d t v = .refused g (collision h.kind t) :=
  (search_resolve d t g v).unique (.collides hheld hkind)

end Graph

/-- **Graphs have integrity in every moment of every history**, whatever is
declared and whatever fails. From each moment to every later one kinds are
kept, and assets that were made stay, with the parents that they asked for.
Another kind is refused under a name that is taken. Whenever an asset is set
about, its generator finds all parents that it declares. And whatever a
resolution adds, or generates, it does in an attempt. -/
theorem history_integrity (g : Graph τ ν) (ops : List (Operation τ ν)) :
    (g.moments ops).Pairwise Moment.Keeps ∧
    (∀ m ∈ g.moments ops, ∀ t h, m.graph.held? t = some h → h.kind ≠ t → ∀ v,
      (m.graph.set t v = .error (collision h.kind t) ∧ m.graph.perform (.set t v) = m.graph) ∧
      ∀ d, m.graph.resolve d t v = .refused m.graph (collision h.kind t)) ∧
    (∀ d x, .making d x ∈ g.moments ops → x = attempt d x.graph x.item ∧
      ∀ u ∈ d.dependencies x.item, ∃ w, x.graph.parents u = .ok w) ∧
    ∀ m ∈ g.moments ops, ∀ d t v,
      let r := m.graph.resolve d t v
      (∀ n b, m.graph.assets.get? n = none → r.graph.assets.get? n = some b →
        ∃ x ∈ r.attempts, x.item.kind = b.kind ∧ x.outcome = .ok b.value) ∧
      r.happenings.filterMap Happening.generates? =
        r.attempts.flatMap fun x => x.happenings.filterMap Happening.generates? := by
  refine ⟨pairwise_moments g ops, fun m _ t h hheld hkind v => ?_, fun d x hm => ?_,
    fun m _ d t v => ⟨fun n b hfree hb => ?_, ?_⟩⟩
  · exact ⟨set_of_taken hheld hkind v, fun d => resolve_of_taken hheld hkind d v⟩
  · obtain ⟨heq, hready⟩ := ready_of_mem_moments hm
    refine ⟨heq, fun u hu => ?_⟩
    obtain ⟨w, hw⟩ := contains_iff.1 (hready.parents u hu)
    exact ⟨w, parents_of_get? (get?_eq_some_iff.2 hw)⟩
  · obtain ⟨x, hx, hkind, ho⟩ := (search_resolve d t m.graph v).successes.exists_of_new hfree hb
    exact ⟨x, (List.mem_filter.1 hx).1, hkind, ho⟩
  · exact (search_resolve d t m.graph v).filterMap_happenings _ fun _ => rfl

end Provision.Asset
