import Provision.Proofs.Resolution.Making
import Provision.Rehearsal.Assets
/-!
# Resolution — what a resolved graph means

The declarations alone say what a resolved graph should hold. `Needed` is
the least set of assets that a resolution cannot do without, and `Means`
says which value the declarations give to an asset over its parents. A
resolution that succeeds adds **exactly the assets that are needed**, and
gives each of them **the value that it means over the graph at the end**,
though it was computed over an earlier one (`resolve_meaning`).
-/

namespace Provision.Asset

open Asset.Graph

variable {τ ν : Type}

/-- **The value that an asset means** over its parents: what the files hold
of it, and what its generator makes of it where they hold nothing or there
are none. -/
inductive Means (d : Declarations τ ν) (files : Option Fetcher) (p : Parents τ ν)
    (a : Item τ ν) (v : ν) : Prop
  /-- The files hold it. -/
  | loaded (f : Fetcher) (hf : files = some f) (hl : d.load a f = .ok (true, v))
  /-- The files hold nothing of it. -/
  | generated (f : Fetcher) (w : ν) (hf : files = some f) (hl : d.load a f = .ok (false, w))
      (hg : d.generate ⟨a.kind, w⟩ p = .ok v)
  /-- There are no files. -/
  | unfiled (hf : files = none) (hg : d.generate a p = .ok v)

/-- **Generators read the parents that they declare**, and no others. -/
def Declarations.ReadsDeclared (d : Declarations τ ν) : Prop :=
  ∀ (a : Item τ ν) (w : ν) (p p' : Parents τ ν), (∀ u ∈ d.dependencies a, p u = p' u) →
    d.generate ⟨a.kind, w⟩ p = d.generate ⟨a.kind, w⟩ p'

/-- The parents of an asset come unmade. -/
theorem Declarations.eq_unmade_of_mem_parents (d : Declarations τ ν) {a b : Item τ ν}
    (hb : b ∈ d.parents a) : b = d.unmade b.kind := by
  obtain ⟨u, -, rfl⟩ := List.mem_map.1 hb
  rfl

/-- What an asset means does not change while its parents stay. -/
theorem Means.congr {d : Declarations τ ν} (hd : d.ReadsDeclared) {a : Item τ ν} {v : ν}
    {files : Option Fetcher} {p p' : Parents τ ν} (hp : ∀ u ∈ d.dependencies a, p u = p' u)
    (h : Means d files p a v) : Means d files p' a v := by
  cases h with
  | loaded f hf hl => exact .loaded f hf hl
  | generated f w hf hl hg => exact .generated f w hf hl (hd a w p p' hp ▸ hg)
  | unfiled hf hg => exact .unfiled hf (hd a a.value p p' hp ▸ hg)

/-- An asset means one value at most. -/
theorem Means.unique {d : Declarations τ ν} {files : Option Fetcher} {p : Parents τ ν}
    {a : Item τ ν} {v v' : ν} (h : Means d files p a v) (h' : Means d files p a v') : v = v' := by
  rcases h with ⟨f, hf, hl⟩ | ⟨f, w, hf, hl, hg⟩ | ⟨hf, hg⟩ <;>
    rcases h' with ⟨f', hf', hl'⟩ | ⟨f', w', hf', hl', hg'⟩ | ⟨hf', hg'⟩ <;>
    simp_all

variable [Kind τ]

/-- **The assets that are needed** for those of `as`: those that are not
there, and with each its parents that are not there. -/
inductive Needed (d : Declarations τ ν) (g : Graph τ ν) (as : List (Item τ ν)) :
    Item τ ν → Prop
  /-- What is asked for is needed. -/
  | root {a : Item τ ν} (ha : a ∈ as) (hfree : g.held? a.kind = none) : Needed d g as a
  /-- What something needed depends on is needed. -/
  | parent {a b : Item τ ν} (ha : Needed d g as a) (hb : b ∈ d.parents a)
      (hfree : g.held? b.kind = none) : Needed d g as b

variable {d : Declarations τ ν} {g g' : Graph τ ν} {as : List (Item τ ν)} {a b : Item τ ν}

namespace Needed

theorem free (h : Needed d g as b) : g.held? b.kind = none := by
  cases h <;> assumption

/-- Nothing is needed where all that is asked for is there. -/
theorem exists_root (h : Needed d g as b) : ∃ a ∈ as, g.held? a.kind = none := by
  induction h with
  | root ha hfree => exact ⟨_, ha, hfree⟩
  | parent _ _ _ ih => exact ih

theorem mono {bs : List (Item τ ν)} (hs : ∀ a ∈ as, a ∈ bs) (h : Needed d g as b) :
    Needed d g bs b := by
  induction h with
  | root ha hfree => exact .root (hs _ ha) hfree
  | parent _ hb hfree ih => exact .parent ih hb hfree

/-- What is needed for the parents of an asset is needed for it. -/
theorem of_parents (hfree : g.held? a.kind = none) (h : Needed d g (d.parents a) b) :
    Needed d g (a :: as) b := by
  induction h with
  | root hb hfree' => exact .parent (.root List.mem_cons_self hfree) hb hfree'
  | parent _ hb hfree' ih => exact .parent ih hb hfree'

/-- What is needed later was needed before. -/
theorem of_grows (hg : Grows g g') (h : Needed d g' as b) : Needed d g as b := by
  induction h with
  | root ha hfree => exact .root ha (hg.absent hfree)
  | parent _ hb hfree ih => exact .parent ih hb (hg.absent hfree)

/-- What is needed for assets that come unmade comes unmade. -/
theorem eq_unmade (has : ∀ a ∈ as, a = d.unmade a.kind) (h : Needed d g as b) :
    b = d.unmade b.kind := by
  cases h with
  | root hb _ => exact has b hb
  | parent _ hb _ => exact d.eq_unmade_of_mem_parents hb

end Needed

variable [DecidableEq τ] {path : List String} {r : Resolution τ ν} {v : ν}

/-- A generator sees a parent that is there as in any larger graph. -/
theorem Graph.Grows.parents_eq (h : Grows g g') {u : τ} (hu : g.contains u = true) :
    g.parents u = g'.parents u := by
  obtain ⟨x, hx⟩ := contains_iff.1 hu
  have hx' := get?_eq_some_iff.2 hx
  rw [parents_of_get? hx', parents_of_get? (h.get? hx')]

/-- **What an asset means over its parents it means in any larger graph.** -/
theorem Means.of_grows (hd : d.ReadsDeclared) (hg : Grows g g')
    (hparents : ∀ u ∈ d.dependencies a, g.contains u = true) {files : Option Fetcher} :
    Means d files g.parents a v ↔ Means d files g'.parents a v := by
  have heq : ∀ u ∈ d.dependencies a, g.parents u = g'.parents u :=
    fun u hu => hg.parents_eq (hparents u hu)
  exact ⟨Means.congr hd heq, Means.congr hd fun u hu => (heq u hu).symm⟩

/-- **A value that is made is the value that is meant**, over the graph at
that time. -/
theorem means_of_attempt (h : (attempt d g a).outcome = .ok v) :
    Means d g.files g.parents a v := by
  simp only [attempt, materialise] at h
  split at h
  · next hf =>
    split at h
    · next w hw =>
      obtain rfl := Except.ok.inj h
      exact .unfiled hf hw
    · cases h
  · next f hf =>
    split at h
    · cases h
    · next w hw =>
      obtain rfl := Except.ok.inj h
      exact .loaded f hf hw
    · next w hw =>
      split at h
      · next x hx =>
        obtain rfl := Except.ok.inj h
        exact .generated f w hf hw hx
      · cases h

/-! ## What is attempted is what is needed -/

/-- **Nothing is attempted that is not needed.** -/
theorem Search.needed (h : Search d path as g r) :
    ∀ t ∈ r.attempts, Needed d g as t.item := by
  induction h with
  | done => intro t ht; cases ht
  | present _ _ _ ih => intro t ht; exact (ih t ht).mono fun _ => List.mem_cons_of_mem _
  | collides => intro t ht; cases ht
  | circle => intro t ht; cases ht
  | blocked hheld _ _ _ ih => intro t ht; exact (ih t ht).of_parents hheld
  | failed hheld _ _ _ ho ih =>
    intro t ht
    rw [settle_of_error ho, Resolution.attempts_after, List.mem_append, List.mem_singleton] at ht
    rcases ht with ht | rfl
    · exact (ih t ht).of_parents hheld
    · exact .root List.mem_cons_self hheld
  | made hheld _ above _ ho _ ih ih' =>
    intro t ht
    rw [settle_of_ok ho, Resolution.attempts_after, Resolution.attempts_after,
      List.mem_append, List.mem_append, List.mem_singleton] at ht
    rcases ht with (ht | rfl) | ht
    · exact (ih t ht).of_parents hheld
    · exact .root List.mem_cons_self hheld
    · refine ((ih' t ht).of_grows ?_).mono fun _ => List.mem_cons_of_mem _
      -- the rest is searched in a larger graph
      exact above.grows.trans (grows_put (above.free_self hheld))

/-- **All that is needed is attempted**, in a search for one asset that
succeeds. The asset comes last, so whatever another one asked for was made
before it, and came unmade. -/
theorem Search.attempted (h : Search d [] [a] g r) (hv : r.verdict = .ok ())
    (hb : Needed d g [a] b) : ∃ t ∈ r.attempts, t.item = b := by
  cases h with
  | present hheld _ _ =>
    obtain ⟨c, hc, hfree⟩ := hb.exists_root
    rw [List.mem_singleton.1 hc, hheld] at hfree
    cases hfree
  | collides => cases hv
  | circle => cases hv
  | blocked _ _ _ he => rw [he] at hv; cases hv
  | failed _ _ _ _ ho => rw [Resolution.verdict_after, settle_of_error ho] at hv; cases hv
  | @made _ _ _ _ r₀ r' v hheld _ above hv₀ ho rest =>
    cases rest
    rw [settle_of_ok ho]
    simp only [Resolution.attempts_after, Resolution.idle, List.append_nil]
    obtain ⟨ts, hm, he⟩ := above.makes
    have hts : r₀.attempts = ts := he.attempts_of_ok hv₀
    induction hb with
    | root hb _ =>
      refine ⟨attempt d r₀.graph a, by simp, ?_⟩
      rw [attempt_item, List.mem_singleton.1 hb]
    | @parent b c _ hc hfree ih =>
      obtain ⟨t, ht, rfl⟩ := ih
      obtain ⟨u, hu, rfl⟩ := List.mem_map.1 hc
      -- the graph that the attempt saw has the parent, so the parents of `a` brought it
      have hin : r₀.graph.contains u = true := by
        rcases List.mem_append.1 ht with ht | ht
        · obtain ⟨w, -, hready, -, -, hrest⟩ := hm.of_mem (hts ▸ ht)
          exact ((grows_put hready.free).trans hrest).contains (hready.parents u hu)
        · obtain rfl := List.mem_singleton.1 ht
          exact (above.ready hheld hv₀).parents u hu
      obtain ⟨w, hw⟩ := contains_iff.1 hin
      obtain ⟨s, hs, hkind, -⟩ := hm.exists_of_new hfree hw
      refine ⟨s, List.mem_append_left _ (hts ▸ hs), ?_⟩
      rw [(above.needed s (hts ▸ hs)).eq_unmade fun _ => d.eq_unmade_of_mem_parents, hkind]

/-- **What is needed is there in the end**, with its parents and the value
that it means over them. -/
theorem Search.holds (hd : d.ReadsDeclared) (h : Search d [] [a] g r) (hv : r.verdict = .ok ())
    (hb : Needed d g [a] b) :
    (∀ u ∈ d.dependencies b, r.graph.contains u = true) ∧
      ∃ w, r.graph.get? b.kind = some w ∧ Means d g.files r.graph.parents b w := by
  obtain ⟨ts, hm, he⟩ := h.makes
  -- what is needed was attempted, and the parents that it saw are those of the graph at the end
  obtain ⟨x, hx, rfl⟩ := h.attempted hv hb
  obtain ⟨w, heq, hready, ho, hbefore, hafter⟩ := hm.of_mem (he.attempts_of_ok hv ▸ hx)
  have hgrows : Grows x.graph r.graph := (grows_put hready.free).trans hafter
  refine ⟨fun u hu => hgrows.contains (hready.parents u hu), w, ?_, ?_⟩
  · exact get?_eq_some_iff.2 (hafter.kept _ _ held?_put_self)
  · rw [heq] at ho
    rw [← hbefore.files]
    exact (Means.of_grows hd hgrows hready.parents).1 (means_of_attempt ho)

/-- **A resolved graph holds what the declarations mean.** When an asset is
resolved with success, the names of the graph are those of before and those
of the assets that were needed; every entry of before is still there; and
every asset that was needed has its parents beside it, and the value that
it means over them as they now are. -/
theorem resolve_meaning (hd : d.ReadsDeclared) (g : Graph τ ν) (t : τ) (v : ν)
    (h : (g.resolve d t v).verdict = .ok ()) :
    let g' := (g.resolve d t v).graph
    (∀ n, n ∈ g'.names ↔
      n ∈ g.names ∨ ∃ a, Needed d g [⟨t, v⟩] a ∧ Kind.name a.kind = n) ∧
    (∀ n a, g.assets.get? n = some a → g'.assets.get? n = some a) ∧
    ∀ a, Needed d g [⟨t, v⟩] a →
      (∀ u ∈ d.dependencies a, g'.contains u = true) ∧
      ∃ w, g'.get? a.kind = some w ∧ Means d g.files g'.parents a w := by
  intro g'
  have hs := search_resolve d t g v
  obtain ⟨ts, hm, he⟩ := hs.makes
  have hts := he.attempts_of_ok h
  have hholds := fun a (ha : Needed d g [⟨t, v⟩] a) => hs.holds hd h ha
  refine ⟨fun n => ⟨fun hn => ?_, fun hn => ?_⟩, hm.grows.kept, hholds⟩
  · obtain ⟨a, ha⟩ := mem_names.1 hn
    cases hg : g.assets.get? n with
    | some b => exact Or.inl (mem_names.2 ⟨b, hg⟩)
    | none =>
      obtain ⟨x, hx, hkind, -⟩ := hm.exists_of_new hg ha
      refine Or.inr ⟨x.item, hs.needed x (hts ▸ hx), ?_⟩
      rw [hkind, g'.named n a ha]
  · rcases hn with hn | ⟨a, ha, rfl⟩
    · obtain ⟨b, hb⟩ := mem_names.1 hn
      exact mem_names.2 ⟨b, hm.grows.kept n b hb⟩
    · obtain ⟨-, w, hw, -⟩ := hholds a ha
      exact mem_names.2 ⟨_, get?_eq_some_iff.1 hw⟩

end Provision.Asset

/-! ## A rehearsal -/

namespace Provision.Rehearsal

open Asset

/-- A cast whose generators ask for no more than they declare reads what it
declares. -/
theorem Cast.readsDeclared {c : Cast} (h : ∀ r, ∀ u ∈ (c r).reads, u ∈ (c r).deps) :
    c.declarations.ReadsDeclared := by
  intro a w p p' hp
  have hreads : ∀ us : List Role, (∀ u ∈ us, p u = p' u) → us.mapM p = us.mapM p' := by
    intro us
    induction us with
    | nil => intro _; rfl
    | cons u us ih =>
      intro hus
      rw [List.mapM_cons, List.mapM_cons, hus u List.mem_cons_self,
        ih fun v hv => hus v (List.mem_cons_of_mem _ hv)]
  change (c a.kind).generate p = (c a.kind).generate p'
  simp only [Part.generate, hreads _ fun u hu => hp u (h a.kind u hu)]

/-- What the kinds of a diamond depend on: two sides and the point below
them. -/
def diamondEdges : Role → List Role
  | .node 0 => [.node 1, .node 2]
  | .node 1 => [.node 3]
  | .node 2 => [.node 3]
  | _ => []

/-- A diamond, one side of which is looked for in a file. -/
def diamond : Cast := fun r =>
  { Part.plain r with
    deps := diamondEdges r
    reads := diamondEdges r
    load := if r = .node 1 then some "one" else none }

/-- Files of which there is one. -/
def shelf : Fetcher := fun name =>
  .ok (if name = "one" then some ⟨name, [0x31]⟩ else none)

/-- The diamond over a seed on its other side. -/
def seededDiamond : Asset.Graph Role String := (Graph.withFiles shelf).put (.node 2) "seed"

/-- A diamond with a seed and a file, resolved: its top means a value over a
side that was read, a side that was there, and nothing else. -/
theorem resolve_meaning_diamond :
    diamond.declarations.ReadsDeclared ∧
    (seededDiamond.resolve diamond.declarations (.node 0) "").verdict = .ok () ∧
    ∃ w, (seededDiamond.resolve diamond.declarations (.node 0) "").graph.get? (.node 0) = some w ∧
      Means diamond.declarations seededDiamond.files
        (seededDiamond.resolve diamond.declarations (.node 0) "").graph.parents
        ⟨.node 0, ""⟩ w := by
  have hd : diamond.declarations.ReadsDeclared := Cast.readsDeclared fun _ _ hu => hu
  have hv : (seededDiamond.resolve diamond.declarations (.node 0) "").verdict = .ok () :=
    look_resolve Resolution.verdict 9 rfl
  obtain ⟨-, -, hneeded⟩ := resolve_meaning hd seededDiamond (.node 0) "" hv
  refine ⟨hd, hv, ?_⟩
  exact (hneeded ⟨.node 0, ""⟩ (.root List.mem_cons_self rfl)).2

end Provision.Rehearsal
