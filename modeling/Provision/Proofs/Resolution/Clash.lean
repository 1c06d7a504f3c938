import Provision.Proofs.Resolution.Circle
import Provision.Rehearsal.Assets
/-!
# Resolution — two kinds of one name

Nothing forces two kinds to have different names. What becomes of a search
that meets an asset under a name that is taken depends on where the other one
is: in the graph kinds are compared, and the search ends in a collision that
names both; on the path there are names only, so it **ends in a circle,
whichever kind is being worked on** (`resolve_clash`).

A search comes to one asset after the other, each with a path of kinds and a
graph (`Meets`). What stands in its way there (`Obstacle`) is what the whole
search ends in, and circles and collisions have no other cause.
-/

namespace Provision.Asset

open Asset.Graph Relation

variable {τ ν : Type} [DecidableEq τ] [Kind τ]

/-- **What the search comes to**: an asset, while some kinds are being worked
on, and the graph at that time. -/
inductive Meets (d : Declarations τ ν) :
    List τ → List (Item τ ν) → Graph τ ν → List τ → Item τ ν → Graph τ ν → Prop
  /-- The first asset comes up. -/
  | here {ks : List τ} {a : Item τ ν} {as : List (Item τ ν)} {g : Graph τ ν} :
      Meets d ks (a :: as) g ks a g
  /-- While it is worked on, its parents come up. -/
  | above {ks ks' : List τ} {a b : Item τ ν} {as : List (Item τ ν)} {g g' : Graph τ ν}
      (hheld : g.held? a.kind = none) (hpath : Kind.name a.kind ∉ ks.map Kind.name)
      (parents : Meets d (ks ++ [a.kind]) (d.parents a) g ks' b g') :
      Meets d ks (a :: as) g ks' b g'
  /-- When it is there, the others come up. -/
  | next {ks ks' : List τ} {a b : Item τ ν} {as : List (Item τ ν)} {g g' : Graph τ ν}
      {r : Resolution τ ν} (first : Search d (ks.map Kind.name) [a] g r) (hv : r.verdict = .ok ())
      (rest : Meets d ks as r.graph ks' b g') : Meets d ks (a :: as) g ks' b g'

/-- **What can stand in the way of an asset**, and the error it makes. -/
inductive Obstacle (g : Graph τ ν) (ks : List τ) (a : Item τ ν) : Error → Prop
  /-- Another kind stands under the name. -/
  | taken {h : Item τ ν} (hheld : g.held? a.kind = some h) (hkind : h.kind ≠ a.kind) :
      Obstacle g ks a (collision h.kind a.kind)
  /-- The name is being worked on. -/
  | busy (hheld : g.held? a.kind = none) (hpath : Kind.name a.kind ∈ ks.map Kind.name) :
      Obstacle g ks a
        (.cycle ((ks.map Kind.name).dropWhile (· ≠ Kind.name a.kind) ++ [Kind.name a.kind]))

variable {d : Declarations τ ν} {g g' : Graph τ ν} {root a b : Item τ ν} {ks ks' : List τ}
variable {as : List (Item τ ν)} {path : List String} {r r₁ : Resolution τ ν} {e : Error}

/-! ## What the search comes to -/

/-- A search for several assets begins with the search for the first. -/
theorem Search.exists_rest (h : Search d path (a :: as) g r) (first : Search d path [a] g r₁)
    (hv : r₁.verdict = .ok ()) : ∃ r', Search d path as r₁.graph r' ∧ r = r'.after r₁ := by
  have hl := leads_resolveAt d path a g
  rw [← first.unique hl.search] at hl
  obtain ⟨r', h'⟩ := exists_search d path as r₁.graph
  exact ⟨r', h', h.unique (hl.go as r' hv h')⟩

namespace Meets

/-- What is being worked on is a trail of declarations. -/
theorem trail (h : Meets d ks as g ks' b g') (has : ∀ a ∈ as, Trail d root ks a) :
    Trail d root ks' b := by
  induction h with
  | here => exact has _ List.mem_cons_self
  | @above ks ks' a b as g g' hheld hpath parents ih =>
    refine ih fun c hc => ?_
    obtain ⟨u, hu, rfl⟩ := List.mem_map.1 hc
    have hnew : a.kind ∉ ks := fun hm => hpath (List.mem_map_of_mem hm)
    exact .step (has a List.mem_cons_self) hnew hu
  | next first hv rest ih => exact ih fun c hc => has c (List.mem_cons_of_mem _ hc)

/-- Nothing has been lost. -/
theorem grows (h : Meets d ks as g ks' b g') : Grows g g' := by
  induction h with
  | here => exact .refl _
  | above hheld hpath parents ih => exact ih
  | next first hv rest ih => exact first.grows.trans ih

/-- None of the kinds that are being worked on is there. -/
theorem free (h : Meets d ks as g ks' b g') (hks : ∀ k ∈ ks, g.held? k = none) :
    ∀ k ∈ ks', g'.held? k = none := by
  induction h with
  | here => exact hks
  | above hheld hpath parents ih =>
    refine ih fun k hk => ?_
    obtain hk | hk := List.mem_append.1 hk
    · exact hks k hk
    · rwa [List.mem_singleton.1 hk]
  | next first hv rest ih => exact ih fun k hk => first.free (List.mem_map_of_mem hk) (hks k hk)

/-- **What stands in the way of one asset ends the search.** -/
theorem verdict_eq (h : Meets d ks as g ks' b g') (ho : Obstacle g' ks' b e)
    (hs : Search d (ks.map Kind.name) as g r) : r.verdict = .error e := by
  induction h generalizing r with
  | here =>
    cases ho with
    | taken hheld hkind =>
      rw [hs.unique (.collides hheld hkind)]
      rfl
    | busy hheld hpath =>
      rw [hs.unique (.circle hheld hpath)]
      rfl
  | @above ks ks' a b as g g' hheld hpath parents ih =>
    obtain ⟨r', hs'⟩ := exists_search d ((ks ++ [a.kind]).map Kind.name) (d.parents a) g
    have hv' : r'.verdict = .error e := ih ho hs'
    rw [List.map_append, List.map_singleton] at hs'
    rw [hs.unique (.blocked hheld hpath hs' hv')]
    exact hv'
  | next first hv rest ih =>
    obtain ⟨r', hs', rfl⟩ := hs.exists_rest first hv
    have hv' : r'.verdict = .error e := ih ho hs'
    exact hv'

end Meets

/-- **A search that fails has met something in its way**, or a loader or a
generator failed. -/
theorem Search.exists_meets (h : Search d path as g r) (hpath : path = ks.map Kind.name)
    (hv : r.verdict = .error e) :
    (∃ ks' b g', Meets d ks as g ks' b g' ∧ Obstacle g' ks' b e) ∨
      ∃ n c, e = .load n c ∨ e = .generate n c := by
  induction h generalizing ks with
  | done => cases hv
  | present hheld hkind rest ih =>
    obtain ⟨ks', b, g', hm, ho⟩ | hfailed := ih hpath hv
    · exact Or.inl ⟨ks', b, g', .next (.present hheld hkind .done) rfl hm, ho⟩
    · exact Or.inr hfailed
  | collides hheld hkind =>
    obtain rfl := Except.error.inj hv
    exact Or.inl ⟨ks, _, _, .here, .taken hheld hkind⟩
  | circle hheld hin =>
    subst hpath
    obtain rfl := Except.error.inj hv
    exact Or.inl ⟨ks, _, _, .here, .busy hheld hin⟩
  | @blocked path a as g r e' hheld hnew above hv' ih =>
    subst hpath
    have hpath' : ks.map Kind.name ++ [Kind.name a.kind] = (ks ++ [a.kind]).map Kind.name := by simp
    obtain ⟨ks', b, g', hm, ho⟩ | hfailed := ih hpath' hv
    · exact Or.inl ⟨ks', b, g', .above hheld hnew hm, ho⟩
    · exact Or.inr hfailed
  | failed hheld hnew above hv' ho ih =>
    rw [Resolution.verdict_after, settle_of_error ho] at hv
    obtain rfl := Except.error.inj hv
    exact Or.inr ⟨_, exists_cause ho⟩
  | made hheld hnew above hv' ho rest ih ih' =>
    obtain ⟨ks', b, g', hm, hobstacle⟩ | hfailed := ih' hpath hv
    · subst hpath
      refine Or.inl ⟨ks', b, g', .next (.made hheld hnew above hv' ho .done) rfl hm, hobstacle⟩
    · exact Or.inr hfailed

/-! ## Circles and collisions -/

/-- The root leads to each kind of a trail. -/
theorem Trail.leads_of_mem (h : Trail d root ks a) (hks : ∀ k ∈ ks, g.held? k = none) {k : τ}
    (hk : k ∈ ks) : ReflTransGen (Depends d g root) root.kind k := by
  induction h with
  | root => cases hk
  | @step ks b u above hnew hu ih =>
    have habove : ∀ k ∈ ks, g.held? k = none := fun k hk => hks k (List.mem_append_left _ hk)
    obtain hk | hk := List.mem_append.1 hk
    · exact ih habove hk
    · obtain rfl := List.mem_singleton.1 hk
      exact (above.leads habove (hks _ (List.mem_append_right _ hk))).1

omit [DecidableEq τ] in
/-- A name that comes up while it is being worked on is in the way. -/
theorem Obstacle.of_mem {k : τ} (hks : ∀ k ∈ ks, g.held? k = none) (hk : k ∈ ks)
    (hname : Kind.name k = Kind.name a.kind) :
    Obstacle g ks a
      (.cycle ((ks.map Kind.name).dropWhile (· ≠ Kind.name a.kind) ++ [Kind.name a.kind])) := by
  have hfree : g.held? a.kind = none := by
    rw [Graph.held?, ← hname]
    exact hks k hk
  exact .busy hfree (hname ▸ List.mem_map_of_mem hk)

/-- **What two kinds of one name do to a search**, whatever is declared and
whatever the graph holds. An asset whose name another kind has in the graph
ends the search in a collision that names both. An asset whose name some kind
has that is being worked on ends it in a circle, be it the same kind or
another. There are no other collisions and no other circles; and each circle
begins with an absent kind that the root leads to, and which leads to an
absent kind of the same name. -/
theorem resolve_clash (d : Declarations τ ν) (g : Graph τ ν) (t : τ) (v : ν) :
    let r := g.resolve d t v
    (∀ ks a g' h, Meets d [] [⟨t, v⟩] g ks a g' → g'.held? a.kind = some h → h.kind ≠ a.kind →
      r.verdict = .error (collision h.kind a.kind)) ∧
    (∀ ks a g' k, Meets d [] [⟨t, v⟩] g ks a g' → k ∈ ks → Kind.name k = Kind.name a.kind →
      r.verdict = .error
        (.cycle ((ks.map Kind.name).dropWhile (· ≠ Kind.name a.kind) ++ [Kind.name a.kind]))) ∧
    (∀ n x y, r.verdict = .error (.nameCollision n x y) →
      ∃ ks a g' h, Meets d [] [⟨t, v⟩] g ks a g' ∧ g'.held? a.kind = some h ∧
        h.kind ≠ a.kind ∧ .nameCollision n x y = collision h.kind a.kind) ∧
    ∀ p, r.verdict = .error (.cycle p) →
      ∃ ks a g' k, Meets d [] [⟨t, v⟩] g ks a g' ∧ k ∈ ks ∧ Kind.name k = Kind.name a.kind ∧
        p = (ks.map Kind.name).dropWhile (· ≠ Kind.name a.kind) ++ [Kind.name a.kind] ∧
        ReflTransGen (Depends d g ⟨t, v⟩) t k ∧ TransGen (Depends d g ⟨t, v⟩) k a.kind := by
  intro r
  have hs : Search d [] [⟨t, v⟩] g r := search_resolve d t g v
  have hpath : [] = ([] : List τ).map Kind.name := rfl
  have hnil : ∀ k ∈ ([] : List τ), g.held? k = none := by simp
  refine ⟨fun ks a g' h hm hheld hkind => ?_, fun ks a g' k hm hk hname => ?_,
    fun n x y hv => ?_, fun p hv => ?_⟩
  · exact hm.verdict_eq (.taken hheld hkind) hs
  · exact hm.verdict_eq (.of_mem (hm.free hnil) hk hname) hs
  · obtain ⟨ks, a, g', hm, ho⟩ | ⟨m, c, hc | hc⟩ := hs.exists_meets hpath hv
    · generalize herror : Error.nameCollision n x y = e at ho
      cases ho with
      | taken hheld hkind => exact ⟨ks, a, g', _, hm, hheld, hkind, rfl⟩
      | busy => cases herror
    · cases hc
    · cases hc
  · obtain ⟨ks, a, g', hm, ho⟩ | ⟨m, c, hc | hc⟩ := hs.exists_meets hpath hv
    · generalize herror : Error.cycle p = e at ho
      cases ho with
      | taken => cases herror
      | busy hheld hin =>
        obtain ⟨k, hk, hname⟩ := List.mem_map.1 hin
        have htrail : Trail d ⟨t, v⟩ ks a := hm.trail fun b hb => by
          rw [List.mem_singleton.1 hb]
          exact .root
        -- what is absent now was absent in the beginning
        have hfree : ∀ k ∈ ks, g.held? k = none := fun k hk => hm.grows.absent (hm.free hnil k hk)
        refine ⟨ks, a, g', k, hm, hk, hname, Error.cycle.inj herror,
          htrail.leads_of_mem hfree hk, ?_⟩
        exact (htrail.leads hfree (hm.grows.absent hheld)).2 k hk
    · cases hc
    · cases hc

end Provision.Asset

/-! ## A rehearsal -/

namespace Provision.Rehearsal

open Asset Relation

/-- A node that depends on its impostor, which depends on nothing. -/
def masquerade : Cast := fun r =>
  { Part.plain r with deps := if r.id = "n0" then [.impostor 0] else [] }

/-- **A circle is reported where there is none.** No kind depends on itself;
the node is being worked on when its impostor comes up, which is another kind
of the same name. -/
theorem clash_is_called_circle :
    Meets masquerade.declarations [] [⟨.node 0, ""⟩] Graph.empty [.node 0] ⟨.impostor 0, ""⟩
        Graph.empty ∧
      Kind.name (Role.node 0) = Kind.name (Role.impostor 0) ∧
      (∀ k, ¬ TransGen (fun t u => u ∈ masquerade.declarations.asks ⟨.node 0, ""⟩ t) k k) ∧
      (Graph.empty.resolve masquerade.declarations (.node 0) "").verdict =
        .error (.cycle ["n0", "n0"]) := by
  refine ⟨.above (by rfl) (by decide) .here, by decide, fun k hk => ?_,
    look_resolve Resolution.verdict 9 rfl⟩
  have hedge : ∀ {t u : Role}, u ∈ masquerade.declarations.asks ⟨.node 0, ""⟩ t →
      t.id = "n0" ∧ u = .impostor 0 := by
    intro t u hu
    have hdeps : masquerade.declarations.asks ⟨.node 0, ""⟩ t = (masquerade t).deps := by
      rw [Declarations.asks]
      split
      · next ht =>
        rw [ht]
        rfl
      · rfl
    rw [hdeps, masquerade] at hu
    split at hu
    · next ht => exact ⟨ht, List.mem_singleton.1 hu⟩
    · cases hu
  have himpostor : (Role.impostor 0).id ≠ "n0" := by decide
  obtain ⟨u, hku, huk⟩ := TransGen.head'_iff.1 hk
  obtain ⟨hk, rfl⟩ := hedge hku
  obtain rfl | ⟨w, hw, -⟩ := ReflTransGen.cases_head huk
  · exact himpostor hk
  · exact himpostor (hedge hw).1

end Provision.Rehearsal
