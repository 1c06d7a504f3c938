import Provision.Proofs.Resolution.Meaning
import Provision.Proofs.Resolution.History
import Provision.Rehearsal.Cluster
import Mathlib.Data.List.Chain
import Mathlib.Data.List.Nodup
import Mathlib.Logic.Relation
/-!
# Resolution — circles

A circle is found where it is walked into: a name comes up while it is
being worked on. Whether there is one to walk into is a matter of the
declarations and of the graph before, `Depends`: **what is there cuts the
search, and only what is absent can close a circle**. Where neither loaders
nor generators fail, this is the one thing that can go wrong
(`resolve_circle`).

What a search reports is sound because its path is a `Trail` of
declarations. It misses nothing because assets are made after their
parents: what could be made is well founded under `Depends`.
-/

namespace Provision.Asset

open Asset.Graph Relation

variable {τ ν : Type} [DecidableEq τ]

/-- **What a kind asks for** in the search for `root`: the asset that is
searched for comes with its own value, every other one unmade. -/
def Declarations.asks (d : Declarations τ ν) (root : Item τ ν) (t : τ) : List τ :=
  d.dependencies (if t = root.kind then root else d.unmade t)

/-- **The trail of a search**: the kinds that are being worked on when an
asset comes up, each because the one before it depends on it. -/
inductive Trail (d : Declarations τ ν) (root : Item τ ν) : List τ → Item τ ν → Prop
  /-- The search begins with its root. -/
  | root : Trail d root [] root
  /-- An asset that is worked on brings up those that it depends on. -/
  | step {ks : List τ} {a : Item τ ν} {u : τ} (above : Trail d root ks a) (hnew : a.kind ∉ ks)
      (hu : u ∈ d.dependencies a) : Trail d root (ks ++ [a.kind]) (d.unmade u)

variable [Kind τ]

/-- **One kind depends on another**, neither of which is there. -/
structure Depends (d : Declarations τ ν) (g : Graph τ ν) (root : Item τ ν) (t u : τ) : Prop where
  left : g.held? t = none
  asks : u ∈ d.asks root t
  right : g.held? u = none

variable {d : Declarations τ ν} {g g' : Graph τ ν} {root a : Item τ ν} {ks : List τ}
variable {path : List String} {as : List (Item τ ν)} {r : Resolution τ ν}

/-! ## Trails -/

omit [Kind τ] in
theorem exists_dropWhile_ne {t : τ} (h : t ∈ ks) : ∃ ms, ks.dropWhile (· ≠ t) = t :: ms := by
  induction ks with
  | nil => cases h
  | cons k ks ih =>
    by_cases hk : k = t
    · exact ⟨ks, by simp [hk]⟩
    · obtain ⟨ms, hms⟩ := ih ((List.mem_cons.1 h).resolve_left (Ne.symm hk))
      exact ⟨ms, by rw [List.dropWhile_cons_of_pos (by simpa using hk), hms]⟩

namespace Trail

omit [Kind τ] [DecidableEq τ] in
theorem nodup (h : Trail d root ks a) : ks.Nodup := by
  induction h with
  | root => exact List.nodup_nil
  | step _ hnew _ ih =>
    rw [List.nodup_append]
    refine ⟨ih, by simp, fun x hx y hy hxy => hnew ?_⟩
    rwa [← List.mem_singleton.1 hy, ← hxy]

omit [Kind τ] [DecidableEq τ] in
/-- After the first step the root is being worked on. -/
theorem root_mem (h : Trail d root ks a) : a = root ∨ root.kind ∈ ks := by
  induction h with
  | root => exact Or.inl rfl
  | step _ _ _ ih =>
    rcases ih with rfl | hm
    · exact Or.inr (by simp)
    · exact Or.inr (List.mem_append_left _ hm)

omit [Kind τ] in
/-- An asset asks for what its kind asks for. -/
theorem asks_eq (h : Trail d root ks a) (hnew : a.kind ∉ ks) :
    d.asks root a.kind = d.dependencies a := by
  rw [Declarations.asks]
  rcases h.root_mem with rfl | hm
  · rw [if_pos rfl]
  · have hne : a.kind ≠ root.kind := fun heq => hnew (heq ▸ hm)
    rw [if_neg hne]
    cases h with
    | root => cases hm
    | step => rfl

omit [Kind τ] in
/-- **Each kind of a trail asks for the next**, and the last for the asset
that comes up. -/
theorem isChain (h : Trail d root ks a) :
    (ks ++ [a.kind]).IsChain fun t u => u ∈ d.asks root t := by
  induction h with
  | root => exact List.isChain_singleton _
  | @step ks a u above hnew hu ih =>
    rw [List.append_assoc]
    refine List.isChain_append_cons_cons.2 ⟨ih, ?_, List.isChain_singleton _⟩
    rw [above.asks_eq hnew]
    exact hu

/-- A trail of absent kinds leads from the root, and through each of its
kinds, to the asset that comes up. -/
theorem leads (h : Trail d root ks a) (hks : ∀ k ∈ ks, g.held? k = none)
    (ha : g.held? a.kind = none) :
    ReflTransGen (Depends d g root) root.kind a.kind ∧
      ∀ k ∈ ks, TransGen (Depends d g root) k a.kind := by
  induction h with
  | root => exact ⟨.refl, fun k hk => by cases hk⟩
  | @step ks b u above hnew hu ih =>
    have hb : g.held? b.kind = none := hks _ (by simp)
    obtain ⟨hroot, hall⟩ := ih (fun k hk => hks k (List.mem_append_left _ hk)) hb
    have hedge : Depends d g root b.kind u := ⟨hb, by rw [above.asks_eq hnew]; exact hu, ha⟩
    refine ⟨hroot.tail hedge, fun k hk => ?_⟩
    rcases List.mem_append.1 hk with hk | hk
    · exact (hall k hk).tail hedge
    · rw [List.mem_singleton.1 hk]
      exact .single hedge

end Trail

/-- An attempt fails with the failure of a loader or a generator. -/
theorem exists_cause {e : Error} (h : (attempt d g a).outcome = .error e) :
    ∃ c, e = .load (Kind.name a.kind) c ∨ e = .generate (Kind.name a.kind) c := by
  simp only [attempt, materialise] at h
  repeat' split at h
  all_goals cases h
  -- without files it was the generator; with them the loader, or the generator behind it
  · exact ⟨_, .inr rfl⟩
  · exact ⟨_, .inl rfl⟩
  · exact ⟨_, .inr rfl⟩

/-- **A circle that is reported was walked into**: a trail of absent kinds
has come back to one of them. -/
theorem Search.trail_of_circle (h : Search d path as g r) {p : List String}
    (hv : r.verdict = .error (.cycle p)) (hpath : path = ks.map Kind.name)
    (has : ∀ a ∈ as, Trail d root ks a) (hks : ∀ k ∈ ks, g.held? k = none) :
    ∃ ks' a, Trail d root ks' a ∧ Kind.name a.kind ∈ ks'.map Kind.name ∧
      (∀ k ∈ ks', g.held? k = none) ∧
      p = (ks'.map Kind.name).dropWhile (· ≠ Kind.name a.kind) ++ [Kind.name a.kind] := by
  induction h generalizing ks with
  | done => cases hv
  | present _ _ _ ih => exact ih hv hpath (fun b hb => has b (List.mem_cons_of_mem _ hb)) hks
  | collides => cases hv
  | @circle _ a _ _ _ hin =>
    subst hpath
    refine ⟨ks, a, has a List.mem_cons_self, hin, hks, ?_⟩
    injection hv with hp
    injection hp with hp
    exact hp.symm
  | @blocked _ a _ _ _ _ hheld hnew _ _ ih =>
    subst hpath
    have hnew' : a.kind ∉ ks := fun hm => hnew (List.mem_map_of_mem hm)
    have hpath' : ks.map Kind.name ++ [Kind.name a.kind] = (ks ++ [a.kind]).map Kind.name := by simp
    -- the trail grows by the asset whose parents are searched
    refine ih hv hpath' (fun b hb => ?_) fun k hk => ?_
    · obtain ⟨u, hu, rfl⟩ := List.mem_map.1 hb
      exact .step (has a List.mem_cons_self) hnew' hu
    · rcases List.mem_append.1 hk with hk | hk
      · exact hks k hk
      · rwa [List.mem_singleton.1 hk]
  | failed _ _ _ _ ho =>
    rw [Resolution.verdict_after, settle_of_error ho] at hv
    obtain rfl := Except.error.inj hv
    obtain ⟨c, hc | hc⟩ := exists_cause ho <;> cases hc
  | @made _ a _ _ _ _ _ hheld hnew above _ _ _ _ ih' =>
    subst hpath
    have hks' : ∀ k ∈ ks, Kind.name a.kind ≠ Kind.name k :=
      fun k hk heq => hnew (heq ▸ List.mem_map_of_mem hk)
    -- the rest is searched on the same path, in a graph that has the asset besides
    obtain ⟨ks', b, htrail, hin, hfree, hp⟩ :=
      ih' hv rfl (fun b hb => has b (List.mem_cons_of_mem _ hb)) fun k hk => by
        rw [Graph.held?, assets_put, if_neg (hks' k hk)]
        exact above.free (List.mem_append_left _ (List.mem_map_of_mem hk)) (hks k hk)
    refine ⟨ks', b, htrail, hin, fun k hk => ?_, hp⟩
    exact (above.grows.trans (grows_put (above.free_self hheld))).absent (hfree k hk)

/-- Where names tell kinds apart, the trail has come back to a kind. -/
theorem Search.exists_trail (hname : Function.Injective (Kind.name : τ → String))
    (h : Search d [] [root] g r) {p : List String} (hv : r.verdict = .error (.cycle p)) :
    ∃ ks a, Trail d root ks a ∧ a.kind ∈ ks ∧ (∀ k ∈ ks, g.held? k = none) ∧
      p = (ks.dropWhile (· ≠ a.kind) ++ [a.kind]).map Kind.name := by
  have hnil : [] = ([] : List τ).map Kind.name := rfl
  obtain ⟨ks, a, htrail, hin, hfree, hp⟩ := h.trail_of_circle hv hnil
    (fun b hb => by rw [List.mem_singleton.1 hb]; exact .root) (by simp)
  refine ⟨ks, a, htrail, ?_, hfree, ?_⟩
  · obtain ⟨k, hk, heq⟩ := List.mem_map.1 hin
    rwa [← hname heq]
  -- the circle is cut out of the path by name, and out of the trail by kind
  · have hne : ((fun n => decide (n ≠ Kind.name a.kind)) ∘ Kind.name) =
        fun k => decide (k ≠ a.kind) := by
      funext k
      simp [hname.eq_iff]
    rw [hp, List.dropWhile_map, hne, List.map_append, List.map_singleton]

/-! ## What can be made closes no circle -/

theorem contains_put {t u : τ} {v : ν} (h : (g.put t v).contains u = true) :
    u = t ∨ g.contains u = true := by
  obtain ⟨w, hw⟩ := contains_iff.1 h
  rw [Graph.held?, assets_put] at hw
  split at hw
  · injection hw with hw
    injection hw with hk
    exact Or.inl hk.symm
  · exact Or.inr (contains_iff.2 ⟨w, hw⟩)

/-- **What a search attempts comes as its kind comes**: the root with its
own value, the others unmade. -/
theorem Search.asks_eq (h : Search d [] [root] g r) (hv : r.verdict = .ok ()) {t : Attempt τ ν}
    (ht : t ∈ r.attempts) : d.asks root t.item.kind = d.dependencies t.item := by
  have hn : Needed d g [root] t.item := h.needed t ht
  rw [Declarations.asks]
  split
  · next heq =>
    -- the root itself is attempted, under the same name
    obtain ⟨b, hb, hfree⟩ := hn.exists_root
    obtain rfl := List.mem_singleton.1 hb
    obtain ⟨s, hs, hsb⟩ := h.attempted hv (.root hb hfree)
    have hname : s.name = t.name := by rw [Attempt.name, Attempt.name, hsb, heq]
    rw [← List.inj_on_of_nodup_map h.attempts_nodup hs ht hname, hsb]
  · next hne =>
    cases hn with
    | root hb _ => exact absurd (congrArg Item.kind (List.mem_singleton.1 hb)) hne
    | parent _ hb _ =>
      obtain ⟨u, -, hu⟩ := List.mem_map.1 hb
      rw [← hu]
      rfl

/-- **What is made is well founded**: its parents were there before it. -/
theorem Makes.acc {ts : List (Attempt τ ν)} {g₁ g₂ : Graph τ ν} (h : Makes d g₁ ts g₂)
    (hasks : ∀ t ∈ ts, d.asks root t.item.kind = d.dependencies t.item)
    (hacc : ∀ k, g₁.contains k = true → g.held? k = none →
      Acc (fun u t => Depends d g root t u) k) :
    ∀ k, g₂.contains k = true → g.held? k = none →
      Acc (fun u t => Depends d g root t u) k := by
  induction h with
  | nil => exact hacc
  | @cons g₁ g₂ a v ts ready ho _ ih =>
    refine ih (fun t ht => hasks t (List.mem_cons_of_mem _ ht)) fun k hk hfree => ?_
    rcases contains_put hk with rfl | hk
    · refine Acc.intro _ fun u hu => ?_
      have hdep : u ∈ d.dependencies a := hasks _ List.mem_cons_self ▸ hu.asks
      exact hacc u (ready.parents u hdep) hu.right
    · exact hacc k hk hfree

omit [DecidableEq τ] [Kind τ] in
theorem no_circle_of_acc {R : τ → τ → Prop} {k : τ} (h : Acc (fun u t => R t u) k) :
    ¬ TransGen R k k := by
  induction h with
  | intro k _ ih =>
    intro hc
    obtain ⟨u, hedge, hback⟩ := TransGen.head'_iff.1 hc
    exact ih u hedge (TransGen.tail' hback hedge)

/-- What is new after a search that succeeds is well founded. -/
theorem Search.acc (h : Search d [] [root] g r) (hv : r.verdict = .ok ()) {k : τ}
    (hk : r.graph.contains k = true) (hfree : g.held? k = none) :
    Acc (fun u t => Depends d g root t u) k := by
  obtain ⟨ts, hm, he⟩ := h.makes
  have hts : r.attempts = ts := he.attempts_of_ok hv
  refine hm.acc (fun t ht => h.asks_eq hv (hts ▸ ht)) (fun u hu hufree => ?_) k hk hfree
  -- what was there at the beginning is not new
  obtain ⟨x, hx⟩ := contains_iff.1 hu
  rw [hufree] at hx
  cases hx

/-- **A search that succeeds had no circle to walk into.** All that the root
leads to is there in the end, and what was made is well founded. -/
theorem Search.no_circle (h : Search d [] [root] g r) (hv : r.verdict = .ok ()) {u : τ}
    (hu : ReflTransGen (Depends d g root) root.kind u) : ¬ TransGen (Depends d g root) u u := by
  obtain ⟨ts, hm, he⟩ := h.makes
  have hts : r.attempts = ts := he.attempts_of_ok hv
  -- all that the root leads to is there in the end, each behind its parents
  have hin : r.graph.contains u = true := by
    induction hu with
    | refl => exact h.contains hv root List.mem_cons_self
    | @tail b c _ hedge ih =>
      obtain ⟨w, hw⟩ := contains_iff.1 ih
      obtain ⟨t, ht, hkind, -⟩ := hm.exists_of_new hedge.left hw
      obtain ⟨x, -, hready, -, -, hafter⟩ := hm.of_mem ht
      have hc : c ∈ d.dependencies t.item := by
        rw [← h.asks_eq hv (hts ▸ ht), hkind]
        exact hedge.asks
      exact ((grows_put hready.free).trans hafter).contains (hready.parents c hc)
  intro hc
  obtain ⟨w, hedge, -⟩ := TransGen.head'_iff.1 hc
  exact no_circle_of_acc (h.acc hv hin hedge.left) hc

/-! ## Nothing else can go wrong -/

/-- **Loaders and generators do not fail**: loaders on the files of the
graph, generators where all that they declare to depend on is there. -/
structure Declarations.NeverFails (d : Declarations τ ν) (files : Option Fetcher) : Prop where
  load : ∀ f, files = some f → ∀ a, ∃ found v, d.load a f = .ok (found, v)
  generate : ∀ a w p, (∀ u ∈ d.dependencies a, ∃ x, p u = .ok x) →
    ∃ v, d.generate ⟨a.kind, w⟩ p = .ok v

/-- So an asset whose turn has come is made. -/
theorem Ready.exists_value (h : Ready d g a) (hd : d.NeverFails g.files) :
    ∃ v, (attempt d g a).outcome = .ok v := by
  have hgen : ∀ w, ∃ v, d.generate ⟨a.kind, w⟩ g.parents = .ok v := by
    refine fun w => hd.generate a w g.parents fun u hu => ?_
    obtain ⟨x, hx⟩ := contains_iff.1 (h.parents u hu)
    exact ⟨x, parents_of_get? (get?_eq_some_iff.2 hx)⟩
  simp only [attempt, materialise]
  cases hf : g.files with
  | none =>
    obtain ⟨v, hv⟩ := hgen a.value
    exact ⟨v, by simp [hv]⟩
  | some f =>
    obtain ⟨found, w, hl⟩ := hd.load f hf a
    obtain ⟨v, hv⟩ := hgen w
    cases found with
    | false => exact ⟨v, by simp [hl, hv]⟩
    | true => exact ⟨w, by simp [hl]⟩

/-- **A search ends well or in a circle**, where names tell kinds apart and
nothing fails. -/
theorem Search.ok_or_circle (hname : Function.Injective (Kind.name : τ → String))
    (hd : d.NeverFails g.files) (h : Search d path as g r) :
    r.verdict = .ok () ∨ ∃ p, r.verdict = .error (.cycle p) := by
  obtain ⟨ts, hm, he⟩ := h.makes
  cases he with
  | complete hv _ => exact Or.inl hv
  | circle p hv _ => exact Or.inr ⟨p, hv⟩
  | collision b t hheld hkind _ _ => exact absurd (hname (r.graph.named _ b hheld)) hkind
  | failed a e ready ho _ _ =>
    obtain ⟨v, hv⟩ := ready.exists_value (hm.grows.files ▸ hd)
    rw [hv] at ho
    cases ho

/-- **Circles are found, all of them, and nothing but circles.** Where names
tell kinds apart and neither loaders nor generators fail, the search for an
asset ends, in one of two ways. It ends in a circle just when the absent
kinds that the asset leads to have one among them, and well otherwise. The
circle that it names is one: different kinds, all absent and in reach, each
asking for the next and the last for the first. -/
theorem resolve_circle (hname : Function.Injective (Kind.name : τ → String)) (g : Graph τ ν)
    (hd : d.NeverFails g.files) (t : τ) (v : ν) :
    let r := g.resolve d t v
    Search d [] [⟨t, v⟩] g r ∧
    ((∃ p, r.verdict = .error (.cycle p)) ↔
      ∃ u, ReflTransGen (Depends d g ⟨t, v⟩) t u ∧ TransGen (Depends d g ⟨t, v⟩) u u) ∧
    ((¬ ∃ p, r.verdict = .error (.cycle p)) → r.verdict = .ok ()) ∧
    ∀ p, r.verdict = .error (.cycle p) →
      ∃ m ms, p = (m :: ms ++ [m]).map Kind.name ∧ ((m :: ms).map Kind.name).Nodup ∧
        (∀ k ∈ m :: ms, Kind.name k ∉ g.names) ∧
        (m :: ms ++ [m]).IsChain (fun k u => u ∈ d.asks ⟨t, v⟩ k) ∧
        ReflTransGen (Depends d g ⟨t, v⟩) t m := by
  intro r
  have hs : Search d [] [⟨t, v⟩] g r := search_resolve d t g v
  refine ⟨hs, ⟨fun ⟨p, hv⟩ => ?_, fun ⟨u, hu, hc⟩ => ?_⟩, fun hno => ?_, fun p hv => ?_⟩
  · obtain ⟨ks, a, h, hin, hfree, -⟩ := hs.exists_trail hname hv
    obtain ⟨hroot, hall⟩ := h.leads hfree (hfree _ hin)
    exact ⟨a.kind, hroot, hall _ hin⟩
  · rcases hs.ok_or_circle hname hd with hok | hcircle
    · exact absurd hc (hs.no_circle hok hu)
    · exact hcircle
  · rcases hs.ok_or_circle hname hd with hok | hcircle
    · exact hok
    · exact absurd hcircle hno
  · obtain ⟨ks, a, h, hin, hfree, hp⟩ := hs.exists_trail hname hv
    obtain ⟨ms, hms⟩ := exists_dropWhile_ne hin
    have hsuffix : (a.kind :: ms) <:+ ks := hms ▸ List.dropWhile_suffix _
    refine ⟨a.kind, ms, by rw [hp, hms], ?_, fun k hk hn => ?_, ?_, ?_⟩
    · exact (h.nodup.sublist hsuffix.sublist).map hname
    · obtain ⟨b, hb⟩ := mem_names.1 hn
      rw [show g.assets.get? _ = none from hfree k (hsuffix.subset hk)] at hb
      cases hb
    · obtain ⟨pre, hpre⟩ := hsuffix
      refine h.isChain.suffix ⟨pre, ?_⟩
      rw [← List.append_assoc, hpre]
    · exact (h.leads hfree (hfree _ hin)).1

end Provision.Asset

/-! ## A rehearsal -/

namespace Provision.Rehearsal

open Asset Relation

/-- No two pieces of a cluster have one name. -/
theorem Piece.name_injective : Function.Injective (Kind.name : Piece → String) := by
  intro p q h
  cases p <;> cases q <;> first | rfl | exact absurd h (by decide)

/-- What the pieces of a cluster depend on where the specification comes
round to itself. -/
def ringEdges : Piece → List Piece
  | .kubeconfig => [.adminKey, .clusterSpec]
  | .clusterSpec => [.region]
  | .region => [.nodeCount]
  | .nodeCount => [.clusterSpec]
  | _ => []

/-- Pieces that are made of nothing but what they depend on being there. -/
def ring : Declarations Piece Holding where
  blank _ := .workerProfile
  dependencies a := ringEdges a.kind
  load a _ := .ok (false, a.value)
  generate a _ := .ok a.value

/-- The circle is found from outside, behind a parent that is made first. -/
theorem resolve_circle_ring :
    Function.Injective (Kind.name : Piece → String) ∧ ring.NeverFails none ∧
    ((Graph.empty : Asset.Graph Piece Holding).resolve ring .kubeconfig .workerProfile).verdict =
      .error (.cycle ["cluster-spec", "region", "node-count", "cluster-spec"]) ∧
    ∃ u, ReflTransGen (Depends ring Graph.empty ⟨.kubeconfig, .workerProfile⟩) .kubeconfig u ∧
      TransGen (Depends ring Graph.empty ⟨.kubeconfig, .workerProfile⟩) u u := by
  have hd : ring.NeverFails (Graph.empty : Asset.Graph Piece Holding).files :=
    ⟨fun f hf => (by cases hf), fun _ w _ _ => ⟨w, rfl⟩⟩
  have hv : ((Graph.empty : Asset.Graph Piece Holding).resolve ring .kubeconfig
      .workerProfile).verdict =
      .error (.cycle ["cluster-spec", "region", "node-count", "cluster-spec"]) :=
    look_resolve Resolution.verdict 9 rfl
  have hc := (resolve_circle Piece.name_injective Graph.empty hd .kubeconfig .workerProfile).2.1
  exact ⟨Piece.name_injective, hd, hv, hc.1 ⟨_, hv⟩⟩

end Provision.Rehearsal
