import Provision.Proofs.Resolution.Circle
/-!
# Resolution — the order does not matter

Two orders of resolving visit assets in different sequences and cut each
other's search at different places, so there is nothing to compare step by
step. What they share is the graph they come to. `Solves` says of a graph,
without any search, that it answers the question put to another: it has all
that is needed, with the values that are meant, and nothing in it runs in a
circle. **A search succeeds just when some graph solves it** (`Search.solves`
and `Solves.verdict`), **and it stays within every graph that does**
(`Solves.grows_of_search`). So the outcome of one order solves the other,
and each is within the other (`resolve_order`).
-/

namespace Provision.Asset

open Asset.Graph Relation

variable {τ ν : Type} [Kind τ]

/-- **Graphs with the same assets**, in whatever order these came. -/
structure Graph.Same (g g' : Graph τ ν) : Prop where
  files : g'.files = g.files
  assets : ∀ n, g'.assets.get? n = g.assets.get? n

/-- **Declarations that list dependencies in another order**, and are
otherwise the same. -/
structure Declarations.Permutes (d' d : Declarations τ ν) : Prop where
  blank : d'.blank = d.blank
  dependencies : ∀ a, (d'.dependencies a).Perm (d.dependencies a)
  load : d'.load = d.load
  generate : d'.generate = d.generate

variable [DecidableEq τ]

/-- **A graph that answers the search for `root` from `g`.** -/
structure Solves (d : Declarations τ ν) (g : Graph τ ν) (root : Item τ ν) (s : Graph τ ν) :
    Prop where
  grows : Grows g s
  /-- What is needed has its parents. -/
  parents : ∀ b, Needed d g [root] b → ∀ u ∈ d.dependencies b, s.contains u = true
  /-- It has the value that it means over them. -/
  means : ∀ b, Needed d g [root] b → ∃ w, s.get? b.kind = some w ∧ Means d g.files s.parents b w
  /-- It runs in no circle. -/
  acc : ∀ b, Needed d g [root] b → Acc (fun u t => Depends d g root t u) b.kind

variable {d d' : Declarations τ ν} {g g' g'' s s' : Graph τ ν} {root a : Item τ ν}
variable {r r' : Resolution τ ν}

/-- They give the same for every kind. -/
theorem Graph.Same.get?_eq (h : g.Same g') (t : τ) : g'.get? t = g.get? t := by
  rw [get?, get?, held?, held?, h.assets]

omit [DecidableEq τ] in
theorem Graph.Grows.same (h : Grows g g') (h' : Grows g' g) : g.Same g' := by
  refine ⟨h.files, fun n => ?_⟩
  cases hg : g.assets.get? n with
  | some b => exact h.kept n b hg
  | none =>
    cases hg' : g'.assets.get? n with
    | none => rfl
    | some b =>
      rw [h'.kept n b hg'] at hg
      cases hg

/-! ## What a search comes to solves it -/

theorem Search.solves (hd : d.ReadsDeclared) (h : Search d [] [root] g r)
    (hv : r.verdict = .ok ()) : Solves d g root r.graph := by
  have hholds := fun b (hb : Needed d g [root] b) => h.holds hd hv hb
  refine ⟨h.grows, fun b hb => (hholds b hb).1, fun b hb => (hholds b hb).2, fun b hb => ?_⟩
  obtain ⟨-, w, hw, -⟩ := hholds b hb
  exact h.acc hv (contains_iff.2 ⟨w, get?_eq_some_iff.1 hw⟩) hb.free

/-! ## A search stays within what solves it -/

/-- The value that is meant can be had where the parents are. -/
theorem attempt_of_means {v : ν} (h : Means d g.files g.parents a v) :
    (attempt d g a).outcome = .ok v := by
  simp only [attempt, materialise]
  cases h with
  | loaded f hf hl => simp only [hf, hl]
  | generated f w hf hl hg => simp only [hf, hl, hg]
  | unfiled hf hg => simp only [hf, hg]

/-- **An asset whose turn comes within a solution has its value there**, and
is made with it. -/
theorem Solves.outcome_of_ready (hd : d.ReadsDeclared) (hs : Solves d g root s)
    (hg : Grows g g') (hg' : Grows g' s) (ha : Needed d g [root] a) (ready : Ready d g' a) :
    ∃ w, (attempt d g' a).outcome = .ok w ∧ Grows (g'.put a.kind w) s := by
  obtain ⟨w, hw, hmeans⟩ := hs.means a ha
  have hmeans' : Means d g'.files g'.parents a w :=
    hg.files ▸ (Means.of_grows hd hg' ready.parents).2 hmeans
  refine ⟨w, attempt_of_means hmeans', hg'.files, fun n b hb => ?_⟩
  rw [assets_put] at hb
  split at hb
  · next hn =>
    obtain rfl := Option.some.inj hb
    rw [← hn]
    exact get?_eq_some_iff.1 hw
  · exact hg'.kept n b hb

theorem Solves.grows_of_makes (hd : d.ReadsDeclared) (hs : Solves d g root s)
    {ts : List (Attempt τ ν)} (h : Makes d g' ts g'') (hg : Grows g g') (hg' : Grows g' s)
    (hts : ∀ t ∈ ts, Needed d g [root] t.item) : Grows g'' s := by
  induction h with
  | nil => exact hg'
  | @cons g' _ a v ts ready ho _ ih =>
    obtain ⟨w, hw, hput⟩ := hs.outcome_of_ready hd hg hg' (hts _ List.mem_cons_self) ready
    obtain rfl : v = w := Except.ok.inj (ho.symm.trans hw)
    exact ih (hg.trans (grows_put ready.free)) hput fun t ht => hts t (List.mem_cons_of_mem _ ht)

/-- **A search never leaves a solution**, however it ends. -/
theorem Solves.grows_of_search (hd : d.ReadsDeclared) (hs : Solves d g root s)
    (h : Search d [] [root] g r) : Grows r.graph s := by
  refine hs.grows_of_makes hd h.successes (.refl g) hs.grows fun t ht => ?_
  exact h.needed t (List.mem_of_mem_filter ht)

/-- The root leads to no circle in what can be solved. -/
theorem Solves.no_circle (hs : Solves d g root s) (hroot : g.held? root.kind = none) {u : τ}
    (hu : ReflTransGen (Depends d g root) root.kind u) : ¬ TransGen (Depends d g root) u u := by
  have hacc : Acc (fun u t => Depends d g root t u) u := by
    induction hu with
    | refl => exact hs.acc root (.root List.mem_cons_self hroot)
    | tail _ hedge ih => exact ih.inv hedge
  exact no_circle_of_acc hacc

/-- **A search that can be solved succeeds**, where names tell kinds apart:
no circle can close, and no attempt can fail. -/
theorem Solves.verdict (hname : Function.Injective (Kind.name : τ → String))
    (hd : d.ReadsDeclared) (hs : Solves d g root s) (h : Search d [] [root] g r) :
    r.verdict = .ok () := by
  have hwithin := hs.grows_of_search hd h
  obtain ⟨ts, hm, he⟩ := h.makes
  cases he with
  | complete hv _ => exact hv
  | circle p hv _ =>
    obtain ⟨ks, a, htrail, hin, hfree, -⟩ := h.exists_trail hname hv
    obtain ⟨hreach, hall⟩ := htrail.leads hfree (hfree _ hin)
    have hroot : g.held? root.kind = none := by
      rcases htrail.root_mem with rfl | hmem
      · exact hfree _ hin
      · exact hfree _ hmem
    exact absurd (hall _ hin) (hs.no_circle hroot hreach)
  | collision b t hheld hkind _ _ => exact absurd (hname (r.graph.named _ b hheld)) hkind
  | failed a e ready ho _ ht =>
    have hneeded : Needed d g [root] a := h.needed (attempt d r.graph a) (by simp [ht])
    obtain ⟨w, hw, -⟩ := hs.outcome_of_ready hd h.grows hwithin hneeded ready
    rw [hw] at ho
    cases ho

/-! ## Solutions in other graphs -/

/-- A solution may hold more. -/
theorem Solves.mono (hd : d.ReadsDeclared) (hs : Solves d g root s) (h : Grows s s') :
    Solves d g root s' := by
  refine ⟨hs.grows.trans h, fun b hb u hu => h.contains (hs.parents b hb u hu), fun b hb => ?_,
    hs.acc⟩
  obtain ⟨w, hw, hmeans⟩ := hs.means b hb
  exact ⟨w, h.get? hw, (Means.of_grows hd h (hs.parents b hb)).1 hmeans⟩

/-- And the search may begin further on. -/
theorem Solves.of_grows (hs : Solves d g root s) (hg : Grows g g') (h : Grows g' s) :
    Solves d g' root s := by
  refine ⟨h, fun b hb => hs.parents b (hb.of_grows hg), fun b hb => ?_, fun b hb => ?_⟩
  · rw [hg.files]
    exact hs.means b (hb.of_grows hg)
  · refine Subrelation.accessible (fun {u t} hedge => ?_) (hs.acc b (hb.of_grows hg))
    exact ⟨hg.absent hedge.left, hedge.asks, hg.absent hedge.right⟩

section Unmade

variable {t u k : τ}

omit [Kind τ] in
theorem Declarations.asks_unmade (d : Declarations τ ν) (t k : τ) :
    d.asks (d.unmade t) k = d.dependencies (d.unmade k) := by
  rw [asks]
  split
  · next heq => rw [heq]; rfl
  · rfl

/-- Assets that come unmade depend on each other in one way, whatever is
searched for. -/
theorem depends_unmade_iff {v : τ} :
    Depends d g (d.unmade t) k u ↔ Depends d g (d.unmade v) k u := by
  constructor <;> intro h <;> refine ⟨h.left, ?_, h.right⟩ <;>
    simpa only [d.asks_unmade] using h.asks

/-- **What is new was needed**, and came unmade. -/
theorem Search.needed_of_new (hname : Function.Injective (Kind.name : τ → String))
    (h : Search d [] [d.unmade t] g r) (hfree : g.held? k = none)
    (hnew : r.graph.held? k ≠ none) : Needed d g [d.unmade t] (d.unmade k) := by
  obtain ⟨b, hb⟩ := Option.ne_none_iff_exists'.1 hnew
  obtain ⟨x, hx, hkind, -⟩ := h.successes.exists_of_new hfree hb
  have hneeded := h.needed x (List.mem_of_mem_filter hx)
  have hunmade : x.item = d.unmade x.item.kind :=
    hneeded.eq_unmade fun c hc => by rw [List.mem_singleton.1 hc]; rfl
  have hbk : b.kind = k := hname (r.graph.named _ b hb)
  rwa [hunmade, hkind, hbk] at hneeded

/-- What is needed for a second asset was needed for the first, or is
needed still. -/
theorem Needed.split (hname : Function.Injective (Kind.name : τ → String))
    (h : Search d [] [d.unmade t] g r) {c : Item τ ν} (hc : Needed d g [d.unmade u] c) :
    Needed d g [d.unmade t] c ∨ Needed d r.graph [d.unmade u] c := by
  have hnew : ∀ k, g.held? k = none → r.graph.held? k ≠ none →
      Needed d g [d.unmade t] (d.unmade k) := fun k => h.needed_of_new hname
  induction hc with
  | root ha hfree =>
    rw [List.mem_singleton] at ha
    subst ha
    by_cases hheld : r.graph.held? u = none
    · exact Or.inr (.root List.mem_cons_self hheld)
    · exact Or.inl (hnew u hfree hheld)
  | @parent b c _ hb hfree ih =>
    rcases ih with ih | ih
    · exact Or.inl (.parent ih hb hfree)
    · by_cases hheld : r.graph.held? c.kind = none
      · exact Or.inr (.parent ih hb hheld)
      · rw [d.eq_unmade_of_mem_parents hb]
        exact Or.inl (hnew c.kind hfree hheld)

/-- **The second of two resolutions solves its search from the start**: what
the first brought is what it would have brought itself. -/
theorem Search.solves_second (hname : Function.Injective (Kind.name : τ → String))
    (hd : d.ReadsDeclared) (h : Search d [] [d.unmade t] g r) (hv : r.verdict = .ok ())
    (h' : Search d [] [d.unmade u] r.graph r') (hv' : r'.verdict = .ok ()) :
    Solves d g (d.unmade u) r'.graph := by
  have hs : Solves d g (d.unmade t) r'.graph := (h.solves hd hv).mono hd h'.grows
  have hs' : Solves d r.graph (d.unmade u) r'.graph := h'.solves hd hv'
  -- what the first needed is well founded, for whichever asset it is looked for
  have hfirst : ∀ c, Needed d g [d.unmade t] c →
      Acc (fun v k => Depends d g (d.unmade u) k v) c.kind := fun c hc =>
    Subrelation.accessible depends_unmade_iff.1 (hs.acc c hc)
  -- and so is what the second needs besides, each step of which stays or leads to the first
  have hsecond : ∀ k, Acc (fun v k => Depends d r.graph (d.unmade u) k v) k →
      r.graph.held? k = none → Acc (fun v k => Depends d g (d.unmade u) k v) k := by
    intro k hk
    induction hk with
    | intro k _ ih =>
      refine fun hfree => Acc.intro _ fun v hedge => ?_
      by_cases hheld : r.graph.held? v = none
      · exact ih v ⟨hfree, hedge.asks, hheld⟩ hheld
      · exact hfirst _ (h.needed_of_new hname hedge.right hheld)
  refine ⟨h.grows.trans h'.grows, fun c hc => ?_, fun c hc => ?_, fun c hc => ?_⟩
  · exact (hc.split hname h).elim (hs.parents c) (hs'.parents c)
  · refine (hc.split hname h).elim (hs.means c) fun hc' => ?_
    rw [← h.grows.files]
    exact hs'.means c hc'
  · exact (hc.split hname h).elim (hfirst c) fun hc' => hsecond _ (hs'.acc c hc') hc'.free

/-- **Two resolutions can be exchanged**: the other order succeeds too, and
ends within the graph of the first. -/
theorem resolve_swap (hname : Function.Injective (Kind.name : τ → String))
    (hd : d.ReadsDeclared) (g : Graph τ ν) (t u : τ) (hv : (g.resolve d t).verdict = .ok ())
    (hv' : ((g.resolve d t).graph.resolve d u).verdict = .ok ()) :
    (g.resolve d u).verdict = .ok () ∧ ((g.resolve d u).graph.resolve d t).verdict = .ok () ∧
    Grows ((g.resolve d u).graph.resolve d t).graph ((g.resolve d t).graph.resolve d u).graph := by
  have h := search_resolve d t g (d.blank t)
  have h' := search_resolve d u (g.resolve d t).graph (d.blank u)
  have k := search_resolve d u g (d.blank u)
  have k' := search_resolve d t (g.resolve d u).graph (d.blank t)
  have hsecond := h.solves_second hname hd hv h' hv'
  have hwithin := hsecond.grows_of_search hd k
  -- the graph that both come to solves the search for the other asset as well, further on
  have hfirst := ((h.solves hd hv).mono hd h'.grows).of_grows k.grows hwithin
  exact ⟨hsecond.verdict hname hd k, hfirst.verdict hname hd k', hfirst.grows_of_search hd k'⟩

end Unmade

/-! ## Dependencies in another order -/

namespace Declarations.Permutes

omit [Kind τ] [DecidableEq τ] in
theorem symm (h : d'.Permutes d) : d.Permutes d' :=
  ⟨h.blank.symm, fun a => (h.dependencies a).symm, h.load.symm, h.generate.symm⟩

omit [Kind τ] [DecidableEq τ] in
theorem unmade_eq (h : d'.Permutes d) : d'.unmade = d.unmade := by
  funext t
  rw [unmade, unmade, h.blank]

omit [Kind τ] [DecidableEq τ] in
theorem readsDeclared (h : d'.Permutes d) (hd : d.ReadsDeclared) : d'.ReadsDeclared := by
  intro a w p p' hp
  rw [h.generate]
  exact hd a w p p' fun u hu => hp u ((h.dependencies a).mem_iff.2 hu)

omit [DecidableEq τ] in
theorem needed (h : d'.Permutes d) {b : Item τ ν} (hb : Needed d' g [root] b) :
    Needed d g [root] b := by
  induction hb with
  | root ha hfree => exact .root ha hfree
  | @parent a b _ hb hfree ih =>
    obtain ⟨u, hu, rfl⟩ := List.mem_map.1 hb
    rw [h.unmade_eq] at hfree ⊢
    exact .parent ih (List.mem_map_of_mem ((h.dependencies a).mem_iff.1 hu)) hfree

theorem depends (h : d'.Permutes d) {t u : τ} (hu : Depends d' g root t u) :
    Depends d g root t u := by
  refine ⟨hu.left, ?_, hu.right⟩
  have hasks := hu.asks
  rw [asks, h.unmade_eq] at hasks
  exact (h.dependencies _).mem_iff.1 hasks

omit [DecidableEq τ] [Kind τ] in
theorem means (h : d'.Permutes d) {files : Option Fetcher} {p : Parents τ ν} {v : ν}
    (hm : Means d files p a v) : Means d' files p a v := by
  cases hm with
  | loaded f hf hl => exact .loaded f hf (h.load ▸ hl)
  | generated f w hf hl hg => exact .generated f w hf (h.load ▸ hl) (h.generate ▸ hg)
  | unfiled hf hg => exact .unfiled hf (h.generate ▸ hg)

/-- **A solution is one in every order.** -/
theorem solves (h : d'.Permutes d) (hs : Solves d g root s) : Solves d' g root s := by
  refine ⟨hs.grows, fun b hb u hu => ?_, fun b hb => ?_, fun b hb => ?_⟩
  · exact hs.parents b (h.needed hb) u ((h.dependencies b).mem_iff.1 hu)
  · obtain ⟨w, hw, hmeans⟩ := hs.means b (h.needed hb)
    exact ⟨w, hw, h.means hmeans⟩
  · exact Subrelation.accessible h.depends (hs.acc b (h.needed hb))

/-- What succeeds in one order of dependencies succeeds in another, and ends
within the graph of the first. -/
theorem resolve (h : d'.Permutes d) (hname : Function.Injective (Kind.name : τ → String))
    (hd : d.ReadsDeclared) (g : Graph τ ν) (t : τ) (v : ν)
    (hv : (g.resolve d t v).verdict = .ok ()) :
    (g.resolve d' t v).verdict = .ok () ∧
      Grows (g.resolve d' t v).graph (g.resolve d t v).graph := by
  have hs := h.solves ((search_resolve d t g v).solves hd hv)
  have k := search_resolve d' t g v
  exact ⟨hs.verdict hname (h.readsDeclared hd) k, hs.grows_of_search (h.readsDeclared hd) k⟩

end Declarations.Permutes

/-- **The order of resolving does not matter**, where names tell kinds apart
and generators read what they declare. Two assets can be resolved in either
order: both orders succeed or neither does, and they come to the same
graph. And the dependencies of every asset can be listed in any order: a
resolution succeeds in all of them or in none, with the same graph. -/
theorem resolve_order (hname : Function.Injective (Kind.name : τ → String))
    (hd : d.ReadsDeclared) (g : Graph τ ν) :
    (∀ t u : τ,
      let tu := (g.resolve d t).graph.resolve d u
      let ut := (g.resolve d u).graph.resolve d t
      ((g.resolve d t).verdict = .ok () ∧ tu.verdict = .ok () ↔
        (g.resolve d u).verdict = .ok () ∧ ut.verdict = .ok ()) ∧
      ((g.resolve d t).verdict = .ok () → tu.verdict = .ok () → tu.graph.Same ut.graph)) ∧
    ∀ (d' : Declarations τ ν) (t : τ) (v : ν), d'.Permutes d →
      ((g.resolve d' t v).verdict = .ok () ↔ (g.resolve d t v).verdict = .ok ()) ∧
      ((g.resolve d t v).verdict = .ok () →
        (g.resolve d t v).graph.Same (g.resolve d' t v).graph) := by
  refine ⟨fun t u => ⟨⟨fun h => ?_, fun h => ?_⟩, fun hv hv' => ?_⟩, fun d' t v h => ?_⟩
  · obtain ⟨hu, hut, -⟩ := resolve_swap hname hd g t u h.1 h.2
    exact ⟨hu, hut⟩
  · obtain ⟨ht, htu, -⟩ := resolve_swap hname hd g u t h.1 h.2
    exact ⟨ht, htu⟩
  · obtain ⟨hu, hut, hwithin⟩ := resolve_swap hname hd g t u hv hv'
    obtain ⟨-, -, hwithin'⟩ := resolve_swap hname hd g u t hu hut
    exact hwithin'.same hwithin
  · have hd' := h.readsDeclared hd
    refine ⟨⟨fun hv => (h.symm.resolve hname hd' g t v hv).1,
      fun hv => (h.resolve hname hd g t v hv).1⟩, fun hv => ?_⟩
    obtain ⟨hv', hwithin⟩ := h.resolve hname hd g t v hv
    exact (h.symm.resolve hname hd' g t v hv').2.same hwithin

end Provision.Asset

/-! ## A rehearsal -/

namespace Provision.Rehearsal

open Asset

/-- What the pieces of a cluster depend on. -/
def clusterEdges : Piece → List Piece
  | .clusterSpec => [.region, .nodeCount]
  | .adminKey => [.region]
  | .kubeconfig => [.adminKey, .clusterSpec]
  | _ => []

/-- Pieces that are made of their region. -/
def regional : Declarations Piece Holding where
  blank _ := .workerProfile
  dependencies a := clusterEdges a.kind
  load a _ := .ok (false, a.value)
  generate a p :=
    match a.kind with
    | .region => .ok (.region "north")
    | .clusterSpec => ((p .region).map fun h => .clusterSpec "one" h.write).mapError Error.toCause
    | .adminKey => ((p .region).map fun h => .adminKey h.write).mapError Error.toCause
    | _ => .ok a.value

theorem regional_readsDeclared : regional.ReadsDeclared := by
  rintro ⟨kind, value⟩ w p p' hp
  cases kind with
  | clusterSpec => simp only [regional, hp .region List.mem_cons_self]
  | adminKey => simp only [regional, hp .region List.mem_cons_self]
  | region => rfl
  | nodeCount => rfl
  | kubeconfig => rfl
  | workerProfile => rfl

/-- The dependencies of each piece, the last one first. -/
def regionalReversed : Declarations Piece Holding :=
  { regional with dependencies := fun a => (clusterEdges a.kind).reverse }

/-- A cluster of which nothing is there yet. -/
def unbuilt : Asset.Graph Piece Holding := Graph.empty

/-- Two pieces over one region are made in either order, with the same graph,
and so is the piece over both, whichever of them it asks for first. What they
are made of is the one region. -/
theorem resolve_order_regional :
    Function.Injective (Kind.name : Piece → String) ∧ regional.ReadsDeclared ∧
    regionalReversed.Permutes regional ∧
    let keyFirst := (unbuilt.resolve regional .adminKey).graph.resolve regional .clusterSpec
    let specFirst := (unbuilt.resolve regional .clusterSpec).graph.resolve regional .adminKey
    let both := unbuilt.resolve regional .kubeconfig
    let reversed := unbuilt.resolve regionalReversed .kubeconfig
    ((unbuilt.resolve regional .adminKey).verdict = .ok () ∧ keyFirst.verdict = .ok () ∧
      (unbuilt.resolve regional .clusterSpec).verdict = .ok () ∧ specFirst.verdict = .ok ()) ∧
    keyFirst.graph.Same specFirst.graph ∧
    (both.verdict = .ok () ∧ reversed.verdict = .ok ()) ∧ both.graph.Same reversed.graph ∧
    specFirst.graph.get? .adminKey = some (.adminKey (Holding.region "north").write) ∧
    reversed.graph.get? .clusterSpec =
      some (.clusterSpec "one" (Holding.region "north").write) := by
  have hperm : regionalReversed.Permutes regional :=
    ⟨rfl, fun a => List.reverse_perm _, rfl, rfl⟩
  have hkey : (unbuilt.resolve regional .adminKey).verdict = .ok () :=
    look_resolve Resolution.verdict 9 rfl
  -- the second of two resolutions is evaluated from what is seen of the first
  let seen (r : Resolution Piece Holding) := (r.verdict, r.graph.get? .adminKey)
  have hkeyFirst : seen ((unbuilt.resolve regional .adminKey).graph.resolve regional
      .clusterSpec) = (.ok (), some (.adminKey (Holding.region "north").write)) :=
    look_resolve seen 9 <| look_resolve (fun r =>
      (searchWithin regional 9 [] [⟨.clusterSpec, .workerProfile⟩] r.graph).map seen) 9 rfl
  obtain ⟨hkeySpec, hmadeKey⟩ := Prod.mk.inj hkeyFirst
  have hboth : (unbuilt.resolve regional .kubeconfig).verdict = .ok () :=
    look_resolve Resolution.verdict 9 rfl
  have hmadeSpec : (unbuilt.resolve regional .kubeconfig).graph.get? .clusterSpec =
      some (.clusterSpec "one" (Holding.region "north").write) :=
    look_resolve (fun r => r.graph.get? Piece.clusterSpec) 9 rfl
  obtain ⟨horder, hlists⟩ := resolve_order Piece.name_injective regional_readsDeclared unbuilt
  obtain ⟨hsucceed, hsame⟩ := horder .adminKey .clusterSpec
  obtain ⟨hsucceed', hsame'⟩ := hlists _ .kubeconfig .workerProfile hperm
  obtain ⟨hspec, hspecKey⟩ := hsucceed.1 ⟨hkey, hkeySpec⟩
  have hsame := hsame hkey hkeySpec
  have hsame' := hsame' hboth
  exact ⟨Piece.name_injective, regional_readsDeclared, hperm, ⟨hkey, hkeySpec, hspec, hspecKey⟩,
    hsame, ⟨hboth, hsucceed'.2 hboth⟩, hsame', (hsame.get?_eq _).trans hmadeKey,
    (hsame'.get?_eq _).trans hmadeSpec⟩

end Provision.Rehearsal
