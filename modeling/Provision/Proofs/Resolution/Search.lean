import Provision.Asset.Resolve
/-!
# Resolution — the search as a derivation

`resolveAt` and `resolveAll` call each other and end by a measure. What
they do is said here once, by the rules of one relation, `Search`: one rule
for each way in which the first asset of a list can turn out. Every fact
about resolution is an induction on these rules, and **no other module
unfolds the two functions**. The rules mention no measure, so
`search_resolve` says at the same time that the search ends. A search of
given assets is evaluated by `searchWithin`, and the resolution comes to the
same (`look_resolve`).
-/

namespace Provision.Asset

open Asset.Graph

variable {τ ν : Type} [Kind τ]

namespace Resolution

variable (r before : Resolution τ ν)

@[simp] theorem graph_after : (r.after before).graph = r.graph := rfl

@[simp] theorem verdict_after : (r.after before).verdict = r.verdict := rfl

@[simp] theorem happenings_after :
    (r.after before).happenings = before.happenings ++ r.happenings := rfl

@[simp] theorem attempts_after :
    (r.after before).attempts = before.attempts ++ r.attempts := rfl

/-- The resolution that finds nothing to do. -/
def idle (g : Graph τ ν) : Resolution τ ν := ⟨g, [], [], .ok ()⟩

/-- The resolution that stops before it has done anything. -/
def refused (g : Graph τ ν) (e : Error) : Resolution τ ν := ⟨g, [], [], .error e⟩

/-- The resolution that finds an asset in its place. -/
def found (g : Graph τ ν) (t : τ) : Resolution τ ν :=
  ⟨g, [about .trace "asset already resolved" (Kind.name t)], [], .ok ()⟩

@[simp] theorem idle_after (h : before.verdict = .ok ()) :
    (idle before.graph).after before = before := by
  cases before
  subst h
  simp [after, idle]

end Resolution

namespace Graph

variable [DecidableEq τ] {d : Declarations τ ν} {g : Graph τ ν} {a : Item τ ν}

/-- Making an asset puts its value under its name. -/
theorem settle_of_ok {v : ν} (h : (attempt d g a).outcome = .ok v) :
    settle d g a = ⟨g.put a.kind v, (attempt d g a).happenings, [attempt d g a], .ok ()⟩ := by
  simp only [settle, h]

/-- A value that cannot be had leaves the graph alone. -/
theorem settle_of_error {e : Error} (h : (attempt d g a).outcome = .error e) :
    settle d g a = ⟨g, (attempt d g a).happenings, [attempt d g a], .error e⟩ := by
  simp only [settle, h]

@[simp] theorem attempt_item : (attempt d g a).item = a := rfl

end Graph

variable [DecidableEq τ]

/-- **The search for assets**, one after the other, while the names of
`path` are being worked on. -/
inductive Search (d : Declarations τ ν) :
    List String → List (Item τ ν) → Graph τ ν → Resolution τ ν → Prop
  /-- No asset is left. -/
  | done {path : List String} {g : Graph τ ν} : Search d path [] g (.idle g)
  /-- The asset is there. -/
  | present {path : List String} {a : Item τ ν} {as : List (Item τ ν)} {g : Graph τ ν}
      {h : Item τ ν} {r : Resolution τ ν} (hheld : g.held? a.kind = some h)
      (hkind : h.kind = a.kind) (rest : Search d path as g r) :
      Search d path (a :: as) g (r.after (.found g a.kind))
  /-- Another kind stands under the name. -/
  | collides {path : List String} {a : Item τ ν} {as : List (Item τ ν)} {g : Graph τ ν}
      {h : Item τ ν} (hheld : g.held? a.kind = some h) (hkind : h.kind ≠ a.kind) :
      Search d path (a :: as) g (.refused g (collision h.kind a.kind))
  /-- The name is being worked on. -/
  | circle {path : List String} {a : Item τ ν} {as : List (Item τ ν)} {g : Graph τ ν}
      (hheld : g.held? a.kind = none) (hpath : Kind.name a.kind ∈ path) :
      Search d path (a :: as) g
        (.refused g (.cycle (path.dropWhile (· ≠ Kind.name a.kind) ++ [Kind.name a.kind])))
  /-- A parent cannot be had. -/
  | blocked {path : List String} {a : Item τ ν} {as : List (Item τ ν)} {g : Graph τ ν}
      {r : Resolution τ ν} {e : Error} (hheld : g.held? a.kind = none)
      (hpath : Kind.name a.kind ∉ path)
      (above : Search d (path ++ [Kind.name a.kind]) (d.parents a) g r)
      (hv : r.verdict = .error e) : Search d path (a :: as) g r
  /-- All parents are there, and the asset itself fails. -/
  | failed {path : List String} {a : Item τ ν} {as : List (Item τ ν)} {g : Graph τ ν}
      {r : Resolution τ ν} {e : Error} (hheld : g.held? a.kind = none)
      (hpath : Kind.name a.kind ∉ path)
      (above : Search d (path ++ [Kind.name a.kind]) (d.parents a) g r)
      (hv : r.verdict = .ok ()) (ho : (attempt d r.graph a).outcome = .error e) :
      Search d path (a :: as) g ((settle d r.graph a).after r)
  /-- All parents are there, and the asset is made. -/
  | made {path : List String} {a : Item τ ν} {as : List (Item τ ν)} {g : Graph τ ν}
      {r r' : Resolution τ ν} {v : ν} (hheld : g.held? a.kind = none)
      (hpath : Kind.name a.kind ∉ path)
      (above : Search d (path ++ [Kind.name a.kind]) (d.parents a) g r)
      (hv : r.verdict = .ok ()) (ho : (attempt d r.graph a).outcome = .ok v)
      (rest : Search d path as (r.graph.put a.kind v) r') :
      Search d path (a :: as) g (r'.after ((settle d r.graph a).after r))

/-! ## The functions follow the rules -/

/-- How the resolution of one asset enters the search for a list that
begins with it. -/
structure Leads (d : Declarations τ ν) (path : List String) (a : Item τ ν) (g : Graph τ ν)
    (r : Resolution τ ν) : Prop where
  /-- A failure is the failure of the whole list. -/
  stop : ∀ as e, r.verdict = .error e → Search d path (a :: as) g r
  /-- After a success the rest of the list is searched. -/
  go : ∀ as r', r.verdict = .ok () → Search d path as r.graph r' →
    Search d path (a :: as) g (r'.after r)

theorem leads_resolveAt (d : Declarations τ ν) (path : List String) (a : Item τ ν)
    (g : Graph τ ν) : Leads d path a g (resolveAt d path a g) := by
  -- the cases are the branches of the two functions; the parents are searched in `blocked` and
  -- `settled`, and the rest of a list in `go`
  refine (resolveAt.mutual_induct d
    (fun path a g => Leads d path a g (resolveAt d path a g))
    (fun path as g => Search d path as g (resolveAll d path as g))
    ?present ?collides ?circle ?blocked ?settled ?nil ?stop ?go).1 path a g
  case present =>
    intro path a g h hheld hkind
    rw [resolveAt, hheld]
    simp only [if_pos hkind]
    exact ⟨fun as e he => (by cases he), fun as r' _ hr => .present hheld hkind hr⟩
  case collides =>
    intro path a g h hheld hkind
    rw [resolveAt, hheld]
    simp only [if_neg hkind]
    exact ⟨fun as e _ => .collides hheld hkind, fun as r' he => (by cases he)⟩
  case circle =>
    intro path a g hheld hpath
    rw [resolveAt, hheld]
    simp only [dif_pos hpath]
    exact ⟨fun as e _ => .circle hheld hpath, fun as r' he => (by cases he)⟩
  case blocked =>
    intro path a g hheld hpath r e hv above
    rw [resolveAt, hheld]
    simp only [dif_neg hpath, show resolveAll d _ _ g = r from rfl, hv]
    exact ⟨fun as _ _ => .blocked hheld hpath above hv,
      fun as r' he => (by rw [hv] at he; cases he)⟩
  case settled =>
    intro path a g hheld hpath r hv above
    rw [resolveAt, hheld]
    simp only [dif_neg hpath, show resolveAll d _ _ g = r from rfl, hv]
    cases ho : (attempt d r.graph a).outcome with
    | error e =>
      refine ⟨fun as _ _ => .failed hheld hpath above hv ho, fun as r' he => ?_⟩
      rw [settle_of_error ho] at he
      cases he
    | ok v =>
      refine ⟨fun as e he => ?_, fun as r' _ hr => ?_⟩
      · rw [settle_of_ok ho] at he
        cases he
      · refine .made hheld hpath above hv ho ?_
        rwa [Resolution.graph_after, settle_of_ok ho] at hr
  case nil =>
    intro path g
    rw [resolveAll]
    exact .done
  case stop =>
    intro path a as g r e hv hl
    rw [resolveAll]
    simp only [show resolveAt d path a g = r from rfl, hv]
    exact hl.stop as e hv
  case go =>
    intro path a as g r hv hl hs
    rw [resolveAll]
    simp only [show resolveAt d path a g = r from rfl, hv]
    exact hl.go as _ hv hs

/-- The resolution of an asset is the search for it alone. -/
theorem Leads.search {path : List String} {a : Item τ ν} {d : Declarations τ ν} {g : Graph τ ν}
    {r : Resolution τ ν} (h : Leads d path a g r) : Search d path [a] g r := by
  cases hv : r.verdict with
  | error e => exact h.stop [] e hv
  | ok u =>
    have halone := h.go [] _ hv .done
    rwa [Resolution.idle_after _ hv] at halone

/-- **Resolving is searching.** -/
theorem search_resolve (d : Declarations τ ν) (t : τ) (g : Graph τ ν) (v : ν) :
    Search d [] [⟨t, v⟩] g (g.resolve d t v) :=
  (leads_resolveAt d [] ⟨t, v⟩ g).search

/-! ## The rules determine the search -/

/-- **Every search ends**: the rules lead somewhere, whatever is searched
for. -/
theorem exists_search (d : Declarations τ ν) (path : List String) (as : List (Item τ ν))
    (g : Graph τ ν) : ∃ r, Search d path as g r := by
  induction as generalizing g with
  | nil => exact ⟨_, .done⟩
  | cons a as ih =>
    have hl := leads_resolveAt d path a g
    cases hv : (resolveAt d path a g).verdict with
    | error e => exact ⟨_, hl.stop as e hv⟩
    | ok u =>
      obtain ⟨r', h'⟩ := ih (resolveAt d path a g).graph
      exact ⟨_, hl.go as r' hv h'⟩

variable {d : Declarations τ ν} {path : List String} {as : List (Item τ ν)} {g : Graph τ ν}
variable {r r' : Resolution τ ν}

/-- The rules lead where the functions lead. -/
theorem Search.eq_resolveAll (h : Search d path as g r) : r = resolveAll d path as g := by
  induction h with
  | done =>
    rw [resolveAll]
    rfl
  | present hheld hkind _ ih =>
    rw [resolveAll, resolveAt, hheld]
    simp only [if_pos hkind, ← ih]
    rfl
  | collides hheld hkind =>
    rw [resolveAll, resolveAt, hheld]
    simp only [if_neg hkind]
    rfl
  | circle hheld hpath =>
    rw [resolveAll, resolveAt, hheld]
    simp only [dif_pos hpath]
    rfl
  | blocked hheld hpath _ hv ih =>
    rw [resolveAll, resolveAt, hheld]
    simp only [dif_neg hpath, ← ih, hv]
  | failed hheld hpath _ hv ho ih =>
    rw [resolveAll, resolveAt, hheld]
    simp only [dif_neg hpath, ← ih, hv, settle_of_error ho, Resolution.verdict_after]
  | made hheld hpath _ hv ho _ ih ih' =>
    rw [resolveAll, resolveAt, hheld]
    simp only [dif_neg hpath, ← ih, hv, settle_of_ok ho, Resolution.verdict_after,
      Resolution.graph_after, ← ih']

/-- **And to one place only.** -/
theorem Search.unique (h : Search d path as g r) (h' : Search d path as g r') : r = r' :=
  h.eq_resolveAll.trans h'.eq_resolveAll.symm

/-! ## Following the rules for a while -/

/-- **The search, if it takes no more than some number of rules** one inside
the other. This is recursion on the number, so that a search can be evaluated;
`resolveAt` is recursion on a measure, which cannot. -/
def searchWithin (d : Declarations τ ν) :
    Nat → List String → List (Item τ ν) → Graph τ ν → Option (Resolution τ ν)
  | 0, _, _, _ => none
  | _ + 1, _, [], g => some (.idle g)
  | n + 1, path, a :: as, g =>
    match g.held? a.kind with
    | some h =>
      if h.kind = a.kind then (searchWithin d n path as g).map (·.after (.found g a.kind))
      else some (.refused g (collision h.kind a.kind))
    | none =>
      if Kind.name a.kind ∈ path then
        some (.refused g (.cycle (path.dropWhile (· ≠ Kind.name a.kind) ++ [Kind.name a.kind])))
      else
        (searchWithin d n (path ++ [Kind.name a.kind]) (d.parents a) g).bind fun r =>
          match r.verdict with
          | .error _ => some r
          | .ok () =>
            match (attempt d r.graph a).outcome with
            | .error _ => some ((settle d r.graph a).after r)
            | .ok v =>
              (searchWithin d n path as (r.graph.put a.kind v)).map
                (·.after ((settle d r.graph a).after r))

/-- What comes of it is what the rules lead to. -/
theorem search_of_searchWithin {n : Nat} (h : searchWithin d n path as g = some r) :
    Search d path as g r := by
  induction n generalizing path as g r with
  | zero => cases h
  | succ n ih =>
    cases as with
    | nil =>
      obtain rfl := Option.some.inj h
      exact .done
    | cons a as =>
      rw [searchWithin] at h
      split at h
      · next held hheld =>
        split at h
        · next hkind =>
          obtain ⟨r', hr, rfl⟩ := Option.map_eq_some_iff.1 h
          exact .present hheld hkind (ih hr)
        · next hkind =>
          obtain rfl := Option.some.inj h
          exact .collides hheld hkind
      · next hheld =>
        split at h
        · next hpath =>
          obtain rfl := Option.some.inj h
          exact .circle hheld hpath
        · next hpath =>
          obtain ⟨above, habove, h⟩ := Option.bind_eq_some_iff.1 h
          split at h
          · next e hv =>
            obtain rfl := Option.some.inj h
            exact .blocked hheld hpath (ih habove) hv
          · next hv =>
            split at h
            · next e ho =>
              obtain rfl := Option.some.inj h
              exact .failed hheld hpath (ih habove) hv ho
            · next v ho =>
              obtain ⟨r', hr, rfl⟩ := Option.map_eq_some_iff.1 h
              exact .made hheld hpath (ih habove) hv ho (ih hr)

/-- **What is seen of a resolution** is what is seen of the search that is
evaluated. -/
theorem look_resolve {α : Type} (look : Resolution τ ν → α) (n : Nat) {x : α} {t : τ} {v : ν}
    (h : (searchWithin d n [] [⟨t, v⟩] g).map look = some x) : look (g.resolve d t v) = x := by
  obtain ⟨r, hr, rfl⟩ := Option.map_eq_some_iff.1 h
  rw [(search_resolve d t g v).unique (search_of_searchWithin hr)]

end Provision.Asset
