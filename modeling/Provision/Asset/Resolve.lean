import Provision.Asset.Graph
import Provision.Log
/-!
# Assets — resolution

`Graph.resolve` brings an asset and everything it depends on into the
graph, depth first and each at most once: an asset whose name is already
there is left as it is, and a name that comes up again while it is still
being worked on closes a circle. The search ends because the names being
worked on are all different and the kinds are finitely many.

Besides the graph it leaves and the verdict, a resolution keeps what
happened on the way, in order: **which loader and which generator was
called, and what was logged**. It also keeps its *attempts*: the assets it
set about making, each with the graph as it was then and what came of it.
-/

namespace Provision.Asset

/-- Something that happens while assets are resolved. -/
inductive Happening (τ : Type) where
  | loading (t : τ)
  | generating (t : τ)
  | logged (e : Log.Entry)
  deriving Repr, DecidableEq

variable {τ ν : Type} [Kind τ]

/-- The making of one asset whose dependencies are all there. -/
structure Attempt (τ ν : Type) [Kind τ] where
  /-- The asset as it was before. -/
  item : Item τ ν
  /-- The graph at that time. -/
  graph : Graph τ ν
  happenings : List (Happening τ)
  /-- The value, or why there is none. -/
  outcome : Except Error ν

/-- The outcome of resolving: the graph that is left, what happened on the
way, and the verdict. -/
structure Resolution (τ ν : Type) [Kind τ] where
  /-- The graph afterwards, also when resolving failed. -/
  graph : Graph τ ν
  happenings : List (Happening τ)
  attempts : List (Attempt τ ν)
  /-- Whether the asset is in the graph now. -/
  verdict : Except Error Unit

namespace Resolution

omit [Kind τ] in
/-- A message about one asset. -/
def about (level : Log.Level) (message name : String) : Happening τ :=
  .logged ⟨level, message, [("asset", .text name)]⟩

/-- A resolution that went on from `before`: what happened there comes
first. -/
def after (r before : Resolution τ ν) : Resolution τ ν :=
  { r with
    happenings := before.happenings ++ r.happenings
    attempts := before.attempts ++ r.attempts }

end Resolution

namespace Graph

/-- The kinds whose names are not being worked on. -/
def idle (path : List String) : List τ :=
  Kind.all.filter fun t => Kind.name t ∉ path

theorem length_filter_lt {α : Type} {p q : α → Bool} {l : List α} {a : α}
    (hpq : ∀ x, p x = true → q x = true) (ha : a ∈ l) (hp : p a = false) (hq : q a = true) :
    (l.filter p).length < (l.filter q).length := by
  rw [← List.countP_eq_length_filter, ← List.countP_eq_length_filter]
  induction l with
  | nil => cases ha
  | cons x xs ih =>
    have hle : xs.countP p ≤ xs.countP q :=
      List.countP_mono_left fun y _ h => hpq y h
    rcases List.mem_cons.1 ha with rfl | h
    · simp only [List.countP_cons, hp, hq, if_true]
      simp
      omega
    · have := ih h
      by_cases hx : p x = true
      · simp only [List.countP_cons, hx, hpq x hx]
        omega
      · simp only [List.countP_cons, hx]
        simp
        omega

/-- **Working on a kind makes it busy**: fewer kinds are idle. -/
theorem length_idle_lt {path : List String} {t : τ} (h : Kind.name t ∉ path) :
    (idle (path ++ [Kind.name t]) : List τ).length < (idle path : List τ).length :=
  length_filter_lt (fun x hx => by simp at hx ⊢; exact hx.1) (Kind.mem_all t)
    (by simp) (by simpa using h)

variable [DecidableEq τ]

/-- The value of one asset, whose dependencies are all there: as the files
give it, or else as its generator makes it. -/
def materialise (d : Declarations τ ν) (g : Graph τ ν) (a : Item τ ν) :
    List (Happening τ) × Except Error ν :=
  let name := Kind.name a.kind
  let generated (v : ν) : List (Happening τ) × Except Error ν :=
    match d.generate ⟨a.kind, v⟩ g.parents with
    | .ok v => ([.generating a.kind, Resolution.about .debug "asset generated" name], .ok v)
    | .error c => ([.generating a.kind], .error (.generate name c))
  match g.files with
  | none => generated a.value
  | some files =>
    match d.load a files with
    | .error c => ([.loading a.kind], .error (.load name c))
    | .ok (true, v) =>
      ([.loading a.kind, Resolution.about .debug "asset loaded from files" name], .ok v)
    | .ok (false, v) => (.loading a.kind :: (generated v).1, (generated v).2)

/-- The attempt at one asset, whose dependencies are all there. -/
def attempt (d : Declarations τ ν) (g : Graph τ ν) (a : Item τ ν) : Attempt τ ν :=
  let (hs, outcome) := materialise d g a
  ⟨a, g, hs, outcome⟩

/-- Puts the value of an asset into the graph, if it can be had. -/
def settle (d : Declarations τ ν) (g : Graph τ ν) (a : Item τ ν) : Resolution τ ν :=
  let t := attempt d g a
  match t.outcome with
  | .ok v => ⟨g.put a.kind v, t.happenings, [t], .ok ()⟩
  | .error e => ⟨g, t.happenings, [t], .error e⟩

mutual

/-- Resolves `a` while the names of `path` are being worked on. -/
def resolveAt (d : Declarations τ ν) (path : List String) (a : Item τ ν) (g : Graph τ ν) :
    Resolution τ ν :=
  match g.held? a.kind with
  | some h =>
    if h.kind = a.kind then
      ⟨g, [Resolution.about .trace "asset already resolved" (Kind.name a.kind)], [], .ok ()⟩
    else ⟨g, [], [], .error (collision h.kind a.kind)⟩
  | none =>
    if _h : Kind.name a.kind ∈ path then
      ⟨g, [], [], .error (.cycle (path.dropWhile (· ≠ Kind.name a.kind) ++ [Kind.name a.kind]))⟩
    else
      let r := resolveAll d (path ++ [Kind.name a.kind]) (d.parents a) g
      match r.verdict with
      | .error _ => r
      | .ok () => (settle d r.graph a).after r
termination_by ((idle path : List τ).length, 0)
decreasing_by exact Prod.Lex.left _ _ (length_idle_lt _h)

/-- Resolves assets in order, up to the first that fails. -/
def resolveAll (d : Declarations τ ν) (path : List String) :
    List (Item τ ν) → Graph τ ν → Resolution τ ν
  | [], g => ⟨g, [], [], .ok ()⟩
  | a :: as, g =>
    let r := resolveAt d path a g
    match r.verdict with
    | .error _ => r
    | .ok () => (resolveAll d path as r.graph).after r
termination_by as => ((idle path : List τ).length, as.length)

end

/-- **Brings an asset and all it depends on into the graph**, the asset
itself beginning with the value `v`. -/
def resolve (d : Declarations τ ν) (t : τ) (g : Graph τ ν) (v : ν := d.blank t) :
    Resolution τ ν :=
  resolveAt d [] ⟨t, v⟩ g

end Graph

end Provision.Asset
