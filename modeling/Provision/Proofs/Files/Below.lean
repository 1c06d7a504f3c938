import Provision.Proofs.Files.Change
/-!
# Files — what lies below a directory

A walk without a step up looks at nothing but what lies on its way
(`walk_eq_of_way`). So where two trees agree below a place (`AgreeBelow`),
names that are followed from there find the same. For a path that goes on
from a directory this leaves one question, where the path of the directory
itself leads to (`reach`): **if that is the same, all that is read below is
the same** (`AgreeIn.read_join`). And it is the same if something stands there
and the path has no step up, since then all that is above are directories
(`AgreeBelow.agreeIn`).
-/

namespace Provision.Files.Tree

open Provision.Files.Path (isAbsolute join segments steps step?)

variable {t t' : Tree} {p q b : Place} {names : List String} {base rel s : String}

/-- **Two trees agree below a place**, and there. -/
def AgreeBelow (t t' : Tree) (b : Place) : Prop := ∀ p, b <+: p → t.node? p = t'.node? p

/-- Where the segments of a path lead. -/
def reach (t : Tree) (path : String) : Except Error Place := t.walk (t.start path) (segments path)

/-- **Two trees agree in a directory**: its path leads to the same place, or
fails in the same way, and below that place they agree. -/
structure AgreeIn (t t' : Tree) (base : String) : Prop where
  reach : t.reach base = t'.reach base
  below : t.AgreeBelow t' (t.place base)

/-- A change elsewhere leaves all below a place. -/
theorem AgreeBelow.of_replaced {n : Option Node} (h : t.Replaced q n t') (hq : ¬ b <+: q) :
    t.AgreeBelow t' b := by
  intro p hp
  refine (h.other ?_).symm
  rintro rfl
  exact hq hp

/-! ## Walks that never go up -/

theorem isPrefix_next (p : Place) (hup : s ≠ "..") : p <+: next p s := by
  by_cases hmeans : (decide (s = "") || decide (s = ".")) = true
  · exact (next_of_means p hmeans).symm ▸ List.prefix_refl p
  · rw [next_of_ne p hmeans hup]
    exact List.prefix_append p [s]

/-- Without a step up one stays below. -/
theorem isPrefix_foldl_next (p : Place) (hup : ".." ∉ names) : p <+: names.foldl next p := by
  induction names generalizing p with
  | nil => exact List.prefix_refl p
  | cons s rest ih =>
    rw [List.mem_cons, not_or] at hup
    exact (isPrefix_next p (Ne.symm hup.1)).trans (ih (next p s) hup.2)

/-- **A walk without a step up** looks at what lies on its way, and at nothing
else. -/
theorem walk_eq_of_way (hup : ".." ∉ names)
    (h : ∀ q, p <+: q → q <+: names.foldl next p → t.node? q = t'.node? q) :
    t.walk p names = t'.walk p names := by
  induction names generalizing p with
  | nil => rfl
  | cons s rest ih =>
    rw [List.mem_cons, not_or] at hup
    obtain ⟨hs, hrest⟩ := hup
    have hhere : t.node? p = t'.node? p :=
      h p (List.prefix_refl p) (isPrefix_foldl_next p (by simp [hs, hrest]))
    rw [walk, walk, ← hhere]
    cases t.node? p with
    | none => rfl
    | some n =>
      cases n with
      | file content => rfl
      | directory =>
        dsimp only
        by_cases hmeans : (decide (s = "") || decide (s = ".")) = true
        · rw [List.foldl_cons, next_of_means p hmeans] at h
          rw [if_pos hmeans, if_pos hmeans]
          exact ih hrest h
        · rw [List.foldl_cons, next_of_ne p hmeans (Ne.symm hs)] at h
          have hnode : t.node? (p ++ [s]) = t'.node? (p ++ [s]) :=
            h _ (List.prefix_append p [s]) (isPrefix_foldl_next _ hrest)
          have hgo : t.walk (p ++ [s]) rest = t'.walk (p ++ [s]) rest :=
            ih hrest fun q hq => h q ((List.prefix_append p [s]).trans hq)
          rw [if_neg hmeans, if_neg hmeans, if_neg (Ne.symm hs), if_neg (Ne.symm hs), hnode, hgo]

theorem AgreeBelow.walk_eq (h : t.AgreeBelow t' b) (hup : ".." ∉ names) :
    t.walk b names = t'.walk b names :=
  walk_eq_of_way hup fun q hq _ => h q hq

/-! ## Paths in a directory -/

theorem place_eq_of_reach (h : t.reach base = .ok p) : t.place base = p := (eq_foldl_of_walk h).symm

/-- **A path in a directory** leads where its segments lead from there. -/
theorem reach_join (t : Tree) (base : String) (hrel : isAbsolute rel = false) :
    t.reach (join base rel) = (t.reach base).bind fun p => t.walk p (segments rel) := by
  obtain ⟨habs, names, hseg, hsteps⟩ := Path.segments_join base hrel
  have hstart : t.start (join base rel) = t.start base := by rw [start, start, habs]
  obtain ⟨s, rest, hs⟩ := List.exists_cons_of_ne_nil (Path.segments_ne_nil rel)
  rw [reach, reach, hseg, hstart, hs, ← walk_steps_append, hsteps, walk_steps_append, walk_append]

/-- What is read under a path is the file in its place. -/
theorem file?_of_read {path : String} {content : Bytes} (h : t.read path = .ok content) :
    t.file? (t.place path) = some content := by
  rw [read] at h
  cases hp : t.locate path with
  | error e =>
    rw [hp] at h
    cases h
  | ok p =>
    rw [hp] at h
    simp only [bind, Except.bind] at h
    rw [place_eq_of_locate hp, file?]
    split at h
    · next hfile =>
      obtain rfl := Except.ok.inj h
      rw [hfile]
    · cases h
    · cases h

/-- **What is read in a directory depends on what lies in it.** -/
theorem AgreeIn.read_join (h : t.AgreeIn t' base) (hrel : isAbsolute rel = false)
    (hup : ".." ∉ segments rel) : t.read (join base rel) = t'.read (join base rel) := by
  have hreach : t.reach (join base rel) = t'.reach (join base rel) := by
    rw [reach_join t base hrel, reach_join t' base hrel, ← h.reach]
    cases hb : t.reach base with
    | error e => rfl
    | ok b => exact AgreeBelow.walk_eq (place_eq_of_reach hb ▸ h.below) hup
  have hlocate : t.locate (join base rel) = t'.locate (join base rel) :=
    congrArg (fun r => check (join base rel) >>= fun _ => r) hreach
  rw [read, read, ← hlocate]
  cases hp : t.locate (join base rel) with
  | error e => rfl
  | ok p =>
    have hbelow : t.place base <+: p := by
      rw [← place_eq_of_locate hp, place_join t base hrel]
      exact isPrefix_foldl_next _ hup
    simp only [bind, Except.bind, h.below p hbelow]

/-! ## Directories that are there -/

/-- A tree is in order if what is listed stands in directories. -/
theorem closedBelow_of_forall
    (h : ∀ e ∈ t.nodes.entries, t.node? e.1.dropLast = some .directory) : t.ClosedBelow [] := by
  intro ds s hsome
  rw [List.nil_append] at hsome ⊢
  rw [node?_of_ne_nil t (by simp), ← Table.mem_keys_iff] at hsome
  obtain ⟨e, he, heq⟩ := List.mem_map.1 hsome
  have hdir := h e he
  rwa [heq, List.dropLast_concat] at hdir

/-- **Something that is there is found where it was found**, whatever changes
elsewhere: all above it are directories in both trees. -/
theorem AgreeBelow.agreeIn (h : t.AgreeBelow t' (t.place base)) (hclosed : t.ClosedBelow [])
    (hclosed' : t'.ClosedBelow []) (hhere : t'.here = t.here) (hup : ".." ∉ segments base)
    (hsome : (t.node? (t.place base)).isSome) : t.AgreeIn t' base := by
  refine ⟨?_, h⟩
  have hstart : t'.start base = t.start base := by rw [start, start, hhere]
  rw [reach, reach, hstart]
  refine walk_eq_of_way hup fun q _ hq => ?_
  obtain ⟨rest, hrest⟩ := hq
  change q ++ rest = t.place base at hrest
  cases rest with
  | nil =>
    rw [List.append_nil] at hrest
    exact h q (hrest ▸ List.prefix_refl _)
  | cons s rest =>
    have hsome' : (t'.node? (t.place base)).isSome := h _ (List.prefix_refl _) ▸ hsome
    rw [← hrest] at hsome hsome'
    have hdir : t.node? ([] ++ q) = some .directory := hclosed.isDirectory hsome
    have hdir' : t'.node? ([] ++ q) = some .directory := hclosed'.isDirectory hsome'
    exact hdir.trans hdir'.symm

end Provision.Files.Tree
