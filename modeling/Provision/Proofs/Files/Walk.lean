import Provision.Proofs.Files.Path
import Mathlib.Data.List.Induction
/-!
# Files — walking

Where a path leads is a matter of the tree. Two things are kept apart here:
the text of a path, which leads to some directory and goes on from there by
some names (`Leads`), and the names, which are followed below that directory.
In a tree where everything stands in a directory (`ClosedBelow`), **names
lead to what stands there, or to nothing** (`Passable.walk`), as long as no
file is in the way.
-/

namespace Provision.Files.Tree

open Provision.Files.Path (segments steps step?)

variable {t t' : Tree} {p q b : Place} {names : List String} {path : String}

/-! ## Steps of a walk -/

theorem walk_append (t : Tree) (p : Place) (names names' : List String) :
    t.walk p (names ++ names') = (t.walk p names).bind fun q => t.walk q names' := by
  induction names generalizing p with
  | nil => rfl
  | cons s rest ih =>
    rw [List.cons_append, walk, walk]
    cases t.node? p with
    | none => rfl
    | some n =>
      cases n with
      | file content => rfl
      | directory =>
        dsimp only
        split
        · exact ih p
        split
        · exact ih p.dropLast
        split
        · rfl
        split
        · exact ih (p ++ [s])
        · rfl

/-- The directories of one tree are directories in the other, and relative
paths start from the same one. -/
structure Keeps (t t' : Tree) : Prop where
  directory : ∀ p, t.node? p = some .directory → t'.node? p = some .directory
  here : t'.here = t.here

theorem Keeps.refl (t : Tree) : t.Keeps t := ⟨fun _ h => h, rfl⟩

theorem Keeps.trans {t'' : Tree} (h : t.Keeps t') (h' : t'.Keeps t'') : t.Keeps t'' :=
  ⟨fun p hp => h'.directory p (h.directory p hp), h'.here.trans h.here⟩

/-- A walk that leads to a directory starts in one. -/
theorem isDirectory_of_walk (hb : t.node? b = some .directory) (hw : t.walk p names = .ok b) :
    t.node? p = some .directory := by
  cases names with
  | nil =>
    obtain rfl : p = b := by injection hw
    exact hb
  | cons s rest =>
    rw [walk] at hw
    cases hp : t.node? p with
    | none => rw [hp] at hw; cases hw
    | some n =>
      cases n with
      | file content => rw [hp] at hw; cases hw
      | directory => rfl

/-- **Where directories stay, ways to directories stay.** -/
theorem Keeps.walk (h : t.Keeps t') (hb : t.node? b = some .directory)
    (hw : t.walk p names = .ok b) : t'.walk p names = .ok b := by
  induction names generalizing p with
  | nil => exact hw
  | cons s rest ih =>
    have hp : t.node? p = some .directory := isDirectory_of_walk hb hw
    rw [Tree.walk, hp] at hw
    rw [Tree.walk, h.directory p hp]
    dsimp only at hw ⊢
    split at hw
    · next hstay => rw [if_pos hstay]; exact ih hw
    next hstay =>
    rw [if_neg hstay]
    split at hw
    · next hup => rw [if_pos hup]; exact ih hw
    next hup =>
    rw [if_neg hup]
    split at hw
    · cases hw
    next hlong =>
    rw [if_neg hlong]
    split at hw
    · have hnext : t.node? (p ++ [s]) = some .directory := isDirectory_of_walk hb hw
      rw [h.directory _ hnext]
      exact ih hw
    · cases hw

/-- What follows a segment matters only by where it leads. -/
theorem walk_cons_congr {s : String} {rest rest' : List String}
    (h : ∀ p, t.walk p rest = .ok b ↔ t.walk p rest' = .ok b) :
    t.walk p (s :: rest) = .ok b ↔ t.walk p (s :: rest') = .ok b := by
  rw [walk, walk]
  cases t.node? p with
  | none => exact Iff.rfl
  | some n =>
    cases n with
    | file content => exact Iff.rfl
    | directory =>
      by_cases hstay : (decide (s = "") || decide (s = ".")) = true
      · simp only [if_pos hstay, h]
      by_cases hup : s = ".."
      · simp only [if_neg hstay, if_pos hup, h]
      by_cases hlong : nameLimit < Utf8.size s
      · simp only [if_neg hstay, if_neg hup, if_pos hlong]
      by_cases hnode : (t.node? (p ++ [s])).isSome = true
      · simp only [if_pos hnode, if_neg hstay, if_neg hup, if_neg hlong, h]
      · simp only [if_neg hnode, if_neg hstay, if_neg hup, if_neg hlong]

/-- **Only the steps of a path matter** where it leads to a directory. -/
theorem walk_steps (hb : t.node? b = some .directory) :
    t.walk p (steps names) = .ok b ↔ t.walk p names = .ok b := by
  induction names generalizing p with
  | nil => exact Iff.rfl
  | cons s rest ih =>
    by_cases hs : s = "" ∨ s = "."
    · have hskip : steps (s :: rest) = steps rest :=
        Path.steps_cons_of_none (by obtain rfl | rfl := hs <;> decide)
      have hstay : (decide (s = "") || decide (s = ".")) = true := by simpa using hs
      rw [hskip, ih, walk, hstay]
      constructor
      · intro hw
        rw [isDirectory_of_walk hb hw]
        exact hw
      · intro hw
        split at hw
        · cases hw
        · cases hw
        · exact hw
    · obtain ⟨c, hc⟩ : ∃ c, step? s = some c := by
        rw [step?, if_neg (by simpa using hs)]
        split <;> exact ⟨_, rfl⟩
      rw [Path.steps_cons_of_some hc]
      exact walk_cons_congr fun p => ih

/-- So paths with the same steps lead to the same directory. -/
theorem walk_congr (hb : t.node? b = some .directory) {names' : List String}
    (h : steps names = steps names') (hw : t.walk p names = .ok b) : t.walk p names' = .ok b :=
  (walk_steps hb).1 (h ▸ (walk_steps hb).2 hw)

/-- In front of another segment, only steps matter, wherever it leads. -/
theorem walk_steps_append {s : String} {rest : List String} :
    t.walk p (steps names ++ s :: rest) = t.walk p (names ++ s :: rest) := by
  induction names generalizing p with
  | nil => rfl
  | cons a names ih =>
    cases ha : step? a with
    | none =>
      -- what the segment asks of its place, the one behind it asks as well
      obtain ⟨a', more, hmore⟩ := List.exists_cons_of_ne_nil
        (show names ++ s :: rest ≠ [] by simp)
      have hstay : (decide (a = "") || decide (a = ".")) = true := by
        by_contra hmeans
        rw [step?, if_neg hmeans] at ha
        split at ha <;> cases ha
      rw [Path.steps_cons_of_none ha, ih, List.cons_append, hmore]
      conv_rhs => rw [walk]
      cases hp : t.node? p with
      | none => rw [walk, hp]
      | some n =>
        cases n with
        | file content => rw [walk, hp]
        | directory => exact (if_pos hstay).symm
    | some c =>
      rw [Path.steps_cons_of_some ha, List.cons_append, List.cons_append, walk, walk]
      simp only [ih]

/-! ## Names below a directory -/

/-- A place is not on the way to the directory that it is in. -/
theorem not_isPrefix_concat (dirs : Place) (s : String) : ¬ dirs ++ [s] <+: dirs := by
  intro h
  have hlen := h.length_le
  rw [List.length_append, List.length_singleton] at hlen
  omega

/-- A name of something in a directory. -/
structure Fits (s : String) : Prop where
  named : step? s = some (.named s)
  short : Utf8.size s ≤ nameLimit

/-- **Whatever stands below `b` stands in a directory.** -/
def ClosedBelow (t : Tree) (b : Place) : Prop :=
  ∀ ds s, (t.node? (b ++ ds ++ [s])).isSome → t.node? (b ++ ds) = some .directory

theorem ClosedBelow.below (h : t.ClosedBelow b) (ds : Place) : t.ClosedBelow (b ++ ds) := by
  intro ds' s
  rw [List.append_assoc b]
  exact h (ds ++ ds') s

/-- Nothing stands below what is missing. -/
theorem ClosedBelow.node?_eq_none (h : t.ClosedBelow b) {ds ds' : Place}
    (hnone : t.node? (b ++ ds) = none) : t.node? (b ++ ds ++ ds') = none := by
  induction ds' using List.reverseRecOn with
  | nil => rwa [List.append_nil]
  | append_singleton ds' s ih =>
    rw [Option.eq_none_iff_forall_not_mem]
    intro n hn
    have hdir := h (ds ++ ds') s (by
      rw [← List.append_assoc, List.append_assoc (b ++ ds), Option.mem_def.1 hn]
      rfl)
    rw [← List.append_assoc, ih] at hdir
    cases hdir

/-- What is on the way to something is a directory. -/
theorem ClosedBelow.isDirectory (h : t.ClosedBelow b) {ds rest : Place} {s : String}
    (hsome : (t.node? (b ++ (ds ++ s :: rest))).isSome) : t.node? (b ++ ds) = some .directory := by
  refine h ds s ?_
  rw [Option.isSome_iff_ne_none]
  intro hnone
  rw [List.append_assoc] at hnone
  have hbelow : t.node? (b ++ (ds ++ [s]) ++ rest) = none := h.node?_eq_none hnone
  rw [List.append_assoc, List.append_assoc, List.singleton_append] at hbelow
  rw [hbelow] at hsome
  cases hsome

theorem walk_cons_of_fits {s : String} (hs : Fits s) (hp : t.node? p = some .directory) :
    t.walk p (s :: names) =
      if (t.node? (p ++ [s])).isSome then t.walk (p ++ [s]) names else .error .notFound := by
  have hnamed := hs.named
  rw [step?] at hnamed
  split at hnamed
  · cases hnamed
  next hmeans =>
  split at hnamed
  · cases hnamed
  next hup =>
  rw [walk, hp]
  simp only [if_neg hmeans, if_neg hup, if_neg (Nat.not_lt.2 hs.short)]

/-- Names that can be followed below `b`, as far as they go: nothing but
directories is on the way. -/
structure Passable (t : Tree) (b : Place) (names : List String) : Prop where
  base : t.node? b = some .directory
  closed : t.ClosedBelow b
  fits : ∀ s ∈ names, Fits s
  way : ∀ ds s rest, names = ds ++ s :: rest → ∀ c, t.node? (b ++ ds) ≠ some (.file c)

theorem Passable.of_append {more : List String} (h : t.Passable b (names ++ more)) :
    t.Passable b names where
  base := h.base
  closed := h.closed
  fits s hs := h.fits s (List.mem_append_left _ hs)
  way ds s rest heq := h.way ds s (rest ++ more) (by rw [heq, List.append_assoc]; rfl)

/-- Names of something can be followed. -/
theorem ClosedBelow.passable (h : t.ClosedBelow b) (hb : t.node? b = some .directory)
    (hfits : ∀ s ∈ names, Fits s) (hsome : (t.node? (b ++ names)).isSome) :
    t.Passable b names where
  base := hb
  closed := h
  fits := hfits
  way ds s rest heq c hfile := by
    have hdir : t.node? (b ++ ds) = some .directory := h.isDirectory (heq ▸ hsome)
    rw [hdir] at hfile
    cases hfile

/-- What is on the way is a directory, or is missing. -/
theorem Passable.isDirectory {ds rest : List String} {s : String}
    (h : t.Passable b (ds ++ s :: rest)) (hsome : (t.node? (b ++ ds)).isSome) :
    t.node? (b ++ ds) = some .directory := by
  obtain ⟨n, hn⟩ := Option.isSome_iff_exists.1 hsome
  cases n with
  | directory => exact hn
  | file c => exact absurd hn (h.way ds s rest rfl c)

/-- If the names lead somewhere, there are directories all the way. -/
theorem Passable.isDirectory_of_isPrefix {s : String} (h : t.Passable b (names ++ [s]))
    (hsome : (t.node? (b ++ names)).isSome) {ds : List String} (hds : ds <+: names) :
    t.node? (b ++ ds) = some .directory := by
  obtain ⟨more, rfl⟩ := hds
  have hsome' : (t.node? (b ++ ds)).isSome := by
    rw [Option.isSome_iff_ne_none]
    intro hnone
    rw [← List.append_assoc, h.closed.node?_eq_none hnone] at hsome
    cases hsome
  cases more with
  | nil =>
    rw [List.append_nil] at h
    exact h.isDirectory hsome'
  | cons s' more =>
    rw [List.append_assoc] at h
    exact h.isDirectory hsome'

/-- What is beside something can be followed, too. -/
theorem Passable.beside {s s' : String} (h : t.Passable b (names ++ [s])) (hs' : Fits s') :
    t.Passable b (names ++ [s']) where
  base := h.base
  closed := h.closed
  fits s hs := by
    obtain hs | hs := List.mem_append.1 hs
    · exact h.fits s (List.mem_append_left _ hs)
    · exact List.mem_singleton.1 hs ▸ hs'
  way ds s₁ rest heq := by
    obtain ⟨more, hmore⟩ : ds <+: names := by
      obtain h' | h' := List.prefix_concat_iff.1 ⟨s₁ :: rest, heq.symm⟩
      · have hlen := congrArg List.length (h' ▸ heq)
        simp at hlen
      · exact h'
    cases more with
    | nil =>
      rw [List.append_nil] at hmore
      exact h.way ds s [] (by rw [hmore])
    | cons s₂ more => exact h.way ds s₂ (more ++ [s]) (by rw [← hmore, List.append_assoc]; rfl)

/-- **Names lead to what stands there, or to nothing**, if no file is in the
way. -/
theorem Passable.walk (h : t.Passable b names) :
    t.walk b names =
      if (t.node? (b ++ names)).isSome then .ok (b ++ names) else .error .notFound := by
  obtain ⟨base, closed, fits, way⟩ := h
  induction names generalizing b with
  | nil =>
    rw [List.append_nil, base, Tree.walk]
    rfl
  | cons s rest ih =>
    have hassoc : b ++ s :: rest = b ++ [s] ++ rest := List.append_cons ..
    rw [walk_cons_of_fits (fits s List.mem_cons_self) base, hassoc]
    split
    · next hsome =>
      obtain ⟨n, hn⟩ := Option.isSome_iff_exists.1 hsome
      have hway : ∀ ds s' rest', rest = ds ++ s' :: rest' →
          ∀ c, t.node? (b ++ [s] ++ ds) ≠ some (.file c) := by
        intro ds s' rest' heq
        rw [← List.append_cons b]
        exact way (s :: ds) s' rest' (by rw [heq]; rfl)
      cases rest with
      | nil => rw [List.append_nil, Tree.walk, if_pos hsome]
      | cons s' rest' =>
        refine ih ?_ (closed.below [s]) (fun s hs => fits s (List.mem_cons_of_mem _ hs)) hway
        cases n with
        | directory => exact hn
        | file c => exact absurd hn (by simpa using hway [] s' rest' rfl c)
    · next hnone =>
      rw [Option.not_isSome_iff_eq_none] at hnone
      rw [closed.node?_eq_none hnone]
      rfl

/-- **Names lead to no place below a file.** -/
theorem ClosedBelow.walk_of_file (h : t.ClosedBelow b) (hb : t.node? b = some .directory)
    {ds rest : List String} {s : String} {content : Bytes} (hfits : ∀ s ∈ ds, Fits s)
    (hfile : t.node? (b ++ ds) = some (.file content)) :
    t.walk b (ds ++ s :: rest) = .error .notADirectory := by
  have hp : t.Passable b ds := h.passable hb hfits (Option.isSome_of_eq_some hfile)
  have hwalk : t.walk b ds = .ok (b ++ ds) := by
    rw [hp.walk, hfile]
    rfl
  rw [walk_append, hwalk, Except.bind, Tree.walk, hfile]

/-! ## Paths -/

theorem check_iff {path : String} :
    check path = .ok () ↔
      '\x00' ∉ path.toList ∧ path ≠ "" ∧ Utf8.size path < pathLimit := by
  rw [check]
  split
  · next h => simp [h]
  split
  · next h => simp [h]
  split
  · next h => simp [Nat.not_lt.2 h]
  · next h₁ h₂ h₃ => simp [h₁, h₂, Nat.not_le.1 h₃]

theorem check_of_long {path : String} (hnul : '\x00' ∉ path.toList)
    (hlong : pathLimit ≤ Utf8.size path) : check path = .error .nameTooLong := by
  have hne : path ≠ "" := by
    rintro rfl
    exact absurd hlong (by decide)
  rw [check, if_neg hnul, if_neg hne, if_pos hlong]

/-- The system takes the beginning of a path that it takes. -/
theorem check_of_append {path suffix : String} (h : check (path ++ suffix) = .ok ())
    (hne : path ≠ "") : check path = .ok () := by
  obtain ⟨hnul, -, hsize⟩ := check_iff.1 h
  rw [String.toList_append, List.mem_append, not_or] at hnul
  rw [Path.size_append] at hsize
  exact check_iff.2 ⟨hnul.1, hne, Nat.lt_of_le_of_lt (Nat.le_add_right _ _) hsize⟩

/-- **A path that leads to the directory `b` and goes on by these names.** -/
structure Leads (t : Tree) (path : String) (b : Place) (names : List String) : Prop where
  check : Tree.check path = .ok ()
  segments : ∃ front, Path.segments path = front ++ names ∧ t.walk (t.start path) front = .ok b

theorem Leads.kept (h : t.Leads path b names) (hb : t.node? b = some .directory)
    (ht : t.Keeps t') : t'.Leads path b names := by
  obtain ⟨front, heq, hw⟩ := h.segments
  refine ⟨h.check, front, heq, ?_⟩
  rw [start, ht.here]
  exact ht.walk hb hw

theorem Leads.locate (h : t.Leads path b names) : t.locate path = t.walk b names := by
  obtain ⟨front, heq, hw⟩ := h.segments
  rw [Tree.locate, h.check, heq, walk_append, hw]
  rfl

theorem Leads.locate_eq (h : t.Leads path b names) (hp : t.Passable b names) :
    t.locate path =
      if (t.node? (b ++ names)).isSome then .ok (b ++ names) else .error .notFound :=
  h.locate.trans hp.walk

/-- A new thing gets its place in the directory that the other names lead
to, if its own name is not too long. -/
theorem Leads.locateNew_eq {s : String} (h : t.Leads path b (names ++ [s])) :
    t.locateNew path = (t.walk b names).bind fun directory =>
      match t.node? directory with
      | some .directory =>
        if nameLimit < Utf8.size s then .error .nameTooLong else .ok (directory ++ [s])
      | some (.file _) => .error .notADirectory
      | none => .error .notFound := by
  obtain ⟨front, heq, hw⟩ := h.segments
  have hwalk : t.walk (t.start path) (front ++ names) = t.walk b names := by
    rw [walk_append, hw]
    rfl
  have hdrop : (front ++ (names ++ [s])).dropLast = front ++ names := by
    rw [← List.append_assoc, List.dropLast_concat]
  have hlast : (front ++ (names ++ [s])).getLast?.getD "" = s := by
    rw [← List.append_assoc, List.getLast?_concat]
    rfl
  simp only [Tree.locateNew, h.check, heq, bind, Except.bind, hdrop, hlast, hwalk]
  rfl

theorem Leads.locateNew {s : String} (h : t.Leads path b (names ++ [s]))
    (hp : t.Passable b (names ++ [s])) :
    t.locateNew path =
      if (t.node? (b ++ names)).isSome then .ok (b ++ (names ++ [s])) else .error .notFound := by
  have hshort : ¬ nameLimit < Utf8.size s :=
    Nat.not_lt.2 (hp.fits s (List.mem_append_right _ (List.mem_singleton_self s))).short
  rw [h.locateNew_eq, hp.of_append.walk]
  by_cases hsome : (t.node? (b ++ names)).isSome = true
  · rw [if_pos hsome, if_pos hsome]
    simp only [Except.bind, hp.isDirectory hsome, if_neg hshort, List.append_assoc]
  · rw [if_neg hsome, if_neg hsome]
    rfl

/-- A name that is too long gets no place. -/
theorem Leads.locateNew_of_long {s : String} (h : t.Leads path b (names ++ [s]))
    (hp : t.Passable b names) (hdir : t.node? (b ++ names) = some .directory)
    (hlong : nameLimit < Utf8.size s) : t.locateNew path = .error .nameTooLong := by
  rw [h.locateNew_eq, hp.walk, hdir, Option.isSome_some, if_pos rfl]
  simp only [Except.bind, hdir, if_pos hlong]

/-- A directory can be made where nothing stands, in a directory. -/
theorem Leads.canMakeDirectory {s : String} (h : t.Leads path b (names ++ [s]))
    (hp : t.Passable b (names ++ [s])) :
    t.canMakeDirectory path =
      if (t.node? (b ++ (names ++ [s]))).isSome then .error .alreadyThere
      else if (t.node? (b ++ names)).isSome then .ok (b ++ (names ++ [s]))
      else .error .notFound := by
  rw [Tree.canMakeDirectory, h.locate_eq hp]
  by_cases hsome : (t.node? (b ++ (names ++ [s]))).isSome = true
  · rw [if_pos hsome, if_pos hsome]
    rfl
  · rw [if_neg hsome, if_neg hsome]
    exact h.locateNew hp

/-- A file can be created in a directory, where no directory stands. -/
theorem Leads.canCreate {s : String} (h : t.Leads path b (names ++ [s]))
    (hp : t.Passable b (names ++ [s])) (hdir : t.node? (b ++ names) = some .directory)
    (hno : t.node? (b ++ (names ++ [s])) ≠ some .directory) :
    t.canCreate path = .ok (b ++ (names ++ [s])) := by
  rw [Tree.canCreate, h.locateNew hp, hdir]
  simp only [bind, Except.bind, Option.isSome_some, if_true, isDirectoryAt, decide_eq_true_eq,
    if_neg hno]
  rfl

end Provision.Files.Tree
