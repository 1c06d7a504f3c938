import Provision.Proofs.Files.Walk
/-!
# Files — the place of a path

There are no links, so the text of a path says where it leads: a name goes
into a directory, `..` out of one, and all other segments stay (`place`). The
tree has a say in whether one gets there, and nothing else: **whatever a
question finds, it finds in that place** (`place_eq_of_locate`,
`place_eq_of_canCreate`).

What a question answers is turned round here: a place that may be written has
a directory around it and no directory in it.
-/

namespace Provision.Files.Tree

open Provision.Files.Path (isAbsolute join segments steps step?)

variable {t t' : Tree} {p q b dir : Place} {names front : List String} {path s : String}

/-! ## Places by the text -/

/-- Where one segment leads. -/
def next (p : Place) (s : String) : Place :=
  match step? s with
  | some (.named s) => p ++ [s]
  | some .parent => p.dropLast
  | _ => p

/-- **The place of a path**, whatever stands there. -/
def place (t : Tree) (path : String) : Place := (segments path).foldl next (t.start path)

/-- The content of the file at a place, if there is a file. -/
def file? (t : Tree) (p : Place) : Option Bytes :=
  match t.node? p with
  | some (.file content) => some content
  | _ => none

theorem Keeps.place_eq (h : t.Keeps t') (path : String) : t'.place path = t.place path := by
  rw [place, place, start, start, h.here]

theorem next_of_named (p : Place) (hs : step? s = some (.named s)) : next p s = p ++ [s] := by
  rw [next, hs]

theorem next_of_means (p : Place) (hmeans : (decide (s = "") || decide (s = ".")) = true) :
    next p s = p := by
  rw [next, step?, if_pos hmeans]

theorem next_of_ne (p : Place) (hmeans : ¬ (decide (s = "") || decide (s = ".")) = true)
    (hup : s ≠ "..") : next p s = p ++ [s] :=
  next_of_named p (by rw [step?, if_neg hmeans, if_neg hup])

theorem foldl_next_of_named (p : Place) (h : ∀ s ∈ names, step? s = some (.named s)) :
    names.foldl next p = p ++ names := by
  induction names generalizing p with
  | nil => rw [List.foldl_nil, List.append_nil]
  | cons s rest ih =>
    have hrest : ∀ s ∈ rest, step? s = some (.named s) := fun s hs =>
      h s (List.mem_cons_of_mem _ hs)
    rw [List.foldl_cons, next_of_named p (h s List.mem_cons_self), ih _ hrest]
    exact (List.append_cons p s rest).symm

/-- Segments that mean nothing lead nowhere. -/
theorem foldl_next_steps (p : Place) (names : List String) :
    (steps names).foldl next p = names.foldl next p := by
  induction names generalizing p with
  | nil => rfl
  | cons s rest ih =>
    rw [List.foldl_cons]
    cases hs : step? s with
    | none =>
      have hstay : next p s = p := by rw [next, hs]
      rw [Path.steps_cons_of_none hs, hstay, ih]
    | some c => rw [Path.steps_cons_of_some hs, List.foldl_cons, ih]

/-- **The place of a path in a directory** is where its segments lead from
the place of the directory. -/
theorem place_join (t : Tree) (base : String) {rel : String} (hrel : isAbsolute rel = false) :
    t.place (join base rel) = (segments rel).foldl next (t.place base) := by
  obtain ⟨habs, names, hseg, hsteps⟩ := Path.segments_join base hrel
  have hstart : t.start (join base rel) = t.start base := by rw [start, start, habs]
  have hbase : names.foldl next (t.start base) = t.place base := by
    rw [← foldl_next_steps, hsteps, foldl_next_steps]
    rfl
  rw [place, hseg, hstart, List.foldl_append, hbase]

/-- It is below that place, by the names that are its steps, if none of them
goes up. -/
theorem place_join_of_notMem (t : Tree) (base : String) {rel : String}
    (hrel : isAbsolute rel = false) (hup : ".." ∉ segments rel) :
    t.place (join base rel) = t.place base ++ steps (segments rel) := by
  have hnamed : ∀ s ∈ steps (segments rel), step? s = some (.named s) := by
    intro s hs
    refine Path.step?_of_mem_steps hs ?_
    rintro rfl
    exact hup (List.mem_filter.1 hs).1
  rw [place_join t base hrel, ← foldl_next_steps, foldl_next_of_named _ hnamed]

/-- **A walk ends where its segments lead.** -/
theorem eq_foldl_of_walk (h : t.walk p names = .ok q) : q = names.foldl next p := by
  induction names generalizing p with
  | nil =>
    rw [walk] at h
    exact (Except.ok.inj h).symm
  | cons s rest ih =>
    rw [walk] at h
    rw [List.foldl_cons]
    split at h
    · cases h
    · cases h
    split at h
    · next hstay =>
      rw [next_of_means p hstay]
      exact ih h
    next hstay =>
    split at h
    · next hup =>
      have hstep : step? s = some .parent := by rw [step?, if_neg hstay, if_pos hup]
      have hnext : next p s = p.dropLast := by rw [next, hstep]
      rw [hnext]
      exact ih h
    next hup =>
    split at h
    · cases h
    split at h
    · rw [next_of_ne p hstay hup]
      exact ih h
    · cases h

/-! ## What the questions find -/

/-- **A place in a directory.** -/
def InDirectory (t : Tree) (p : Place) : Prop :=
  ∃ dir s, p = dir ++ [s] ∧ t.node? dir = some .directory

theorem InDirectory.ne_nil (h : t.InDirectory p) : p ≠ [] := by
  obtain ⟨dir, s, rfl, -⟩ := h
  simp

theorem walk_of_locate (h : t.locate path = .ok p) :
    check path = .ok () ∧ t.walk (t.start path) (segments path) = .ok p := by
  rw [locate] at h
  cases hcheck : check path with
  | error e =>
    rw [hcheck] at h
    cases h
  | ok u =>
    rw [hcheck] at h
    exact ⟨rfl, h⟩

/-- A walk whose last segment is a name ends at something in a directory. -/
theorem exists_of_walk_concat (hs : step? s = some (.named s))
    (h : t.walk p (front ++ [s]) = .ok q) :
    ∃ dir, t.walk p front = .ok dir ∧ t.node? dir = some .directory ∧
      Utf8.size s ≤ nameLimit ∧ (t.node? (dir ++ [s])).isSome ∧ q = dir ++ [s] := by
  have hnext : q = next (front.foldl next p) s := by
    rw [eq_foldl_of_walk h, List.foldl_append, List.foldl_cons, List.foldl_nil]
  rw [walk_append] at h
  cases hw : t.walk p front with
  | error e =>
    rw [hw] at h
    cases h
  | ok dir =>
    rw [← eq_foldl_of_walk hw, next_of_named dir hs] at hnext
    subst hnext
    rw [hw, Except.bind, walk] at h
    refine ⟨dir, rfl, ?_⟩
    split at h
    · cases h
    · cases h
    next hdir =>
    rw [step?] at hs
    split at hs
    · cases hs
    next hmeans =>
    split at hs
    · cases hs
    next hup =>
    rw [if_neg hmeans, if_neg hup] at h
    split at h
    · cases h
    next hlong =>
    split at h
    · next hsome => exact ⟨hdir, Nat.not_lt.1 hlong, hsome, rfl⟩
    · cases h

theorem locateNew_iff (hseg : segments path = front ++ [s]) :
    t.locateNew path = .ok p ↔
      check path = .ok () ∧ ∃ dir, t.walk (t.start path) front = .ok dir ∧
        t.node? dir = some .directory ∧ Utf8.size s ≤ nameLimit ∧ p = dir ++ [s] := by
  have hdrop : (front ++ [s]).dropLast = front := List.dropLast_concat
  have hlast : (front ++ [s]).getLast?.getD "" = s := by rw [List.getLast?_concat]; rfl
  simp only [locateNew, hseg, hdrop, hlast, bind, Except.bind]
  cases check path with
  | error e => simp
  | ok u =>
    cases t.walk (t.start path) front with
    | error e => simp
    | ok dir =>
      cases hdir : t.node? dir with
      | none => simp [hdir, throw, throwThe, MonadExceptOf.throw]
      | some n =>
        cases n with
        | file c => simp [hdir, throw, throwThe, MonadExceptOf.throw]
        | directory =>
          by_cases hlong : nameLimit < Utf8.size s
          · simp [hdir, hlong, Nat.not_le.2 hlong, throw, throwThe, MonadExceptOf.throw]
          · simp [hdir, hlong, Nat.not_lt.1 hlong, pure, Except.pure, eq_comm]

/-- Where directories stay, new things get the places that they got before. -/
theorem Keeps.locateNew (h : t.Keeps t') (hnew : t.locateNew path = .ok p) :
    t'.locateNew path = .ok p := by
  obtain ⟨front, s, hseg⟩ := Path.exists_segments path
  obtain ⟨hcheck, dir, hw, hdir, hshort, rfl⟩ := (locateNew_iff hseg).1 hnew
  refine (locateNew_iff hseg).2 ⟨hcheck, dir, ?_, h.directory dir hdir, hshort, rfl⟩
  rw [start, h.here]
  exact h.walk hdir hw

/-- **Under a path that ends in a name** one finds what stands in its place,
or nothing. -/
theorem locate_of_locateNew (hseg : segments path = front ++ [s])
    (hs : step? s = some (.named s)) (h : t.locateNew path = .ok p) :
    t.locate path = if (t.node? p).isSome then .ok p else .error .notFound := by
  obtain ⟨hcheck, dir, hw, hdir, hshort, rfl⟩ := (locateNew_iff hseg).1 h
  have hfits : Fits s := ⟨hs, hshort⟩
  rw [locate, hcheck, hseg]
  change t.walk (t.start path) (front ++ [s]) = _
  rw [walk_append, hw]
  exact walk_cons_of_fits hfits hdir

theorem locate_iff (hseg : segments path = front ++ [s]) (hs : step? s = some (.named s)) :
    t.locate path = .ok p ↔ t.locateNew path = .ok p ∧ (t.node? p).isSome := by
  constructor
  · intro h
    obtain ⟨hcheck, hw⟩ := walk_of_locate h
    rw [hseg] at hw
    obtain ⟨dir, hfront, hdir, hshort, hsome, rfl⟩ := exists_of_walk_concat hs hw
    exact ⟨(locateNew_iff hseg).2 ⟨hcheck, dir, hfront, hdir, hshort, rfl⟩, hsome⟩
  · rintro ⟨hnew, hsome⟩
    rw [locate_of_locateNew hseg hs hnew, if_pos hsome]

theorem inDirectory_of_locateNew (h : t.locateNew path = .ok p) : t.InDirectory p := by
  obtain ⟨front, s, hseg⟩ := Path.exists_segments path
  obtain ⟨-, dir, -, hdir, -, rfl⟩ := (locateNew_iff hseg).1 h
  exact ⟨dir, s, rfl, hdir⟩

/-- **What is found under a path stands in its place.** -/
theorem place_eq_of_locate (h : t.locate path = .ok p) : t.place path = p :=
  (eq_foldl_of_walk (walk_of_locate h).2).symm

/-- So does what is made under it, if the path ends in a name. -/
theorem place_eq_of_locateNew (hseg : segments path = front ++ [s])
    (hs : step? s = some (.named s)) (h : t.locateNew path = .ok p) : t.place path = p := by
  obtain ⟨-, dir, hw, -, -, rfl⟩ := (locateNew_iff hseg).1 h
  rw [place, hseg, List.foldl_append, ← eq_foldl_of_walk hw, List.foldl_cons, List.foldl_nil,
    next_of_named dir hs]

/-- A directory is made in a directory, where nothing stands. -/
theorem free_of_canMakeDirectory (h : t.canMakeDirectory path = .ok p) :
    t.InDirectory p ∧ t.node? p = none := by
  rw [canMakeDirectory] at h
  cases hlocate : t.locate path with
  | ok q =>
    rw [hlocate] at h
    cases h
  | error e =>
    rw [hlocate] at h
    cases e with
    | notFound =>
      refine ⟨inDirectory_of_locateNew h, ?_⟩
      obtain ⟨front, s, hseg⟩ := Path.exists_segments path
      obtain ⟨hcheck, dir, hw, hdir, hshort, rfl⟩ := (locateNew_iff hseg).1 h
      -- the walk to the directory went well, so it is the last segment that is missing
      rw [locate, hcheck, hseg] at hlocate
      change t.walk (t.start path) (front ++ [s]) = _ at hlocate
      rw [walk_append, hw] at hlocate
      simp only [Except.bind, walk, hdir] at hlocate
      split at hlocate
      · cases hlocate
      split at hlocate
      · cases hlocate
      split at hlocate
      · cases hlocate
      split at hlocate
      · cases hlocate
      · next hnone => exact Option.not_isSome_iff_eq_none.1 hnone
    | _ => cases h

/-- What refuses directories answers with all other places. -/
theorem refusing_iff (r : Except Error Place) :
    (r.bind fun q => if t.isDirectoryAt q then .error .isADirectory else .ok q) = .ok p ↔
      r = .ok p ∧ t.node? p ≠ some .directory := by
  cases r with
  | error e => simp [Except.bind]
  | ok q =>
    simp only [Except.bind, isDirectoryAt, decide_eq_true_eq]
    constructor
    · intro h
      split at h
      · cases h
      · next hno =>
        obtain rfl := Except.ok.inj h
        exact ⟨rfl, hno⟩
    · rintro ⟨h, hno⟩
      obtain rfl := Except.ok.inj h
      exact if_neg hno

/-- A file is written where no directory stands. -/
theorem canCreate_iff :
    t.canCreate path = .ok p ↔ t.locateNew path = .ok p ∧ t.node? p ≠ some .directory :=
  refusing_iff (t.locateNew path)

theorem place_eq_of_canCreate (hseg : segments path = front ++ [s])
    (hs : step? s = some (.named s)) (h : t.canCreate path = .ok p) : t.place path = p :=
  place_eq_of_locateNew hseg hs (canCreate_iff.1 h).1

/-- What is removed is there, and is no directory. -/
theorem canRemove_iff :
    t.canRemove path = .ok p ↔ t.locate path = .ok p ∧ t.node? p ≠ some .directory :=
  refusing_iff (t.locate path)

end Provision.Files.Tree
