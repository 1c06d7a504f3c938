import Provision.Files.Tree
import Mathlib.Algebra.GroupWithZero.Nat
/-!
# Files — the segments of a path

A path and the texts between its slashes are the same thing said twice:
`segments` and joining with slashes undo each other. The segments that mean
nothing can be left out (`steps`), which makes a path no longer and puts no
new character into it.
-/

namespace Provision

namespace Split

variable {sep : Char → Bool}

/-- What has no separator in it goes to the last part. -/
theorem parts_append_of_forall {as bs p : List Char} {ps : List (List Char)}
    (h : ∀ c ∈ bs, sep c = false) (hp : parts sep as = ps ++ [p]) :
    parts sep (as ++ bs) = ps ++ [p ++ bs] := by
  induction as generalizing ps p with
  | nil =>
    obtain ⟨rfl, rfl⟩ : ps = [] ∧ p = [] := by
      have h' : ps ++ [p] = [] ++ [[]] := hp.symm
      exact ⟨List.append_inj_left' h' rfl, List.singleton_inj.1 (List.append_inj_right' h' rfl)⟩
    exact parts_of_forall h
  | cons a as ih =>
    rw [List.cons_append, parts]
    rw [parts] at hp
    split at hp
    · next ha =>
      rw [if_pos ha]
      cases ps with
      | nil => exact absurd (List.cons.inj hp).2 (parts_ne_nil sep as)
      | cons q qs =>
        obtain ⟨rfl, hqs⟩ := List.cons.inj hp
        rw [ih hqs]
        rfl
    · next ha =>
      rw [if_neg ha]
      cases hr : parts sep as with
      | nil => exact absurd hr (parts_ne_nil sep as)
      | cons r rs =>
        rw [hr] at hp
        cases ps with
        | nil =>
          obtain ⟨rfl, rfl⟩ := List.cons.inj hp
          have htail : parts sep (as ++ bs) = [] ++ [r ++ bs] := ih hr
          rw [htail]
          rfl
        | cons q qs =>
          obtain ⟨rfl, rfl⟩ := List.cons.inj hp
          have htail : parts sep (as ++ bs) = r :: qs ++ [p ++ bs] := ih hr
          rw [htail]
          rfl

end Split

namespace Files.Path

variable {path s : String} {c : Char}

theorem segments_slash (a b : String) :
    segments (a ++ "/" ++ b) = segments a ++ segments b :=
  Split.texts_append (c := '/') rfl a b

theorem segments_ne_nil (path : String) : segments path ≠ [] := by
  rw [segments, Split.texts, Ne, List.map_eq_nil_iff]
  exact Split.parts_ne_nil _ _

theorem exists_segments (path : String) : ∃ front last, segments path = front ++ [last] :=
  ⟨_, _, (List.dropLast_concat_getLast (segments_ne_nil path)).symm⟩

/-- What has no slash in it is one segment. -/
theorem segments_of_notMem (h : '/' ∉ s.toList) : segments s = [s] := by
  refine Split.texts_of_forall fun c hc => ?_
  rw [isSlash, decide_eq_false_iff_not]
  rintro rfl
  exact h hc

theorem slash_notMem (h : s ∈ segments path) : '/' ∉ s.toList := by
  obtain ⟨p, hp, rfl⟩ := List.mem_map.1 h
  intro hc
  rw [String.toList_ofList] at hc
  exact absurd (Split.sep_of_mem_parts hp hc) (by decide)

/-- **What is put behind a path belongs to its last segment**, if it has no
slash in it. -/
theorem segments_append {suffix : String} {names : List String} {last : String}
    (hsuffix : '/' ∉ suffix.toList) (h : segments path = names ++ [last]) :
    segments (path ++ suffix) = names ++ [last ++ suffix] := by
  have hsep : ∀ c ∈ suffix.toList, isSlash c = false := by
    intro c hc
    rw [isSlash, decide_eq_false_iff_not]
    rintro rfl
    exact hsuffix hc
  rw [segments, Split.texts] at h ⊢
  obtain ⟨ps, qs, hparts, hps, hqs⟩ := List.map_eq_append_iff.1 h
  obtain ⟨p, rest, rfl, rfl, hrest⟩ := List.map_eq_cons_iff.1 hqs
  obtain rfl := List.map_eq_nil_iff.1 hrest
  rw [String.toList_append, Split.parts_append_of_forall hsep hparts, List.map_append, hps]
  simp

/-! ## Joining with slashes -/

theorem segments_intercalate {names : List String} (hne : names ≠ [])
    (h : ∀ s ∈ names, '/' ∉ s.toList) : segments ("/".intercalate names) = names := by
  induction names with
  | nil => exact absurd rfl hne
  | cons a rest ih =>
    have ha : segments a = [a] := segments_of_notMem (h a List.mem_cons_self)
    cases rest with
    | nil => rw [String.intercalate_singleton, ha]
    | cons b rest =>
      rw [String.intercalate_cons_cons, segments_slash, ha,
        ih (List.cons_ne_nil _ _) fun s hs => h s (List.mem_cons_of_mem _ hs)]
      rfl

theorem ofList_cons (c : Char) (cs : List Char) :
    String.ofList (c :: cs) = String.singleton c ++ String.ofList cs := by
  rw [← String.toList_inj]
  simp

/-- **A path is its segments with slashes between them.** -/
theorem intercalate_segments (path : String) : "/".intercalate (segments path) = path := by
  have hparts : ∀ cs : List Char,
      "/".intercalate ((Split.parts isSlash cs).map String.ofList) = String.ofList cs := by
    intro cs
    induction cs with
    | nil => rfl
    | cons c cs ih =>
      rw [Split.parts]
      cases hps : Split.parts isSlash cs with
      | nil => exact absurd hps (Split.parts_ne_nil _ _)
      | cons p ps =>
        rw [hps] at ih
        split
        · next hc =>
          obtain rfl : c = '/' := of_decide_eq_true hc
          rw [List.map_cons, List.map_cons, String.intercalate_cons_cons, ← List.map_cons, ih,
            ofList_cons]
          rfl
        · rw [List.map_cons] at ih ⊢
          rw [ofList_cons, String.intercalate_cons_append, ih, ← ofList_cons]
  rw [segments, Split.texts, hparts, String.ofList_toList]

/-- Texts with the same segments are the same. -/
theorem segments_injective : Function.Injective segments := by
  intro path path' h
  rw [← intercalate_segments path, ← intercalate_segments path', h]

theorem mem_intercalate {names : List String} (h : c ∈ ("/".intercalate names).toList) :
    c = '/' ∨ ∃ s ∈ names, c ∈ s.toList := by
  induction names with
  | nil => cases h
  | cons a rest ih =>
    cases rest with
    | nil =>
      rw [String.intercalate_singleton] at h
      exact Or.inr ⟨a, List.mem_cons_self, h⟩
    | cons b rest =>
      rw [String.intercalate_cons_cons, String.toList_append, String.toList_append,
        List.mem_append, List.mem_append] at h
      obtain (h | h) | h := h
      · exact Or.inr ⟨a, List.mem_cons_self, h⟩
      · exact Or.inl (List.mem_singleton.1 h)
      · obtain h | ⟨s, hs, hc⟩ := ih h
        · exact Or.inl h
        · exact Or.inr ⟨s, List.mem_cons_of_mem _ hs, hc⟩

theorem mem_intercalate_of_mem {names : List String} (hs : s ∈ names) (hc : c ∈ s.toList) :
    c ∈ ("/".intercalate names).toList := by
  induction names with
  | nil => cases hs
  | cons a rest ih =>
    cases rest with
    | nil =>
      obtain rfl := List.mem_singleton.1 hs
      rwa [String.intercalate_singleton]
    | cons b rest =>
      rw [String.intercalate_cons_cons, String.toList_append, String.toList_append,
        List.mem_append, List.mem_append]
      obtain rfl | hs := List.mem_cons.1 hs
      · exact Or.inl (Or.inl hc)
      · exact Or.inr (ih hs)

/-- The characters of a segment are characters of the path. -/
theorem mem_of_mem_segments (hs : s ∈ segments path) (hc : c ∈ s.toList) : c ∈ path.toList :=
  intercalate_segments path ▸ mem_intercalate_of_mem hs hc

/-! ## Length -/

theorem size_append (a b : String) : Utf8.size (a ++ b) = Utf8.size a + Utf8.size b := by
  simp [Utf8.size, Utf8.encode]

/-- **Leaving segments out makes a path no longer.** -/
theorem size_intercalate_le {names names' : List String} (h : names.Sublist names') :
    Utf8.size ("/".intercalate names) ≤ Utf8.size ("/".intercalate names') := by
  have hcons : ∀ (a : String) (rest : List String),
      Utf8.size ("/".intercalate rest) ≤ Utf8.size ("/".intercalate (a :: rest)) := by
    intro a rest
    cases rest with
    | nil => exact Nat.zero_le _
    | cons b rest =>
      rw [String.intercalate_cons_cons, size_append]
      exact Nat.le_add_left _ _
  induction h with
  | slnil => exact Nat.le_refl _
  | cons a _ ih => exact Nat.le_trans ih (hcons a _)
  | @cons_cons rest rest' a h ih =>
    cases rest with
    | nil =>
      cases rest' with
      | nil => exact Nat.le_refl _
      | cons b' rest' =>
        rw [String.intercalate_singleton, String.intercalate_cons_cons, size_append, size_append]
        omega
    | cons b rest =>
      cases rest' with
      | nil => cases h
      | cons b' rest' =>
        rw [String.intercalate_cons_cons, String.intercalate_cons_cons, size_append, size_append,
          size_append, size_append]
        omega

/-- A path is as long as its segments together, and longer by its slashes. -/
theorem sum_size_le (names : List String) :
    (names.map Utf8.size).sum ≤ Utf8.size ("/".intercalate names) := by
  induction names with
  | nil => exact Nat.zero_le _
  | cons a rest ih =>
    cases rest with
    | nil =>
      rw [String.intercalate_singleton]
      exact Nat.le_refl _
    | cons b rest =>
      rw [String.intercalate_cons_cons, size_append, size_append, List.map_cons, List.sum_cons]
      omega

/-! ## Steps -/

/-- The segments that lead somewhere. -/
def steps (names : List String) : List String := names.filter fun s => (step? s).isSome

theorem steps_cons_of_none {rest : List String} (h : step? s = none) :
    steps (s :: rest) = steps rest :=
  List.filter_cons_of_neg (by rw [h]; exact Bool.false_ne_true)

theorem steps_cons_of_some {rest : List String} {c : Component} (h : step? s = some c) :
    steps (s :: rest) = s :: steps rest :=
  List.filter_cons_of_pos (by rw [h]; rfl)

theorem steps_steps (names : List String) : steps (steps names) = steps names := by
  rw [steps, steps, List.filter_filter]
  simp only [Bool.and_self]

/-- A step is not empty. -/
theorem ne_empty_of_mem_steps {names : List String} (h : s ∈ steps names) : s ≠ "" := by
  rintro rfl
  exact absurd (List.mem_filter.1 h).2 (by decide)

/-- A step that does not go up is a name. -/
theorem step?_of_mem_steps {names : List String} (h : s ∈ steps names) (hup : s ≠ "..") :
    step? s = some (.named s) := by
  have hsome := (List.mem_filter.1 h).2
  rw [step?] at hsome ⊢
  split at hsome
  · cases hsome
  · next hmeans => rw [if_neg hmeans, if_neg hup]

theorem steps_append (names names' : List String) :
    steps (names ++ names') = steps names ++ steps names' :=
  List.filter_append ..

/-! ## Absolute paths -/

theorem segments_of_isAbsolute (h : isAbsolute path = true) :
    ∃ rest, rest ≠ [] ∧ segments path = "" :: rest := by
  obtain ⟨cs, hcs⟩ : ∃ cs, path.toList = '/' :: cs :=
    List.head?_eq_some_iff.1 (of_decide_eq_true h)
  refine ⟨(Split.parts isSlash cs).map String.ofList, ?_, ?_⟩
  · rw [Ne, List.map_eq_nil_iff]
    exact Split.parts_ne_nil _ _
  · rw [segments, Split.texts, hcs]
    rfl

theorem isAbsolute_append {a : String} (h : a ≠ "") (b : String) :
    isAbsolute (a ++ b) = isAbsolute a := by
  have hne : a.toList ≠ [] := fun he => h (String.toList_inj.1 he)
  obtain ⟨c, cs, hcs⟩ := List.exists_cons_of_ne_nil hne
  rw [isAbsolute, isAbsolute, String.toList_append, hcs]
  rfl

theorem join_of_relative (base : String) {rel : String} (hrel : isAbsolute rel = false) :
    join base rel =
      if base = "" then rel
      else if base.toList.getLast? = some '/' then base ++ rel
      else base ++ "/" ++ rel := by
  rw [join, if_neg (by rw [hrel]; exact Bool.false_ne_true)]

theorem join_empty {rel : String} (hrel : isAbsolute rel = false) : join "" rel = rel := by
  rw [join_of_relative "" hrel, if_pos rfl]

/-- A path in a directory that has a name is put together at a slash, which
may be one that the path of the directory ends in. -/
theorem exists_join {base rel : String} (hempty : base ≠ "")
    (hrel : isAbsolute rel = false) :
    ∃ front, join base rel = front ++ "/" ++ rel ∧ isAbsolute (join base rel) = isAbsolute base ∧
      (segments base = segments front ∨ segments base = segments front ++ [""]) := by
  rw [join_of_relative base hrel, if_neg hempty]
  split
  · next hslash =>
    obtain ⟨cs, hcs⟩ := List.getLast?_eq_some_iff.1 hslash
    obtain rfl : base = String.ofList cs ++ "/" := by
      rw [← String.toList_inj, hcs]
      simp
    have hbase := segments_slash (String.ofList cs) ""
    rw [String.append_empty] at hbase
    exact ⟨_, rfl, isAbsolute_append hempty rel, Or.inr hbase⟩
  · refine ⟨base, rfl, ?_, Or.inl rfl⟩
    rw [String.append_assoc, isAbsolute_append hempty]

/-- **A path in a directory is the path of the directory and then itself**,
but for segments that mean nothing. -/
theorem segments_join (base : String) {rel : String} (hrel : isAbsolute rel = false) :
    isAbsolute (join base rel) = isAbsolute base ∧
    ∃ names, segments (join base rel) = names ++ segments rel ∧
      steps names = steps (segments base) := by
  by_cases hempty : base = ""
  · subst hempty
    rw [join_empty hrel]
    exact ⟨hrel, [], rfl, rfl⟩
  obtain ⟨front, hjoin, habs, hfront⟩ := exists_join hempty hrel
  refine ⟨habs, segments front, by rw [hjoin, segments_slash], ?_⟩
  obtain h | h := hfront
  · rw [h]
  · rw [h, steps_append]
    exact (List.append_nil _).symm

end Files.Path

end Provision
