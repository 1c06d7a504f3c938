import Provision.Proofs.Files.Path
/-!
# Files — the components of a path in a directory

What a path means are its components, and a path that is seen from a
directory means the components of the directory and then its own
(`components_join`). A `.` at its beginning means something only as long as
nothing stands in front of it, so it is left out where all paths are to be
compared (`normal`).
-/

namespace Provision.Files.Path

variable {base rel path s : String} {names : List String}

theorem here_notMem_filterMap (names : List String) : .here ∉ names.filterMap step? := by
  intro h
  obtain ⟨s, -, hs⟩ := List.mem_filterMap.1 h
  rw [step?] at hs
  split at hs
  · cases hs
  · split at hs <;> cases hs

theorem components_of_head? (hrel : isAbsolute path = false)
    (hhere : (segments path).head? ≠ some ".") :
    components path = (segments path).filterMap step? := by
  simp only [components, hrel, Bool.false_eq_true, if_false, if_neg hhere]

/-- Behind a directory that has a name, each step means what it means. -/
theorem components_join_of_ne (hbase : base ≠ "") (hrel : isAbsolute rel = false) :
    components (join base rel) = components base ++ (segments rel).filterMap step? := by
  obtain ⟨front, hjoin, habs, hfront⟩ := exists_join hbase hrel
  have hseg : segments (join base rel) = segments front ++ segments rel := by
    rw [hjoin, segments_slash]
  have hhead : (segments (join base rel)).head? = (segments base).head? := by
    obtain ⟨s, rest, hs⟩ := List.exists_cons_of_ne_nil (segments_ne_nil front)
    rw [hseg]
    obtain h | h := hfront <;> rw [h, hs] <;> rfl
  have hsteps : (segments front).filterMap step? = (segments base).filterMap step? := by
    obtain h | h := hfront
    · rw [h]
    · rw [h, List.filterMap_append]
      exact (List.append_nil _).symm
  rw [components, components, habs, hhead, hseg, List.filterMap_append, hsteps]
  split
  · rfl
  · split <;> rfl

/-- **The components of a path in a directory** are those of the directory
and those of the path, if it does not begin with a `.`. -/
theorem components_join (hrel : isAbsolute rel = false)
    (hhere : (segments rel).head? ≠ some ".") :
    components (join base rel) = components base ++ components rel := by
  rw [components_of_head? hrel hhere]
  by_cases hbase : base = ""
  · rw [hbase, join_empty hrel, components_of_head? hrel hhere]
    rfl
  · exact components_join_of_ne hbase hrel

/-! ## Without a first `.` -/

/-- What a path means wherever it is put. -/
def normal (path : String) : List Component := (components path).filter (· ≠ .here)

theorem normal_of_relative (hrel : isAbsolute path = false) :
    normal path = (segments path).filterMap step? := by
  have hsteps : ((segments path).filterMap step?).filter (· ≠ .here) =
      (segments path).filterMap step? := by
    refine List.filter_eq_self.2 fun c hc => decide_eq_true ?_
    rintro rfl
    exact here_notMem_filterMap _ hc
  simp only [normal, components, hrel, Bool.false_eq_true, if_false]
  split
  · exact hsteps
  · exact hsteps

/-- **In a directory a path means what it means**, behind what the directory
means. -/
theorem normal_join (hrel : isAbsolute rel = false) :
    normal (join base rel) = normal base ++ normal rel := by
  by_cases hbase : base = ""
  · rw [hbase, join_empty hrel]
    rfl
  · rw [normal, components_join_of_ne hbase hrel, List.filter_append, ← normal_of_relative hrel]
    congr 1
    rw [normal, List.filter_filter]
    simp only [Bool.and_self]

/-- Where no step goes up, each is a name. -/
theorem filterMap_of_notMem (hup : ".." ∉ names) :
    names.filterMap step? = (steps names).map .named := by
  induction names with
  | nil => rfl
  | cons s rest ih =>
    rw [List.mem_cons, not_or] at hup
    cases hs : step? s with
    | none => rw [List.filterMap_cons_none hs, steps_cons_of_none hs, ih hup.2]
    | some c =>
      have hmem : s ∈ steps (s :: rest) := by
        rw [steps_cons_of_some hs]
        exact List.mem_cons_self
      have hnamed := step?_of_mem_steps hmem (Ne.symm hup.1)
      rw [List.filterMap_cons_some hnamed, steps_cons_of_some hs, List.map_cons, ih hup.2]

end Provision.Files.Path
