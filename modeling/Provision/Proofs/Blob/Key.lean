import Provision.Blob.Key
import Provision.Proofs.Files.Path
/-!
# Blobs — the names of a key

The segments of a key are the names that it was put together from, and each
of them is a step of a path. A text that can be such a name is a component
(`Key.IsComponent`).
-/

namespace Provision.Blob.Key

open Files

variable {key part s : String} {names : List String}

/-- A text that can stand between two slashes of a key, by itself. -/
structure IsComponent (part : String) : Prop where
  nonempty : part ≠ ""
  notHere : part ≠ "."
  notAbove : part ≠ ".."
  noSlash : '/' ∉ part.toList
  noBackslash : '\\' ∉ part.toList

namespace IsComponent

theorem segments (h : IsComponent part) : Path.segments part = [part] :=
  Path.segments_of_notMem h.noSlash

theorem isName (h : IsComponent part) : Key.isName part = true := by
  simp [Key.isName, h.nonempty, h.notHere, h.notAbove]

/-- A text that begins with a component is no absolute path. -/
theorem not_isAbsolute (h : IsComponent part) (rest : String) :
    Path.isAbsolute (part ++ rest) = false := by
  rw [Path.isAbsolute, decide_eq_false_iff_not, String.toList_append]
  have hne : part.toList ≠ [] := fun he => h.nonempty (String.toList_inj.1 he)
  obtain ⟨c, cs, hcs⟩ := List.exists_cons_of_ne_nil hne
  rw [hcs, List.cons_append, List.head?_cons]
  rintro heq
  exact h.noSlash (by rw [hcs, Option.some.inj heq]; exact List.mem_cons_self)

end IsComponent

/-- **Components with slashes between them are a key.** -/
theorem isValid_intercalate (hne : names ≠ []) (h : ∀ s ∈ names, IsComponent s) :
    isValid ("/".intercalate names) = true := by
  have hseg : Path.segments ("/".intercalate names) = names :=
    Path.segments_intercalate hne fun s hs => (h s hs).noSlash
  obtain ⟨s, rest, rfl⟩ := List.exists_cons_of_ne_nil hne
  have hempty : "/".intercalate (s :: rest) ≠ "" := by
    intro hempty
    rw [hempty] at hseg
    exact (h s List.mem_cons_self).nonempty (List.cons.inj hseg).1.symm
  have habs : Path.isAbsolute ("/".intercalate (s :: rest)) = false := by
    rw [Bool.eq_false_iff]
    intro habs
    obtain ⟨rest', -, hrest⟩ := Path.segments_of_isAbsolute habs
    rw [hseg] at hrest
    exact (h s List.mem_cons_self).nonempty (List.cons.inj hrest).1
  have hback : '\\' ∉ ("/".intercalate (s :: rest)).toList := by
    intro hmem
    obtain hslash | ⟨s', hs', hc⟩ := Path.mem_intercalate hmem
    · exact absurd hslash (by decide)
    · exact (h s' hs').noBackslash hc
  have hnames : (s :: rest).all isName = true := List.all_eq_true.2 fun s hs => (h s hs).isName
  rw [isValid, hseg, hnames, habs, decide_eq_true hempty, decide_eq_true hback]
  rfl

theorem check_of_isValid (h : isValid key = true) : check key = .ok () := if_pos h

theorem check_of_not_isValid (h : isValid key = false) : check key = .error (.invalidKey key) :=
  if_neg (by rw [h]; exact Bool.false_ne_true)

theorem not_isAbsolute_of_isValid (h : isValid key = true) : Path.isAbsolute key = false := by
  simp only [isValid, Bool.and_eq_true, Bool.not_eq_true'] at h
  exact h.1.1.2

theorem step?_of_isName (h : isName s = true) : Path.step? s = some (.named s) := by
  simp only [isName, Bool.and_eq_true, decide_eq_true_eq] at h
  rw [Path.step?, if_neg (by simp [h.1.1, h.1.2]), if_neg h.2]

/-- **The segments of a key are names.** -/
theorem step?_of_mem_segments (h : isValid key = true) (hs : s ∈ Path.segments key) :
    Path.step? s = some (.named s) := by
  simp only [isValid, Bool.and_eq_true] at h
  exact step?_of_isName (List.all_eq_true.1 h.2 s hs)

end Provision.Blob.Key
