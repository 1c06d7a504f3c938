import Provision.Text.Blank
/-!
# Text — what trimming leaves

A text is the white space in front of it, what trimming leaves, and the white
space behind it (`strips_trim`). What is left neither begins nor ends with
white space, and that determines it (`Strips.trim_eq`).
-/

namespace Provision.Blank

variable {s t : String} {cs before after : List Char}

/-- **All that `t` lacks of `s` is white space** in front and behind. -/
structure Strips (s t : String) : Prop where
  around : ∃ before after : List Char, s.toList = before ++ t.toList ++ after ∧
    (∀ c ∈ before, isBlank c = true) ∧ ∀ c ∈ after, isBlank c = true
  first : ∀ c ∈ t.toList.head?, isBlank c = false
  last : ∀ c ∈ t.toList.getLast?, isBlank c = false

theorem not_isBlank_of_mem_head? {c : Char} (h : c ∈ (cs.dropWhile isBlank).head?) :
    isBlank c = false := by
  have hhead := List.head?_dropWhile_not isBlank cs
  rwa [Option.mem_def.1 h] at hhead

/-- What is left when white space is dropped is left untouched by dropping it again. -/
theorem dropWhile_of_head? (h : ∀ c ∈ cs.head?, isBlank c = false) :
    cs.dropWhile isBlank = cs := by
  cases cs with
  | nil => rfl
  | cons c cs => exact List.dropWhile_cons_of_neg (by simp [h c rfl])

theorem mem_takeWhile {c : Char} (h : c ∈ cs.takeWhile isBlank) : isBlank c = true :=
  List.all_eq_true.1 List.all_takeWhile c h

/-- **What trimming takes off is white space**, and all of it. -/
theorem strips_trim (s : String) : Strips s (trim s) := by
  -- first the front goes, then the back, which is the front of the reverse
  let rest := s.toList.dropWhile isBlank
  let left := rest.reverse.dropWhile isBlank
  have hleft : (trim s).toList = left.reverse := String.toList_ofList
  have hback : rest = left.reverse ++ (rest.reverse.takeWhile isBlank).reverse := by
    rw [← List.reverse_append, List.takeWhile_append_dropWhile, List.reverse_reverse]
  refine ⟨⟨s.toList.takeWhile isBlank, (rest.reverse.takeWhile isBlank).reverse, ?_,
    fun c => mem_takeWhile, fun c hc => mem_takeWhile (List.mem_reverse.1 hc)⟩,
    fun c hc => ?_, fun c hc => ?_⟩
  · rw [hleft, List.append_assoc, ← hback, List.takeWhile_append_dropWhile]
  · rw [hleft] at hc
    have hfirst : c ∈ rest.head? := by
      rw [hback, List.head?_append, Option.mem_def.1 hc]
      rfl
    exact not_isBlank_of_mem_head? hfirst
  · rw [hleft, List.getLast?_reverse] at hc
    exact not_isBlank_of_mem_head? hc

/-- Nothing else could be left. -/
theorem Strips.trim_eq (h : Strips s t) : trim s = t := by
  obtain ⟨⟨before, after, hs, hbefore, hafter⟩, hfirst, hlast⟩ := h
  have hreverse : ∀ c ∈ t.toList.reverse.head?, isBlank c = false := by
    rwa [List.head?_reverse]
  have hleft : trimChars s.toList = t.toList := by
    rw [trimChars, hs, List.append_assoc, List.dropWhile_append_of_pos hbefore]
    by_cases hnil : t.toList = []
    · rw [hnil, List.nil_append, ← List.append_nil after, List.dropWhile_append_of_pos hafter]
      rfl
    · obtain ⟨c, cs, hcs⟩ := List.exists_cons_of_ne_nil hnil
      have hstart : ∀ c ∈ (t.toList ++ after).head?, isBlank c = false := by
        rw [hcs] at hfirst ⊢
        exact hfirst
      rw [dropWhile_of_head? hstart, List.reverse_append,
        List.dropWhile_append_of_pos fun c hc => hafter c (List.mem_reverse.1 hc),
        dropWhile_of_head? hreverse, List.reverse_reverse]
  rw [trim, hleft, String.ofList_toList]

end Provision.Blank
