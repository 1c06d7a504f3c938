/-!
# Text — splitting at separators

A text as the parts between its separators. There is always at least one
part, and parts are empty where separators stand side by side or at an end.
-/

namespace Provision.Split

/-- The parts of the characters between those that `sep` picks out. -/
def parts (sep : Char → Bool) : List Char → List (List Char)
  | [] => [[]]
  | c :: cs =>
    if sep c then [] :: parts sep cs
    else
      match parts sep cs with
      | [] => [[c]]
      | p :: ps => (c :: p) :: ps

/-- The parts of a text between those characters that `sep` picks out. -/
def texts (sep : Char → Bool) (s : String) : List String :=
  (parts sep s.toList).map String.ofList

theorem parts_ne_nil (sep : Char → Bool) (cs : List Char) : parts sep cs ≠ [] := by
  cases cs with
  | nil => simp [parts]
  | cons c cs =>
    rw [parts]
    split
    · simp
    · split <;> simp

/-- **No part has a separator in it.** -/
theorem sep_of_mem_parts {sep : Char → Bool} {cs p : List Char} {c : Char}
    (hp : p ∈ parts sep cs) (hc : c ∈ p) : sep c = false := by
  induction cs generalizing p with
  | nil => simp_all [parts]
  | cons d ds ih =>
    rw [parts] at hp
    split at hp
    · rcases List.mem_cons.1 hp with rfl | hp
      · cases hc
      · exact ih hp hc
    · next hd =>
      split at hp
      · next h => exact absurd h (parts_ne_nil sep ds)
      · next q qs h =>
        rcases List.mem_cons.1 hp with rfl | hp
        · rcases List.mem_cons.1 hc with rfl | hc
          · simpa using hd
          · exact ih (h ▸ List.mem_cons_self) hc
        · exact ih (h ▸ List.mem_cons_of_mem _ hp) hc

/-- What has no separator in it is one part. -/
theorem parts_of_forall {sep : Char → Bool} {cs : List Char} (h : ∀ c ∈ cs, sep c = false) :
    parts sep cs = [cs] := by
  induction cs with
  | nil => rfl
  | cons c cs ih =>
    have hc := h c List.mem_cons_self
    rw [parts, ih fun d hd => h d (List.mem_cons_of_mem _ hd)]
    simp [hc]

/-- **A separator parts what stands before it from what stands behind.** -/
theorem parts_append {sep : Char → Bool} {c : Char} (hc : sep c = true) (as bs : List Char) :
    parts sep (as ++ c :: bs) = parts sep as ++ parts sep bs := by
  induction as with
  | nil => simp [parts, hc]
  | cons a as ih =>
    rw [List.cons_append, parts, parts, ih]
    split
    · rfl
    · cases h : parts sep as with
      | nil => exact absurd h (parts_ne_nil sep as)
      | cons p ps => rfl

theorem texts_of_forall {sep : Char → Bool} {s : String} (h : ∀ c ∈ s.toList, sep c = false) :
    texts sep s = [s] := by
  rw [texts, parts_of_forall h, List.map_singleton, String.ofList_toList]

theorem texts_append {sep : Char → Bool} {c : Char} (hc : sep c = true) (s t : String) :
    texts sep (s ++ String.singleton c ++ t) = texts sep s ++ texts sep t := by
  simp only [texts, String.toList_append, String.toList_singleton, List.append_assoc,
    List.singleton_append, parts_append hc, List.map_append]

end Provision.Split
