import Provision.Text.Split
/-!
# Text — where the parts of a text lie

The parts that a text is split into are those pieces of it that have no
separator in them and cannot be made longer: on either side there is a
separator, or the end of the text (`mem_parts_iff`). So a separator more
changes nothing about a part that has none of that kind in it.
-/

namespace Provision.Split

variable {sep : Char → Bool} {cs p as bs : List Char} {c : Char} {s text : String}

/-- **A piece of a text between separators**, or the ends of the text. -/
structure Between (sep : Char → Bool) (cs p before after : List Char) : Prop where
  eq : cs = before ++ p ++ after
  left : ∀ c ∈ before.getLast?, sep c = true
  right : ∀ c ∈ after.head?, sep c = true

/-- A text has no separator, or a first one. -/
theorem exists_first (sep : Char → Bool) (cs : List Char) :
    (∀ c ∈ cs, sep c = false) ∨
      ∃ as c bs, cs = as ++ c :: bs ∧ (∀ a ∈ as, sep a = false) ∧ sep c = true := by
  induction cs with
  | nil => exact Or.inl (by simp)
  | cons d ds ih =>
    cases hd : sep d with
    | true => exact Or.inr ⟨[], d, ds, rfl, by simp, hd⟩
    | false =>
      obtain h | ⟨as, c, bs, rfl, has, hc⟩ := ih
      · exact Or.inl (List.forall_mem_cons.2 ⟨hd, h⟩)
      · exact Or.inr ⟨d :: as, c, bs, rfl, List.forall_mem_cons.2 ⟨hd, has⟩, hc⟩

/-- Behind a separator a piece lies where it lies. -/
theorem Between.behind {before after : List Char} (h : Between sep cs p before after)
    (hc : sep c = true) (as : List Char) :
    Between sep (as ++ c :: cs) p (as ++ c :: before) after where
  eq := by rw [h.eq]; simp
  left d hd := by
    rw [List.getLast?_append, List.getLast?_cons] at hd
    cases hlast : before.getLast? with
    | none =>
      rw [hlast] at hd
      obtain rfl : c = d := Option.some.inj hd
      exact hc
    | some e =>
      rw [hlast] at hd
      obtain rfl : e = d := Option.some.inj hd
      exact h.left e hlast
  right := h.right

/-- A part lies between separators. -/
theorem exists_between (h : p ∈ parts sep cs) : ∃ before after, Between sep cs p before after := by
  -- by the length of the text, since the rest of it begins behind the first separator
  induction hn : cs.length using Nat.strongRecOn generalizing cs with
  | _ n ih =>
    obtain hnone | ⟨as, c, bs, rfl, has, hc⟩ := exists_first sep cs
    · rw [parts_of_forall hnone] at h
      obtain rfl := List.mem_singleton.1 h
      exact ⟨[], [], by simp, by simp, by simp⟩
    · rw [parts_append hc, parts_of_forall has] at h
      obtain rfl | h := List.mem_cons.1 h
      · exact ⟨[], c :: bs, by simp, by simp, by simpa using hc⟩
      · have hlen : bs.length < n := by
          rw [← hn, List.length_append, List.length_cons]
          omega
        obtain ⟨before, after, hbetween⟩ := ih bs.length hlen h rfl
        exact ⟨_, after, hbetween.behind hc as⟩

/-- **The parts of a text** are its pieces between separators that have no
separator in them. -/
theorem mem_parts_iff : p ∈ parts sep cs ↔
    (∀ c ∈ p, sep c = false) ∧ ∃ before after, Between sep cs p before after := by
  constructor
  · intro h
    exact ⟨fun c hc => sep_of_mem_parts h hc, exists_between h⟩
  · rintro ⟨hp, before, after, rfl, hleft, hright⟩
    have hmem : p ∈ parts sep (p ++ after) := by
      cases after with
      | nil => simp [parts_of_forall hp]
      | cons c after => simp [parts_append (hright c rfl), parts_of_forall hp]
    rw [List.append_assoc]
    obtain hnil | ⟨front, c, rfl⟩ := List.eq_nil_or_concat before
    · rwa [hnil]
    · have hc : sep c = true := hleft c (by simp)
      rw [List.concat_eq_append, List.append_assoc]
      exact parts_append hc front (p ++ after) ▸ List.mem_append_right _ hmem

theorem mem_texts_iff : s ∈ texts sep text ↔ s.toList ∈ parts sep text.toList := by
  rw [texts, List.mem_map]
  constructor
  · rintro ⟨p, hp, rfl⟩
    rwa [String.toList_ofList]
  · exact fun h => ⟨_, h, String.ofList_toList⟩

/-- **More separators leave a part** that has none of them in it. -/
theorem mem_texts_of_imp {sep' : Char → Bool} (h : ∀ c, sep c = true → sep' c = true)
    (hs : ∀ c ∈ s.toList, sep' c = false) (hmem : s ∈ texts sep text) : s ∈ texts sep' text := by
  obtain ⟨-, before, after, heq, hleft, hright⟩ := mem_parts_iff.1 (mem_texts_iff.1 hmem)
  exact mem_texts_iff.2 (mem_parts_iff.2 ⟨hs, before, after, heq,
    fun c hc => h c (hleft c hc), fun c hc => h c (hright c hc)⟩)

end Provision.Split
