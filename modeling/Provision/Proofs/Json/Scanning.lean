import Provision.Proofs.Json.Grammar
/-!
# JSON — what the scanner passes over

The other half of `skipForm_of_derives`: **whatever the scanner passes over
is white space and then what the grammar derives**, and nothing else
(`sound_skipForm`). So a text that `raw` keeps is a JSON value, with
no white space around it, and it stands in the document as it is kept.
-/

namespace Provision.Json

/-! ## Tokens -/

variable {b : UInt8} {bs ws w rest : Bytes}

theorem Spaces.append {ws' : Bytes} (h : Spaces ws) (h' : Spaces ws') : Spaces (ws ++ ws') :=
  List.forall_mem_append.2 ⟨h, h'⟩

/-- White space is found in front of the next token. -/
theorem exists_spaces (bs : Bytes) : ∃ ws, Spaces ws ∧ bs = ws ++ skipSpace bs := by
  refine ⟨bs.takeWhile isSpace, fun b hb => ?_, List.takeWhile_append_dropWhile.symm⟩
  exact List.all_eq_true.1 List.all_takeWhile b hb

theorem isSpace_of_skipSpace (h : skipSpace bs = b :: rest) : isSpace b = false := by
  have hhead := List.head?_dropWhile_not isSpace bs
  rw [← skipSpace, h] at hhead
  simpa using hhead

/-- What is left behind white space has none in front. -/
theorem eq_nil_of_spaces (hws : Spaces ws) (h : skipSpace bs = ws ++ rest) :
    ws = [] := by
  cases ws with
  | nil => rfl
  | cons w ws =>
    have hw := isSpace_of_skipSpace h
    rw [hws w List.mem_cons_self] at hw
    cases hw

/-- A token that is done by is found behind white space. -/
theorem onToken_ok {α : Type} {e : Problem} {next : UInt8 → Bytes → Except Problem α} {a : α}
    (h : onToken e next bs = .ok a) :
    ∃ ws b rest, Spaces ws ∧ bs = ws ++ b :: rest ∧ next b rest = .ok a := by
  obtain ⟨ws, hws, hbs⟩ := exists_spaces bs
  rw [onToken] at h
  split at h
  · cases h
  · next b rest heq => exact ⟨ws, b, rest, hws, heq ▸ hbs, h⟩

theorem eq_append_of_word (h : word w bs = .ok rest) : bs = w ++ rest := by
  fun_induction word w bs
  all_goals try cases h
  case case1.refl => rfl
  case case3 ih => rw [ih h, List.cons_append]

/-- A string that is passed over ends at a quote. -/
theorem body_of_skipText (h : skipText bs = .ok rest) :
    ∃ k, bs = k ++ octet '"' :: rest ∧ Body k := by
  fun_induction skipText bs
  all_goals try cases h
  case case2.refl => exact ⟨[], rfl, .nil⟩
  case case4 hx _ ih =>
    obtain ⟨k, rfl, hk⟩ := ih h
    exact ⟨_, rfl, .hex hx hk⟩
  case case7 hc _ ih =>
    obtain ⟨k, rfl, hk⟩ := ih h
    exact ⟨_, rfl, .short hc hk⟩
  case case10 hq hs hc ih =>
    obtain ⟨k, rfl, hk⟩ := ih h
    exact ⟨_, rfl, .plain ⟨hq, hs, hc⟩ hk⟩

/-! ## Numbers -/

/-- Digits are found in front of what is no digit. -/
theorem exists_digits (h : bs.head?.any isDigit = true) :
    ∃ d ds, isDigit d = true ∧ Digits ds ∧ bs = d :: (ds ++ bs.dropWhile isDigit) := by
  cases bs with
  | nil => cases h
  | cons d bs =>
    have hd : isDigit d = true := by simpa using h
    refine ⟨d, bs.takeWhile isDigit, hd, fun b hb => ?_, ?_⟩
    · exact List.all_eq_true.1 List.all_takeWhile b hb
    · rw [List.dropWhile_cons_of_pos hd, List.takeWhile_append_dropWhile]

theorem exponent_of_digits {e : UInt8} {sign digits : Bytes} (he : e = octet 'e' ∨ e = octet 'E')
    (hsign : sign = [] ∨ sign = [octet '+'] ∨ sign = [octet '-'])
    (h : (if digits.head?.any isDigit then .ok (digits.dropWhile isDigit) else .error .badNumber) =
      (.ok rest : Except Problem Bytes)) :
    ∃ ex, e :: (sign ++ digits) = ex ++ rest ∧ Exponent ex := by
  split at h
  · next hdigit =>
    obtain ⟨d, ds, hd, hds, hdigits⟩ := exists_digits hdigit
    rw [Except.ok.inj h] at hdigits
    exact ⟨e :: (sign ++ d :: ds), by simp [hdigits], .present he hsign hd hds⟩
  · cases h

theorem exponent_of_skipExponent (h : skipExponent bs = .ok rest) :
    ∃ ex, bs = ex ++ rest ∧ Exponent ex := by
  cases bs with
  | nil =>
    cases h
    exact ⟨[], rfl, .absent⟩
  | cons e bs =>
    rw [skipExponent.eq_def] at h
    dsimp only at h
    split at h
    · next he =>
      have he' : e = octet 'e' ∨ e = octet 'E' := by simpa using he
      cases bs with
      | nil => cases h
      | cons s tail =>
        by_cases hs : s = octet '+' ∨ s = octet '-'
        · have hmark : (s = octet '+' || s = octet '-') = true := by simpa using hs
          simp only [hmark, if_true] at h
          exact exponent_of_digits he' (.inr (hs.imp (congrArg ([·])) (congrArg ([·])))) h
        · have hmark : (s = octet '+' || s = octet '-') = false := by simpa using hs
          simp only [hmark] at h
          exact exponent_of_digits he' (.inl rfl) h
    · cases h
      exact ⟨[], rfl, .absent⟩

theorem fraction_of_skipFraction (h : skipFraction bs = .ok rest) :
    ∃ fr, bs = fr ++ rest ∧ Fraction fr := by
  cases bs with
  | nil =>
    cases h
    exact ⟨[], rfl, .absent .absent⟩
  | cons b bs =>
    rw [skipFraction] at h
    split at h
    · next hb =>
      subst hb
      split at h
      · next hdigit =>
        obtain ⟨d, ds, hd, hds, hbs⟩ := exists_digits hdigit
        obtain ⟨ex, hex, hx⟩ := exponent_of_skipExponent h
        rw [hex] at hbs
        exact ⟨octet '.' :: d :: (ds ++ ex), by simp [hbs], .present hd hds hx⟩
      · cases h
    · obtain ⟨ex, hex, hx⟩ := exponent_of_skipExponent h
      exact ⟨ex, hex, .absent hx⟩

/-- What is passed over as a number is one. -/
theorem magnitude_of_skipNumber (h : skipNumber bs = .ok rest) :
    ∃ m, bs = m ++ rest ∧ Magnitude m := by
  cases bs with
  | nil => cases h
  | cons b bs =>
    rw [skipNumber] at h
    split at h
    · next hb =>
      subst hb
      split at h
      · cases h
      · obtain ⟨fr, rfl, hfr⟩ := fraction_of_skipFraction h
        exact ⟨octet '0' :: fr, rfl, .zero hfr⟩
    · next hz =>
      split at h
      · next hb =>
        obtain ⟨fr, hfr, hf⟩ := fraction_of_skipFraction h
        have hds : Digits (bs.takeWhile isDigit) := fun d hd =>
          List.all_eq_true.1 List.all_takeWhile d hd
        refine ⟨b :: (bs.takeWhile isDigit ++ fr), ?_, .digits hb hz hds hf⟩
        rw [List.cons_append, List.append_assoc, ← hfr, List.takeWhile_append_dropWhile]
      · cases h

/-! ## Values -/

variable {fuel : Nat}

/-- What is known of the scanner with less fuel. -/
def Sound (fuel : Nat) : Prop :=
  ∀ (f : Form) (bs rest : Bytes), skipForm f fuel bs = .ok rest →
    ∃ ws v, Spaces ws ∧ bs = ws ++ (v ++ rest) ∧ Derives f v

/-- A list behind its bracket. -/
theorem Sound.list (ih : Sound fuel) (h : skipValue (fuel + 1) (octet '[' :: bs) = .ok rest) :
    ∃ v, octet '[' :: bs = v ++ rest ∧ Derives .value v := by
  rw [show skipValue (fuel + 1) (octet '[' :: bs) = _ from skipValue_list spaces_nil] at h
  obtain ⟨ws, c, after, hws, rfl, hc⟩ := onToken_ok h
  split at hc
  · next hclose =>
    obtain rfl := Except.ok.inj hc
    exact ⟨octet '[' :: (ws ++ [octet ']']), by simp [hclose], .emptyList hws⟩
  · obtain ⟨ws', v, hws', hv, hitems⟩ := ih .items _ _ hc
    exact ⟨octet '[' :: (ws ++ ws' ++ v), by simp [hv], .list (hws.append hws') hitems⟩

/-- And an object. -/
theorem Sound.object (ih : Sound fuel) (h : skipValue (fuel + 1) (0x7B :: bs) = .ok rest) :
    ∃ v, 0x7B :: bs = v ++ rest ∧ Derives .value v := by
  rw [show skipValue (fuel + 1) (0x7B :: bs) = _ from skipValue_object spaces_nil] at h
  obtain ⟨ws, c, after, hws, rfl, hc⟩ := onToken_ok h
  split at hc
  · next hclose =>
    obtain rfl := Except.ok.inj hc
    exact ⟨0x7B :: (ws ++ [0x7D]), by simp [hclose], .emptyObject hws⟩
  · obtain ⟨ws', v, hws', hv, hmembers⟩ := ih .members _ _ hc
    exact ⟨0x7B :: (ws ++ ws' ++ v), by simp [hv], .object (hws.append hws') hmembers⟩

/-- A value from its first octet on, which decides what it is. -/
theorem Sound.value (ih : Sound fuel) (hb : isSpace b = false)
    (h : skipValue (fuel + 1) (b :: bs) = .ok rest) :
    ∃ v, b :: bs = v ++ rest ∧ Derives .value v := by
  have hvalue := h
  rw [skipValue, skipSpace_cons hb] at h
  dsimp only at h
  by_cases hn : b = octet 'n'
  · rw [if_pos hn] at h
    exact ⟨octet 'n' :: ull, by rw [hn, eq_append_of_word h]; rfl, .wordNull⟩
  rw [if_neg hn] at h
  by_cases ht : b = octet 't'
  · rw [if_pos ht] at h
    exact ⟨octet 't' :: rue, by rw [ht, eq_append_of_word h]; rfl, .wordTrue⟩
  rw [if_neg ht] at h
  by_cases hf : b = octet 'f'
  · rw [if_pos hf] at h
    exact ⟨octet 'f' :: alse, by rw [hf, eq_append_of_word h]; rfl, .wordFalse⟩
  rw [if_neg hf] at h
  by_cases hm : b = octet '-'
  · rw [if_pos hm] at h
    obtain ⟨m, rfl, hmag⟩ := magnitude_of_skipNumber h
    exact ⟨octet '-' :: m, by rw [hm]; rfl, .negative hmag⟩
  rw [if_neg hm] at h
  by_cases hd : isDigit b = true
  · rw [if_pos hd] at h
    obtain ⟨m, hm, hmag⟩ := magnitude_of_skipNumber h
    exact ⟨m, hm, .number hmag⟩
  rw [if_neg hd] at h
  by_cases hq : b = octet '"'
  · rw [if_pos hq] at h
    obtain ⟨k, rfl, hk⟩ := body_of_skipText h
    exact ⟨octet '"' :: (k ++ [octet '"']), by simp [hq], .text hk⟩
  rw [if_neg hq] at h
  by_cases hl : b = octet '['
  · rw [hl] at hvalue ⊢
    exact ih.list hvalue
  rw [if_neg hl] at h
  by_cases ho : b = 0x7B
  · rw [ho] at hvalue ⊢
    exact ih.object hvalue
  rw [if_neg ho] at h
  cases h

/-- Items, each behind white space. -/
theorem Sound.items (ih : Sound fuel) (h : skipItems (fuel + 1) bs = .ok rest) :
    ∃ ws v, Spaces ws ∧ bs = ws ++ (v ++ rest) ∧ Derives .items v := by
  cases hv : skipValue fuel bs with
  | error e =>
    rw [skipItems, hv] at h
    cases h
  | ok r =>
    rw [skipItems_value hv] at h
    obtain ⟨ws, v, hws, rfl, hvalue⟩ := ih .value _ _ hv
    obtain ⟨ws₁, c, after, hws₁, rfl, hc⟩ := onToken_ok h
    by_cases hcomma : c = octet ','
    · rw [if_pos hcomma] at hc
      obtain ⟨ws₂, is, hws₂, rfl, hitems⟩ := ih .items _ _ hc
      exact ⟨ws, v ++ (ws₁ ++ octet ',' :: (ws₂ ++ is)), hws, by simp [hcomma],
        .item hvalue hws₁ hws₂ hitems⟩
    rw [if_neg hcomma] at hc
    by_cases hclose : c = octet ']'
    · rw [if_pos hclose] at hc
      obtain rfl := Except.ok.inj hc
      exact ⟨ws, v ++ (ws₁ ++ [octet ']']), hws, by simp [hclose], .lastItem hvalue hws₁⟩
    rw [if_neg hclose] at hc
    cases hc

/-- Members go on by four tokens: the quote of the key, the colon behind it,
and a comma or the end behind the value. -/
theorem skipMembers_eq (fuel : Nat) (bs : Bytes) : skipMembers (fuel + 1) bs =
    onToken .endInObject (fun b rest => if b ≠ octet '"' then .error .keyNotText else
      skipText rest >>= onToken .endInObject fun c rest =>
        if c ≠ octet ':' then .error .noColon else
          skipValue fuel rest >>= onToken .endInObject fun c after =>
            if c = octet ',' then skipMembers fuel after
            else if c = 0x7D then .ok after else .error .noCommaOrBrace) bs := by
  rw [skipMembers]
  rfl

/-- Members, each behind white space. -/
theorem Sound.members (ih : Sound fuel) (h : skipMembers (fuel + 1) bs = .ok rest) :
    ∃ ws v, Spaces ws ∧ bs = ws ++ (v ++ rest) ∧ Derives .members v := by
  rw [skipMembers_eq] at h
  obtain ⟨ws, b, tl, hws, rfl, hb⟩ := onToken_ok h
  obtain ⟨hq, hkey⟩ := ok_of_ite hb
  obtain ⟨r, hr, hbehind⟩ := ok_of_bind hkey
  obtain ⟨k, rfl, hk⟩ := body_of_skipText hr
  obtain ⟨ws₁, c, tl, hws₁, rfl, hc⟩ := onToken_ok hbehind
  obtain ⟨hcolon, hvalue⟩ := ok_of_ite hc
  obtain ⟨r, hr, hend⟩ := ok_of_bind hvalue
  obtain ⟨ws₂, v, hws₂, rfl, hv⟩ := ih .value _ _ hr
  obtain ⟨ws₃, d, after, hws₃, rfl, hd⟩ := onToken_ok hend
  rw [Decidable.not_not.1 hq, Decidable.not_not.1 hcolon]
  by_cases hcomma : d = octet ','
  · rw [if_pos hcomma] at hd
    obtain ⟨ws₄, ms, hws₄, rfl, hms⟩ := ih .members _ _ hd
    exact ⟨ws, _, hws, by simp [hcomma], .member hk hws₁ hws₂ hv hws₃ hws₄ hms⟩
  rw [if_neg hcomma] at hd
  by_cases hclose : d = 0x7D
  · rw [if_pos hclose] at hd
    obtain rfl := Except.ok.inj hd
    exact ⟨ws, _, hws, by simp [hclose], .lastMember hk hws₁ hws₂ hv hws₃⟩
  rw [if_neg hclose] at hd
  cases hd

/-- **What the scanner passes over is derived**, behind white space. -/
theorem sound_skipForm (fuel : Nat) : Sound fuel := by
  induction fuel with
  | zero =>
    intro f bs rest h
    cases f <;> cases h
  | succ fuel ih =>
    intro f bs rest h
    cases f with
    | value =>
      obtain ⟨ws, hws, hbs⟩ := exists_spaces bs
      cases hhead : skipSpace bs with
      | nil =>
        rw [skipForm, skipValue, hhead] at h
        cases h
      | cons b tl =>
        have hb := isSpace_of_skipSpace hhead
        rw [hhead] at hbs
        have hvalue : skipForm .value (fuel + 1) (ws ++ (b :: tl ++ [])) = _ :=
          skipForm_spaces hws hb
        rw [List.append_nil, List.append_nil, ← hbs, h] at hvalue
        obtain ⟨v, hv, hderives⟩ := ih.value hb hvalue.symm
        exact ⟨ws, v, hws, by rw [hbs, hv], hderives⟩
    | items => exact ih.items h
    | members => exact ih.members h

/-- **A text that is kept is a JSON value**, and stands in the document as
it is kept. -/
theorem isValue_of_raw {s : String} (h : raw bs = .ok (s, rest)) :
    IsValue s ∧ ∃ ws, Spaces ws ∧ bs = ws ++ (Utf8.encode s ++ rest) := by
  obtain ⟨ws, hws, hbs⟩ := exists_spaces bs
  obtain ⟨r, hr, h⟩ := ok_of_bind h
  obtain ⟨ws', v, hws', hhere, hv⟩ := sound_skipForm _ .value _ _ hr
  -- the white space in front is gone already
  rw [eq_nil_of_spaces hws' hhere, List.nil_append] at hhere
  rw [hhere] at h hbs
  simp only [List.length_append, Nat.add_sub_cancel, List.take_left] at h
  obtain ⟨rfl, rfl⟩ := ok_of_decode h
  exact ⟨hv, ws, hws, hbs⟩

/-! ## The ends of a value -/

/-- Octets of which none is white space. -/
def NoSpaces (bs : Bytes) : Prop := ∀ b ∈ bs, isSpace b = false

theorem noSpaces_nil : NoSpaces [] := fun b hb => by cases hb

theorem NoSpaces.cons (hb : isSpace b = false) (h : NoSpaces bs) : NoSpaces (b :: bs) :=
  List.forall_mem_cons.2 ⟨hb, h⟩

theorem NoSpaces.append (h : NoSpaces bs) (h' : NoSpaces rest) : NoSpaces (bs ++ rest) :=
  List.forall_mem_append.2 ⟨h, h'⟩

theorem Digits.noSpaces (h : Digits bs) : NoSpaces bs := fun b hb => isSpace_of_isDigit (h b hb)

theorem Exponent.noSpaces (h : Exponent bs) : NoSpaces bs := by
  cases h with
  | absent => exact noSpaces_nil
  | present he hsign hd hds =>
    refine .cons ?_ (.append ?_ (.cons (isSpace_of_isDigit hd) hds.noSpaces))
    · rcases he with rfl | rfl <;> decide
    · rcases hsign with rfl | rfl | rfl
      · exact noSpaces_nil
      · exact .cons (by decide) noSpaces_nil
      · exact .cons (by decide) noSpaces_nil

theorem Fraction.noSpaces (h : Fraction bs) : NoSpaces bs := by
  cases h with
  | absent h => exact h.noSpaces
  | present hd hds h =>
    exact .cons (by decide) (.cons (isSpace_of_isDigit hd) (hds.noSpaces.append h.noSpaces))

theorem Magnitude.noSpaces (h : Magnitude bs) : NoSpaces bs := by
  cases h with
  | zero h => exact .cons (by decide) h.noSpaces
  | digits hd _ hds h => exact .cons (isSpace_of_isDigit hd) (hds.noSpaces.append h.noSpaces)

/-- Octets that end in no white space. -/
def EndsWell (bs : Bytes) : Prop := ∃ init b, bs = init ++ [b] ∧ isSpace b = false

theorem endsWell_singleton (hb : isSpace b = false) : EndsWell [b] := ⟨[], b, rfl, hb⟩

theorem EndsWell.append (h : EndsWell bs) (front : Bytes) : EndsWell (front ++ bs) := by
  obtain ⟨init, b, rfl, hb⟩ := h
  exact ⟨front ++ init, b, by rw [List.append_assoc], hb⟩

theorem EndsWell.cons (h : EndsWell bs) (b : UInt8) : EndsWell (b :: bs) := h.append [b]

theorem Magnitude.endsWell (h : Magnitude bs) : EndsWell bs := by
  obtain ⟨c, tl, rfl, -⟩ := (Derives.number h).head
  have hlast := List.dropLast_concat_getLast (List.cons_ne_nil c tl)
  exact ⟨_, _, hlast.symm, h.noSpaces _ (List.getLast_mem _)⟩

theorem EndsWell.behindMember (h : EndsWell bs) (k ws ws' v ws'' : Bytes) :
    EndsWell
      (octet '"' :: (k ++ octet '"' :: (ws ++ octet ':' :: (ws' ++ (v ++ (ws'' ++ bs)))))) := by
  have hvalue := ((h.append ws'').append v).append ws'
  have hcolon := (hvalue.cons (octet ':')).append ws
  exact ((hcolon.cons (octet '"')).append k).cons (octet '"')

/-- **A derivation does not end in white space** either. -/
theorem Derives.endsWell {f : Form} (h : Derives f bs) : EndsWell bs := by
  have hlist : EndsWell [octet ']'] := endsWell_singleton (by decide)
  have hobject : EndsWell [0x7D] := endsWell_singleton (by decide)
  induction h with
  | wordNull => exact ⟨[0x6E, 0x75, 0x6C], 0x6C, by decide, by decide⟩
  | wordTrue => exact ⟨[0x74, 0x72, 0x75], 0x65, by decide, by decide⟩
  | wordFalse => exact ⟨[0x66, 0x61, 0x6C, 0x73], 0x65, by decide, by decide⟩
  | number h => exact h.endsWell
  | negative h => exact h.endsWell.cons _
  | text => exact ((endsWell_singleton (by decide)).append _).cons _
  | emptyList => exact (hlist.append _).cons _
  | list _ _ ih => exact (ih.append _).cons _
  | emptyObject => exact (hobject.append _).cons _
  | object _ _ ih => exact (ih.append _).cons _
  | lastItem => exact (hlist.append _).append _
  | item _ _ _ _ _ ih => exact (((ih.append _).cons _).append _).append _
  | lastMember => exact hobject.behindMember _ _ _ _ _
  | member _ _ _ _ _ _ _ _ ih => exact ((ih.append _).cons _).behindMember _ _ _ _ _

/-- **No white space stands around a text.** -/
def Trimmed (s : String) : Prop :=
  (∃ b tl, Utf8.encode s = b :: tl ∧ isSpace b = false) ∧ EndsWell (Utf8.encode s)

theorem IsValue.trimmed {s : String} (h : IsValue s) : Trimmed s := by
  obtain ⟨b, tl, hs, hb, -⟩ := Derives.head h
  exact ⟨⟨b, tl, hs, hb⟩, Derives.endsWell h⟩

end Provision.Json
