import Provision.Json.Scan
import Provision.Json.Writer
import Provision.Proofs.Text.Utf8
/-!
# JSON — strings that are written are read back

`textBody` reads a string octet by octet and `Writer.text` writes it
character by character. What joins the two is `textBody_escape`: the octets
that a character is written with are read as the octets of that character.
Nothing is asked of the string; **quotes, backslashes and controls come
back as they were**.

A string has other spellings than the one it is written in. `Denotes` says
what each of them stands for, and reading finds out just that
(`text_eq_ok_iff`).
-/

namespace Provision.Json

/-- An octet that stands for itself in a string. -/
def Plain (b : UInt8) : Prop := b ≠ octet '"' ∧ b ≠ octet '\\' ∧ ¬ b < 0x20

theorem prepend_nil : prepend [] = id := rfl

@[simp] theorem prepend_prepend (p q : Bytes) (r : Bytes × Bytes) :
    prepend p (prepend q r) = prepend (p ++ q) r := by
  simp [prepend]

/-! ## What one step of reading takes -/

variable {b c x h₁ h₂ h₃ h₄ : UInt8} {bs : Bytes}

@[simp] theorem textBody_quote : textBody (octet '"' :: bs) = .ok ([], bs) := by
  rw [textBody.eq_def]
  rfl

theorem textBody_plain (hb : Plain b) : textBody (b :: bs) = prepend [b] <$> textBody bs := by
  rw [textBody.eq_def]
  simp only [if_neg hb.1, if_neg hb.2.1, if_neg hb.2.2]

theorem textBody_short (h : shortEscape c = some x) :
    textBody (octet '\\' :: c :: bs) = prepend [x] <$> textBody bs := by
  have hc : c ≠ octet 'u' := by
    rintro rfl
    rw [show shortEscape (octet 'u') = none by decide] at h
    cases h
  rw [textBody.eq_def]
  simp only [if_neg (show octet '\\' ≠ octet '"' by decide), if_neg hc, h, if_true]

theorem textBody_hex {n : Nat} (h : hex4 h₁ h₂ h₃ h₄ = some n) (hl : isLeading n = false)
    (ht : isTrailing n = false) :
    textBody (octet '\\' :: octet 'u' :: h₁ :: h₂ :: h₃ :: h₄ :: bs) =
      prepend (codePoint n) <$> textBody bs := by
  rw [textBody.eq_def]
  simp only [if_neg (show octet '\\' ≠ octet '"' by decide), h, hl, ht, if_true]
  simp

theorem textBody_append {p : Bytes} (hp : ∀ b ∈ p, Plain b) :
    textBody (p ++ bs) = prepend p <$> textBody bs := by
  induction p with
  | nil => rw [List.nil_append, prepend_nil, id_map]
  | cons b p ih =>
    have hrest := ih fun d hd => hp d (List.mem_cons_of_mem _ hd)
    rw [List.cons_append, textBody_plain (hp b List.mem_cons_self), hrest, Functor.map_map]
    simp

/-! ## How characters are written -/

variable {ch : Char}

/-- The octets of a character that needs no escape stand for themselves. -/
theorem plain_of_char (hq : ch ≠ '"') (hs : ch ≠ '\\') (hc : ¬ ch.toNat < 0x20) :
    ∀ b ∈ String.utf8EncodeChar ch, Plain b := by
  have hv := Utf8.toNat_char ch
  have hq' : ch.toNat ≠ 0x22 := fun h => hq (by rw [← Char.ofNat_toNat ch, h])
  have hs' : ch.toNat ≠ 0x5C := fun h => hs (by rw [← Char.ofNat_toNat ch, h])
  -- all octets of a longer character lie beyond those of the escapes
  have key : ∀ m, m < 256 → m ≠ 0x22 → m ≠ 0x5C → ¬ m < 0x20 → Plain (UInt8.ofNat m) := by
    intro m hm hq hs hc
    simp only [Plain, octet, ne_eq, ← UInt8.toNat_inj, UInt8.lt_iff_toNat_lt, UInt8.toNat_ofNat',
      Nat.mod_eq_of_lt hm]
    exact ⟨hq, hs, hc⟩
  intro b hb
  rw [String.utf8EncodeChar] at hb
  simp only [show ch.val.toNat = ch.toNat from rfl] at hb
  repeat' split at hb
  all_goals
    simp only [List.mem_cons, List.not_mem_nil, or_false] at hb
  · subst hb
    exact key _ (by omega) hq' hs' hc
  · rcases hb with rfl | rfl
    all_goals exact key _ (by omega) (by omega) (by omega) (by omega)
  · rcases hb with rfl | rfl | rfl
    all_goals exact key _ (by omega) (by omega) (by omega) (by omega)
  · rcases hb with rfl | rfl | rfl | rfl
    all_goals exact key _ (by omega) (by omega) (by omega) (by omega)

/-- **The three ways of writing a character**: by a short escape, by its
number, or as it is. -/
inductive Escaped (ch : Char) (bs : Bytes) : Prop
  /-- A backslash and a letter. -/
  | short (c x : UInt8) (hbs : bs = [octet '\\', c]) (h : shortEscape c = some x)
      (hx : String.utf8EncodeChar ch = [x])
  /-- A backslash and four digits. -/
  | hex (h₁ h₂ h₃ h₄ : UInt8) (hbs : bs = [octet '\\', octet 'u', h₁, h₂, h₃, h₄])
      (h : hex4 h₁ h₂ h₃ h₄ = some ch.toNat) (hc : ch.toNat < 0x20)
  /-- Its own octets. -/
  | plain (hbs : bs = String.utf8EncodeChar ch) (h : ∀ b ∈ bs, Plain b)

theorem hex4_hexDigit : ∀ n < 32,
    hex4 (octet '0') (octet '0') (octet (Writer.hexDigit (n / 16))) (octet (Writer.hexDigit n)) =
      some n ∧
    String.utf8EncodeChar (Writer.hexDigit (n / 16)) = [octet (Writer.hexDigit (n / 16))] ∧
    String.utf8EncodeChar (Writer.hexDigit n) = [octet (Writer.hexDigit n)] := by
  decide

/-- **Every character is written in one of the three ways.** -/
theorem escaped_escape (ch : Char) :
    Escaped ch ((Writer.escape ch).flatMap String.utf8EncodeChar) := by
  rw [Writer.escape.eq_def]
  split
  · exact .short (octet '"') _ rfl rfl rfl
  · exact .short (octet '\\') _ rfl rfl rfl
  · exact .short (octet 'b') _ rfl rfl rfl
  · exact .short (octet 'f') _ rfl rfl rfl
  · exact .short (octet 'n') _ rfl rfl rfl
  · exact .short (octet 'r') _ rfl rfl rfl
  · exact .short (octet 't') _ rfl rfl rfl
  · next hq hs _ _ _ _ _ =>
    split
    · next hc =>
      obtain ⟨hhex, hhigh, hlow⟩ := hex4_hexDigit ch.toNat hc
      refine .hex (octet '0') (octet '0') _ _ ?_ hhex hc
      simp only [List.flatMap_cons, List.flatMap_nil, hhigh, hlow]
      rfl
    · next hc =>
      rw [List.flatMap_singleton]
      exact .plain rfl (plain_of_char hq hs hc)

theorem codePoint_toNat : codePoint ch.toNat = String.utf8EncodeChar ch := by
  rw [codePoint, Char.ofNat_toNat]

/-- **A character is read as it was written.** -/
theorem textBody_escape (ch : Char) (bs : Bytes) :
    textBody ((Writer.escape ch).flatMap String.utf8EncodeChar ++ bs) =
      prepend (String.utf8EncodeChar ch) <$> textBody bs := by
  cases escaped_escape ch with
  | short c x hbs h hx =>
    rw [hbs, hx]
    exact textBody_short h
  | hex h₁ h₂ h₃ h₄ hbs h hc =>
    rw [hbs, ← codePoint_toNat]
    refine textBody_hex h ?_ ?_
    · simp [isLeading]; omega
    · simp [isTrailing]; omega
  | plain hbs h =>
    rw [← hbs]
    exact textBody_append h

/-! ## Whole strings -/

/-- The octets of a string between its quotes. -/
def written (s : String) : Bytes :=
  s.toList.flatMap fun ch => (Writer.escape ch).flatMap String.utf8EncodeChar

/-- A string is written as its octets between two quotes. -/
theorem encode_text (s : String) :
    Utf8.encode (Writer.text s) = octet '"' :: (written s ++ [octet '"']) := by
  rw [Utf8.encode, Writer.text, String.toList_ofList, List.flatMap_cons, List.flatMap_append,
    List.flatMap_assoc]
  rfl

theorem textBody_written (s : String) :
    textBody (written s ++ octet '"' :: bs) = .ok (Utf8.encode s, bs) := by
  rw [written, Utf8.encode]
  induction s.toList with
  | nil => exact textBody_quote
  | cons ch cs ih =>
    rw [List.flatMap_cons, List.append_assoc, textBody_escape, ih]
    rfl

/-! ## Strings in any spelling -/

/-- **What stands between the quotes of a string, and the octets that it
denotes.** -/
inductive Denotes : Bytes → Bytes → Prop
  | nil : Denotes [] []
  /-- An octet stands for itself. -/
  | plain {b : UInt8} {bs os : Bytes} (hb : Plain b) (rest : Denotes bs os) :
      Denotes (b :: bs) (b :: os)
  /-- A short escape. -/
  | short {c x : UInt8} {bs os : Bytes} (hc : shortEscape c = some x) (rest : Denotes bs os) :
      Denotes (octet '\\' :: c :: bs) (x :: os)
  /-- An escape of four digits that is no half of a pair. -/
  | hex {h₁ h₂ h₃ h₄ : UInt8} {n : Nat} {bs os : Bytes} (h : hex4 h₁ h₂ h₃ h₄ = some n)
      (hl : isLeading n = false) (ht : isTrailing n = false) (rest : Denotes bs os) :
      Denotes (octet '\\' :: octet 'u' :: h₁ :: h₂ :: h₃ :: h₄ :: bs) (codePoint n ++ os)
  /-- Two escapes that are a pair. -/
  | pair {h₁ h₂ h₃ h₄ g₁ g₂ g₃ g₄ : UInt8} {n m : Nat} {bs os : Bytes}
      (h : hex4 h₁ h₂ h₃ h₄ = some n) (g : hex4 g₁ g₂ g₃ g₄ = some m)
      (hl : isLeading n = true) (ht : isTrailing m = true) (rest : Denotes bs os) :
      Denotes
        (octet '\\' :: octet 'u' :: h₁ :: h₂ :: h₃ :: h₄ ::
          octet '\\' :: octet 'u' :: g₁ :: g₂ :: g₃ :: g₄ :: bs)
        (codePoint (pair n m) ++ os)

/-- A string is read as what it denotes, up to the quote behind it. -/
theorem textBody_of_denotes {k os rest : Bytes} (h : Denotes k os) :
    textBody (k ++ octet '"' :: rest) = .ok (os, rest) := by
  induction h with
  | nil => exact textBody_quote
  | plain hb _ ih =>
    rw [List.cons_append, textBody_plain hb, ih]
    rfl
  | short hc _ ih =>
    rw [List.cons_append, List.cons_append, textBody_short hc, ih]
    rfl
  | hex h hl ht _ ih =>
    simp only [List.cons_append]
    rw [textBody_hex h hl ht, ih]
    rfl
  | @pair h₁ h₂ h₃ h₄ g₁ g₂ g₃ g₄ n m bs os h g hl ht _ ih =>
    have hnt : isTrailing n = false := by
      simp only [isLeading, isTrailing, Bool.and_eq_true, decide_eq_true_eq, Bool.and_eq_false_iff,
        decide_eq_false_iff_not] at hl ⊢
      omega
    simp only [List.cons_append]
    rw [textBody.eq_def]
    simp only [if_neg (show octet '\\' ≠ octet '"' by decide), h, g, hl, hnt, ht, if_true, ih]
    simp
    rfl

theorem ok_of_prepend {p os rest : Bytes} {r : Except Problem (Bytes × Bytes)}
    (h : prepend p <$> r = .ok (os, rest)) : ∃ os', r = .ok (os', rest) ∧ os = p ++ os' := by
  obtain ⟨⟨os', rest'⟩, hr, heq⟩ := ok_of_map h
  obtain ⟨rfl, rfl⟩ := Prod.mk.inj heq
  exact ⟨os', hr, rfl⟩

/-- A string that is read ends at a quote, and denotes what is read. -/
theorem denotes_of_textBody {bs os rest : Bytes} (h : textBody bs = .ok (os, rest)) :
    ∃ k, bs = k ++ octet '"' :: rest ∧ Denotes k os := by
  fun_induction textBody bs generalizing os rest
  -- what is left are the end and the four productions
  all_goals try cases h
  case case2.refl => exact ⟨[], rfl, .nil⟩
  case case11 hn _ hl _ hy _ hz _ _ _ _ _ _ hm ht _ ih =>
    obtain ⟨os', hr, hos⟩ := ok_of_prepend h
    obtain ⟨k, rfl, hk⟩ := ih hr
    rw [hos, Decidable.not_not.1 hy, Decidable.not_not.1 hz]
    exact ⟨_, rfl, .pair hn hm hl ht hk⟩
  case case14 hn ht hl _ ih =>
    obtain ⟨os', hr, rfl⟩ := ok_of_prepend h
    obtain ⟨k, rfl, hk⟩ := ih hr
    exact ⟨_, rfl, .hex hn (by simpa using hl) (by simpa using ht) hk⟩
  case case16 hc _ ih =>
    obtain ⟨os', hr, rfl⟩ := ok_of_prepend h
    obtain ⟨k, rfl, hk⟩ := ih hr
    exact ⟨_, rfl, .short hc hk⟩
  case case19 hq hs hc ih =>
    obtain ⟨os', hr, rfl⟩ := ok_of_prepend h
    obtain ⟨k, rfl, hk⟩ := ih hr
    exact ⟨_, rfl, .plain ⟨hq, hs, hc⟩ hk⟩

/-- What is taken for a text are its octets. -/
theorem ok_of_decode {os rest rest' : Bytes} {s : String} {e : Problem}
    (h : (match Utf8.decode? os with
      | some s => pure (s, rest')
      | none => throw e) = (.ok (s, rest) : Except Problem (String × Bytes))) :
    os = Utf8.encode s ∧ rest' = rest := by
  cases hd : Utf8.decode? os with
  | none =>
    rw [hd] at h
    cases h
  | some s' =>
    rw [hd] at h
    obtain ⟨rfl, rfl⟩ := Prod.mk.inj (Except.ok.inj h)
    exact ⟨(Utf8.decode?_eq_some_iff.1 hd).symm, rfl⟩

/-- **A string is read exactly if it ends at a quote and denotes the octets
of a text**, and then it is read as that text. -/
theorem text_eq_ok_iff {bs rest : Bytes} {s : String} : text bs = .ok (s, rest) ↔
    ∃ k, bs = k ++ octet '"' :: rest ∧ Denotes k (Utf8.encode s) := by
  constructor
  · intro h
    obtain ⟨⟨os, rest'⟩, hb, h⟩ := ok_of_bind h
    obtain ⟨rfl, rfl⟩ := ok_of_decode h
    exact denotes_of_textBody hb
  · rintro ⟨k, rfl, hk⟩
    rw [text, textBody_of_denotes hk]
    simp only [bind, Except.bind, Utf8.decode?_encode]
    rfl

/-- The spelling that is written is one of them. -/
theorem denotes_written (s : String) : Denotes (written s) (Utf8.encode s) := by
  have hbody : textBody (written s ++ octet '"' :: []) = _ := textBody_written s
  obtain ⟨k, hk, h⟩ := denotes_of_textBody hbody
  rwa [List.append_cancel_right hk]

end Provision.Json
