import Provision.Text.Utf8
/-!
# UTF-8 — what is written is read back

The octets of a text decode to that text, whatever stands behind them. The
argument goes character by character: the lead octet tells the width, the
continuation octets hold six bits each, and **no character is a surrogate
or too large**, which is what the bounds on the second octet are about. The
same bounds keep out every other form of a character, so octets that decode
are the octets of what they decode to (`decode?_eq_some_iff`). And the lead
octets grow with the characters, so texts are in the order of their octets
(`encode_lt_encode`).
-/

namespace Provision

section

variable {ε α β : Type} {r : Except ε α} {y : β}

/-- What is made of a result comes from a result. -/
theorem ok_of_map {f : α → β} (h : f <$> r = .ok y) : ∃ x, r = .ok x ∧ f x = y := by
  cases r with
  | error e => cases h
  | ok x => exact ⟨x, rfl, Except.ok.inj h⟩

/-- What goes on from a result has one to go on from. -/
theorem ok_of_bind {f : α → Except ε β} (h : r >>= f = .ok y) : ∃ x, r = .ok x ∧ f x = .ok y := by
  cases r with
  | error e => cases h
  | ok x => exact ⟨x, rfl, h⟩

theorem ok_of_toOption {x : α} (h : r.toOption = some x) : r = .ok x := by
  cases r with
  | error e => cases h
  | ok x' => exact congrArg _ (Option.some.inj h)

/-- What is not refused. -/
theorem ok_of_ite {p : Prop} [Decidable p] {e : ε} {x : α}
    (h : (if p then .error e else r) = .ok x) : ¬ p ∧ r = .ok x := by
  by_cases hp : p
  · rw [if_pos hp] at h
    cases h
  · exact ⟨hp, by rwa [if_neg hp] at h⟩

end

namespace Utf8

/-! ## Octets -/

variable {m : Nat}

/-- The continuation octet that holds the low six bits of a number. -/
def tailOctet (m : Nat) : UInt8 := UInt8.ofNat (m % 64 + 0x80)

theorem toNat_tailOctet : (tailOctet m).toNat = m % 64 + 0x80 := by
  rw [tailOctet, UInt8.toNat_ofNat']
  omega

@[simp] theorem isTail_tailOctet : isTail (tailOctet m) = true := by
  simp only [isTail, Bool.and_eq_true, decide_eq_true_eq, UInt8.le_iff_toNat_le, toNat_tailOctet,
    UInt8.reduceToNat]
  omega

@[simp] theorem low_tailOctet : low (tailOctet m) = m % 64 := by
  rw [low, toNat_tailOctet]
  omega

theorem width_ofNat (hm : m < 256) : width (UInt8.ofNat m) =
    if m < 0x80 then 1 else if 0xC2 ≤ m ∧ m ≤ 0xDF then 2
    else if 0xE0 ≤ m ∧ m ≤ 0xEF then 3 else if 0xF0 ≤ m ∧ m ≤ 0xF4 then 4 else 0 := by
  simp only [width, UInt8.lt_iff_toNat_lt, UInt8.le_iff_toNat_le, UInt8.toNat_ofNat',
    UInt8.reduceToNat, Nat.mod_eq_of_lt hm, Bool.and_eq_true, decide_eq_true_eq]

/-- The second octet of a character of three keeps within its bounds. -/
theorem isSecond_three (hm : m < 0x10000) (hlong : 0x800 ≤ m) (hs : m < 0xD800 ∨ 0xDFFF < m) :
    isSecond (UInt8.ofNat (m / 4096 % 16 + 0xE0)) (tailOctet (m / 64)) = true := by
  have hlead : (UInt8.ofNat (m / 4096 % 16 + 0xE0)).toNat = m / 4096 + 0xE0 := by
    rw [UInt8.toNat_ofNat']
    omega
  simp only [isSecond, isTail, ← UInt8.toNat_inj, hlead, UInt8.le_iff_toNat_le, toNat_tailOctet,
    UInt8.reduceToNat]
  split
  · simp; omega
  · split
    · simp; omega
    · rw [if_neg (by omega), if_neg (by omega)]
      simp; omega

/-- And that of a character of four. -/
theorem isSecond_four (hm : m < 0x110000) (hlong : 0x10000 ≤ m) :
    isSecond (UInt8.ofNat (m / 262144 % 8 + 0xF0)) (tailOctet (m / 4096)) = true := by
  have hlead : (UInt8.ofNat (m / 262144 % 8 + 0xF0)).toNat = m / 262144 + 0xF0 := by
    rw [UInt8.toNat_ofNat']
    omega
  simp only [isSecond, isTail, ← UInt8.toNat_inj, hlead, UInt8.le_iff_toNat_le, toNat_tailOctet,
    UInt8.reduceToNat]
  rw [if_neg (by omega), if_neg (by omega)]
  split
  · simp; omega
  · split
    · simp; omega
    · simp; omega

/-! ## Characters -/

theorem toNat_char (c : Char) : c.toNat < 0xD800 ∨ 0xDFFF < c.toNat ∧ c.toNat < 0x110000 := by
  have := c.valid
  simpa [UInt32.isValidChar, Nat.isValidChar] using this

/-- **The octets of a character are read as that character**, whatever
follows. -/
theorem decodeFrom_char (i : Nat) (c : Char) (bs : Bytes) :
    decodeFrom i (String.utf8EncodeChar c ++ bs) =
      (c :: ·) <$> decodeFrom (i + (String.utf8EncodeChar c).length) bs := by
  have hc := toNat_char c
  have hnat : ∀ k, k = c.toNat → Char.ofNat k = c := fun k hk => hk ▸ Char.ofNat_toNat c
  rw [String.utf8EncodeChar]
  simp only [show c.val.toNat = c.toNat from rfl]
  -- one case for each width; the bounds on the second octet hold because `c` is no surrogate
  by_cases h₁ : c.toNat ≤ 0x7f
  · rw [if_pos h₁, List.singleton_append, decodeFrom.eq_def]
    simp only [width_ofNat (m := c.toNat) (by omega)]
    rw [if_pos (by omega)]
    simp only [UInt8.toNat_ofNat']
    rw [hnat _ (by omega)]
    rfl
  rw [if_neg h₁]
  by_cases h₂ : c.toNat ≤ 0x7ff
  · rw [if_pos h₂]
    change decodeFrom i (_ :: tailOctet c.toNat :: bs) = _
    rw [decodeFrom, width_ofNat (by omega), if_neg (by omega), if_pos (by omega)]
    simp only [isTail_tailOctet, low_tailOctet, UInt8.toNat_ofNat']
    rw [hnat _ (by omega)]
    rfl
  rw [if_neg h₂]
  by_cases h₃ : c.toNat ≤ 0xffff
  · rw [if_pos h₃]
    change decodeFrom i (_ :: tailOctet (c.toNat / 64) :: tailOctet c.toNat :: bs) = _
    rw [decodeFrom, width_ofNat (by omega), if_neg (by omega), if_neg (by omega),
      if_pos (by omega)]
    simp only [isSecond_three (m := c.toNat) (by omega) (by omega) (by omega), isTail_tailOctet,
      low_tailOctet, UInt8.toNat_ofNat']
    rw [hnat _ (by omega)]
    rfl
  · rw [if_neg h₃]
    change decodeFrom i (_ :: tailOctet (c.toNat / 4096) :: tailOctet (c.toNat / 64) ::
      tailOctet c.toNat :: bs) = _
    rw [decodeFrom, width_ofNat (by omega), if_neg (by omega), if_neg (by omega),
      if_neg (by omega), if_pos (by omega)]
    simp only [isSecond_four (m := c.toNat) (by omega) (by omega), isTail_tailOctet,
      low_tailOctet, UInt8.toNat_ofNat']
    rw [hnat _ (by omega)]
    rfl

/-! ## Texts -/

theorem decodeFrom_encode (cs : List Char) (i : Nat) :
    decodeFrom i (cs.flatMap String.utf8EncodeChar) = .ok cs := by
  induction cs generalizing i with
  | nil => rw [List.flatMap_nil, decodeFrom]
  | cons c cs ih =>
    rw [List.flatMap_cons, decodeFrom_char, ih]
    rfl

/-- **The octets of a text are read as that text.** -/
theorem decode_encode (s : String) : decode (encode s) = .ok s := by
  rw [decode, encode, decodeFrom_encode]
  change Except.ok (String.ofList s.toList) = _
  rw [String.ofList_toList]

@[simp] theorem decode?_encode (s : String) : decode? (encode s) = some s := by
  rw [decode?, decode_encode]
  rfl

@[simp] theorem encode_append (s t : String) : encode (s ++ t) = encode s ++ encode t := by
  simp [encode]

/-! ## Octets that are read -/

theorem toNat_ofNat {n : Nat} (h : n < 0xD800 ∨ 0xDFFF < n ∧ n < 0x110000) :
    (Char.ofNat n).val.toNat = n := by
  have hv : n.isValidChar := h
  rw [Char.ofNat, dif_pos hv]
  rfl

theorem eq_ofNat {m : Nat} {b : UInt8} (h : m = b.toNat) : UInt8.ofNat m = b := by
  rw [h, UInt8.ofNat_toNat]

theorem width_eq (a : UInt8) : width a =
    if a.toNat < 0x80 then 1 else if 0xC2 ≤ a.toNat ∧ a.toNat ≤ 0xDF then 2
    else if 0xE0 ≤ a.toNat ∧ a.toNat ≤ 0xEF then 3
    else if 0xF0 ≤ a.toNat ∧ a.toNat ≤ 0xF4 then 4 else 0 := by
  have h := width_ofNat a.toNat_lt
  rwa [UInt8.ofNat_toNat] at h

theorem isTail_iff {b : UInt8} : isTail b = true ↔ 0x80 ≤ b.toNat ∧ b.toNat ≤ 0xBF := by
  simp only [isTail, Bool.and_eq_true, decide_eq_true_eq, UInt8.le_iff_toNat_le, UInt8.reduceToNat]

/-- A second octet is a continuation, and keeps within the bounds that its
lead octet sets. -/
theorem isSecond_iff {a b : UInt8} : isSecond a b = true ↔
    0x80 ≤ b.toNat ∧ b.toNat ≤ 0xBF ∧ (a.toNat = 0xE0 → 0xA0 ≤ b.toNat) ∧
      (a.toNat = 0xED → b.toNat ≤ 0x9F) ∧ (a.toNat = 0xF0 → 0x90 ≤ b.toNat) ∧
      (a.toNat = 0xF4 → b.toNat ≤ 0x8F) := by
  simp only [isSecond, isTail, ← UInt8.toNat_inj, UInt8.reduceToNat]
  split
  · simp only [Bool.and_eq_true, decide_eq_true_eq, UInt8.le_iff_toNat_le, UInt8.reduceToNat]
    omega
  split
  · simp only [Bool.and_eq_true, decide_eq_true_eq, UInt8.le_iff_toNat_le, UInt8.reduceToNat]
    omega
  split
  · simp only [Bool.and_eq_true, decide_eq_true_eq, UInt8.le_iff_toNat_le, UInt8.reduceToNat]
    omega
  split
  all_goals
    simp only [Bool.and_eq_true, decide_eq_true_eq, UInt8.le_iff_toNat_le, UInt8.reduceToNat]
    omega

variable {a b c d : UInt8}

theorem encode_one (ha : width a = 1) : String.utf8EncodeChar (Char.ofNat a.toNat) = [a] := by
  have hlead : a.toNat < 0x80 := by
    rw [width_eq] at ha
    grind
  rw [String.utf8EncodeChar]
  simp only [toNat_ofNat (n := a.toNat) (by omega)]
  rw [if_pos (by omega), UInt8.ofNat_toNat]

theorem encode_two (ha : width a = 2) (hb : isTail b = true) :
    String.utf8EncodeChar (Char.ofNat (a.toNat % 32 * 64 + low b)) = [a, b] := by
  have hlead : 0xC2 ≤ a.toNat ∧ a.toNat ≤ 0xDF := by
    rw [width_eq] at ha
    grind
  rw [isTail_iff] at hb
  rw [String.utf8EncodeChar, low]
  simp only [toNat_ofNat (n := a.toNat % 32 * 64 + b.toNat % 64) (by omega)]
  rw [if_neg (by omega), if_pos (by omega), eq_ofNat (b := a) (by omega),
    eq_ofNat (b := b) (by omega)]

theorem encode_three (ha : width a = 3) (hb : isSecond a b = true) (hc : isTail c = true) :
    String.utf8EncodeChar (Char.ofNat (a.toNat % 16 * 4096 + low b * 64 + low c)) = [a, b, c] := by
  have hlead : 0xE0 ≤ a.toNat ∧ a.toNat ≤ 0xEF := by
    rw [width_eq] at ha
    grind
  rw [isSecond_iff] at hb
  rw [isTail_iff] at hc
  rw [String.utf8EncodeChar, low, low]
  simp only [toNat_ofNat (n := a.toNat % 16 * 4096 + b.toNat % 64 * 64 + c.toNat % 64) (by omega)]
  rw [if_neg (by omega), if_neg (by omega), if_pos (by omega), eq_ofNat (b := a) (by omega),
    eq_ofNat (b := b) (by omega), eq_ofNat (b := c) (by omega)]

theorem encode_four (ha : width a = 4) (hb : isSecond a b = true) (hc : isTail c = true)
    (hd : isTail d = true) :
    String.utf8EncodeChar
      (Char.ofNat (a.toNat % 8 * 262144 + low b * 4096 + low c * 64 + low d)) = [a, b, c, d] := by
  have hlead : 0xF0 ≤ a.toNat ∧ a.toNat ≤ 0xF4 := by
    rw [width_eq] at ha
    grind
  rw [isSecond_iff] at hb
  rw [isTail_iff] at hc hd
  rw [String.utf8EncodeChar, low, low, low]
  simp only [toNat_ofNat
    (n := a.toNat % 8 * 262144 + b.toNat % 64 * 4096 + c.toNat % 64 * 64 + d.toNat % 64) (by omega)]
  rw [if_neg (by omega), if_neg (by omega), if_neg (by omega), eq_ofNat (b := a) (by omega),
    eq_ofNat (b := b) (by omega), eq_ofNat (b := c) (by omega), eq_ofNat (b := d) (by omega)]

/-- **Octets that are read are those of the characters** they are read as. -/
theorem eq_of_decodeFrom {i : Nat} {bs : Bytes} {cs : List Char} (h : decodeFrom i bs = .ok cs) :
    bs = cs.flatMap String.utf8EncodeChar := by
  fun_induction decodeFrom i bs generalizing cs
  -- what is left are the end and the four widths
  all_goals try cases h
  case case1 => rfl
  case case2 hw ih =>
    obtain ⟨cs, hcs, rfl⟩ := ok_of_map h
    rw [List.flatMap_cons, encode_one hw, ← ih hcs, List.singleton_append]
  case case5 hw b rest hb ih =>
    obtain ⟨cs, hcs, rfl⟩ := ok_of_map h
    rw [List.flatMap_cons, encode_two hw (by simpa using hb), ← ih hcs]
    rfl
  case case10 hw b c rest hb hc ih =>
    obtain ⟨cs, hcs, rfl⟩ := ok_of_map h
    rw [List.flatMap_cons, encode_three hw (by simpa using hb) (by simpa using hc), ← ih hcs]
    rfl
  case case17 hw b c d rest hb hc hd ih =>
    obtain ⟨cs, hcs, rfl⟩ := ok_of_map h
    rw [List.flatMap_cons,
      encode_four hw (by simpa using hb) (by simpa using hc) (by simpa using hd), ← ih hcs]
    rfl

theorem decode?_eq_some_iff {bs : Bytes} {s : String} : decode? bs = some s ↔ encode s = bs := by
  refine ⟨fun h => ?_, fun h => h ▸ decode?_encode s⟩
  cases hd : decode bs with
  | error e =>
    rw [decode?, hd] at h
    cases h
  | ok t =>
    obtain ⟨cs, hcs, rfl⟩ := ok_of_map hd
    rw [decode?, hd] at h
    obtain rfl := Option.some.inj h
    rw [encode, String.toList_ofList, eq_of_decodeFrom hcs]

/-! ## The order of texts -/

/-- The first octet in which two characters differ is smaller in the smaller
one. -/
theorem utf8EncodeChar_lt {c d : Char} (h : c.toNat < d.toNat) (xs ys : Bytes) :
    String.utf8EncodeChar c ++ xs < String.utf8EncodeChar d ++ ys := by
  have hc := toNat_char c
  have hd := toNat_char d
  rw [String.utf8EncodeChar, String.utf8EncodeChar]
  simp only [show c.val.toNat = c.toNat from rfl, show d.val.toNat = d.toNat from rfl]
  -- places of one number in base sixty-four
  have h₂ : ∀ n, n / 4096 = n / 64 / 64 := by omega
  have h₃ : ∀ n, n / 262144 = n / 64 / 64 / 64 := by omega
  repeat' split
  all_goals
    simp only [List.cons_append, List.cons_lt_cons_iff, UInt8.lt_iff_toNat_lt, ← UInt8.toNat_inj,
      UInt8.toNat_ofNat', h₂, h₃]
    omega

theorem flatMap_lt_flatMap {cs ds : List Char} (h : cs < ds) :
    cs.flatMap String.utf8EncodeChar < ds.flatMap String.utf8EncodeChar := by
  induction h with
  | @nil c cs =>
    have hne : String.utf8EncodeChar c ≠ [] := String.utf8EncodeChar_ne_nil
    rw [List.flatMap_nil, List.flatMap_cons]
    cases hc : String.utf8EncodeChar c with
    | nil => exact absurd hc hne
    | cons b bs => exact List.Lex.nil
  | cons h ih =>
    rw [List.flatMap_cons, List.flatMap_cons]
    exact List.append_left_lt ih
  | rel h =>
    rw [List.flatMap_cons, List.flatMap_cons]
    exact utf8EncodeChar_lt h _ _

/-- **Smaller texts have smaller octets.** -/
theorem encode_lt_encode {s t : String} (h : s < t) : encode s < encode t :=
  flatMap_lt_flatMap h

end Utf8

end Provision
