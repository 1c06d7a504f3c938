import Provision.Proofs.Json.Reading
/-!
# JSON — integers are read as they were written

An integer has one spelling: its decimal digits, without a zero in front.
Reading pushes the digits onto a significand, which **drops none as long as
the integer fits a word** (`foldl_push`), so the integer comes back.
-/

namespace Provision.Json

open Numeral

/-! ## Digits -/

section

variable {c : Char}

theorem toNat_of_isDigit (h : c.isDigit = true) : 48 ≤ c.toNat ∧ c.toNat ≤ 57 := by
  simpa [Char.isDigit, UInt32.le_iff_toNat_le] using h

theorem toNat_octet (h : c.isDigit = true) : (octet c).toNat = c.toNat := by
  have hc := toNat_of_isDigit h
  rw [octet, Nat.toUInt8, UInt8.toNat_ofNat']
  omega

theorem isDigit_octet (h : c.isDigit = true) : isDigit (octet c) = true := by
  simp only [isDigit, Bool.and_eq_true, decide_eq_true_eq, UInt8.le_iff_toNat_le, toNat_octet h,
    UInt8.reduceToNat]
  exact toNat_of_isDigit h

/-- A digit is one octet. -/
theorem utf8EncodeChar_digit (h : c.isDigit = true) : String.utf8EncodeChar c = [octet c] := by
  have hc := toNat_of_isDigit h
  rw [String.utf8EncodeChar]
  simp only [show c.val.toNat = c.toNat from rfl]
  rw [if_pos (by omega)]
  rfl

end

theorem isDigit_toDigits {n : Nat} : ∀ c ∈ Nat.toDigits 10 n, c.isDigit = true :=
  fun _ hc => Nat.isDigit_of_mem_toDigits (by decide) (by decide) hc

/-- The octets of the digits of an integer. -/
def digitOctets (n : Nat) : Bytes := (Nat.toDigits 10 n).map octet

theorem encode_natural (n : Nat) : Utf8.encode (Writer.natural n) = digitOctets n := by
  have hdigit := @isDigit_toDigits n
  rw [Writer.natural, Nat.toString_eq_ofList_toDigits, Utf8.encode, String.toList_ofList,
    digitOctets]
  generalize Nat.toDigits 10 n = cs at hdigit
  induction cs with
  | nil => rfl
  | cons c cs ih =>
    rw [List.forall_mem_cons] at hdigit
    rw [List.flatMap_cons, utf8EncodeChar_digit hdigit.1, ih hdigit.2]
    rfl

theorem digits_digitOctets (n : Nat) : Digits (digitOctets n) := by
  intro d hd
  obtain ⟨c, hc, rfl⟩ := List.mem_map.1 hd
  exact isDigit_octet (isDigit_toDigits c hc)

/-- Digits grow what they are added to. -/
theorem le_ofDigitChars (cs : List Char) (v : Nat) : v ≤ Nat.ofDigitChars 10 cs v := by
  induction cs generalizing v with
  | nil => exact Nat.le_refl v
  | cons c cs ih =>
    have := ih (10 * v + (c.toNat - '0'.toNat))
    rw [Nat.ofDigitChars_cons]
    omega

/-- **No digit is dropped** as long as the integer fits a word. -/
theorem foldl_push {cs : List Char} {v : Nat} (hcs : ∀ c ∈ cs, c.isDigit = true)
    (h : Nat.ofDigitChars 10 cs v < wordLimit) :
    (cs.map octet).foldl Significand.push ⟨v, 0⟩ = ⟨Nat.ofDigitChars 10 cs v, 0⟩ := by
  induction cs generalizing v with
  | nil => rfl
  | cons c cs ih =>
    rw [List.forall_mem_cons] at hcs
    rw [Nat.ofDigitChars_cons] at h ⊢
    have hfits : 10 * v + (c.toNat - '0'.toNat) < wordLimit :=
      Nat.lt_of_le_of_lt (le_ofDigitChars cs _) h
    have hpush : Significand.push ⟨v, 0⟩ (octet c) = ⟨10 * v + (c.toNat - '0'.toNat), 0⟩ := by
      rw [Significand.push, toNat_octet hcs.1, Nat.mul_comm v, show 0x30 = '0'.toNat from rfl]
      simp only [decide_true, decide_eq_true hfits, Bool.and_self, if_true]
    rw [List.map_cons, List.foldl_cons, hpush]
    exact ih hcs.2 h

/-- An integer other than zero does not begin with one. -/
theorem head_toDigits {n : Nat} (h : 0 < n) : (Nat.toDigits 10 n).head? ≠ some '0' := by
  induction n using Nat.strongRecOn with
  | ind n ih =>
    by_cases hn : n < 10
    · rw [Nat.toDigits_of_lt_base hn]
      have hdigit : ∀ m < 10, 0 < m → [m.digitChar].head? ≠ some '0' := by decide
      exact hdigit n hn h
    · rw [Nat.toDigits_of_base_le (by decide) (by omega), List.head?_append]
      have hhead := ih (n / 10) (by omega) (by omega)
      cases hd : Nat.toDigits 10 (n / 10) with
      | nil => exact absurd hd Nat.toDigits_ne_nil
      | cons c cs =>
        rw [hd] at hhead
        exact hhead

/-- A zero in front of other digits is not written. -/
theorem digitOctets_eq_cons (n : Nat) :
    ∃ d ds, digitOctets n = d :: ds ∧ isDigit d = true ∧ (d = octet '0' → ds = []) := by
  have hdigits := digits_digitOctets n
  rw [digitOctets] at hdigits ⊢
  cases hd : Nat.toDigits 10 n with
  | nil => exact absurd hd Nat.toDigits_ne_nil
  | cons c cs =>
    rw [hd] at hdigits
    refine ⟨octet c, cs.map octet, rfl, hdigits _ List.mem_cons_self, fun hzero => ?_⟩
    have hc : c.isDigit = true := isDigit_toDigits c (hd ▸ List.mem_cons_self)
    have hcode : c.toNat = '0'.toNat := by
      rw [← toNat_octet hc, hzero]
      rfl
    rcases Nat.eq_zero_or_pos n with rfl | hpos
    · rw [Nat.toDigits_zero] at hd
      rw [← (List.cons.inj hd).2, List.map_nil]
    · have hhead := head_toDigits hpos
      rw [hd, List.head?_cons, ← Char.ofNat_toNat c, hcode] at hhead
      exact absurd rfl hhead

/-- **An integer that fits a word is read as it was written.** -/
theorem read_natural {n : Nat} (h : n < wordLimit) {rest : Bytes} (hrest : Stops rest) :
    Numeral.read true (digitOctets n ++ rest) = .ok (.natural n, rest) := by
  have hdrop : (digitOctets n ++ rest).dropWhile isDigit = rest :=
    dropWhile_digits (digits_digitOctets n) fun b hb => (hrest b hb).1
  have htake : (digitOctets n ++ rest).takeWhile isDigit = digitOctets n := by
    have hboth := List.takeWhile_append_dropWhile (p := isDigit) (l := digitOctets n ++ rest)
    rw [hdrop] at hboth
    exact List.append_cancel_right hboth
  have hpush : (digitOctets n).foldl Significand.push ⟨0, 0⟩ = ⟨n, 0⟩ := by
    have hfits : Nat.ofDigitChars 10 (Nat.toDigits 10 n) 0 < wordLimit := by
      rwa [Nat.ofDigitChars_ten_toDigits]
    rw [digitOctets, foldl_push isDigit_toDigits hfits, Nat.ofDigitChars_ten_toDigits]
  obtain ⟨d, ds, hds, hd, hzero⟩ := digitOctets_eq_cons n
  -- the only digit that nothing may follow is a zero in front
  have hno : (d = octet '0' && (ds ++ rest).head?.any isDigit) = false := by
    by_cases hd0 : d = octet '0'
    · rw [hzero hd0, List.nil_append]
      cases hr : rest.head? with
      | none => simp
      | some b => simp [(hrest b hr).1]
    · simp [hd0]
  rw [hds, List.cons_append] at hdrop htake ⊢
  rw [Numeral.read]
  simp only [hd, hno, htake, hdrop, ← hds, hpush]
  cases rest with
  | nil => rfl
  | cons b rest =>
    obtain ⟨-, hpoint, he, hE⟩ := hrest b rfl
    simp [hpoint, he, hE, whole]

/-- So it is read wherever integers of that size are wanted. -/
theorem takes_natural {limit : Nat} (wanted : String) {n : Nat} (h : n < limit)
    (hlimit : limit ≤ wordLimit) : Takes (Reader.natural limit wanted) (Writer.natural n) n := by
  intro ws rest hws hrest
  obtain ⟨d, ds, hds, hd, -⟩ := digitOctets_eq_cons n
  have hread := read_natural (Nat.lt_of_lt_of_le h hlimit) hrest
  have hminus : d ≠ octet '-' := by
    rintro rfl
    exact absurd hd (by decide)
  rw [hds, List.cons_append] at hread
  rw [encode_natural, hds, List.cons_append, Reader.natural,
    token_spaces hws (isSpace_of_isDigit hd)]
  simp only [bind, Except.bind, if_neg hminus, hd, if_true, hread, h]
  rfl

end Provision.Json
