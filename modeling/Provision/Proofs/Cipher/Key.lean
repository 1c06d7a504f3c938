import Provision.Cipher.Sealer
import Provision.Proofs.Cipher.Base64
/-!
# Ciphers — the text of a key

A key is read from one text only, its written form, if the white space around
it is not counted (`readKey_eq_ok_iff`). Of all other texts some are written
forms of too few or too many octets, and these are told how many; the others
are no written forms at all.
-/

namespace Provision.Cipher.Sealer

variable {s s' t : String} {key : Aes.Key} {bs : Bytes} {n : Nat} {e : Error}

/-! ## Keys and octets -/

theorem key?_eq_some_iff : key? bs = some key ↔ bs = key.toList := by
  rw [key?]
  constructor
  · intro h
    split at h
    · obtain rfl := Option.some.inj h
      rfl
    · cases h
  · rintro rfl
    have hsize : key.toList.toArray.size = 32 := by simp
    rw [dif_pos hsize]
    exact congrArg some (Vector.toArray_inj.1 Array.toArray_toList)

theorem key?_eq_none_iff : key? bs = none ↔ bs.length ≠ 32 := by
  rw [key?]
  split
  · next h => simpa using h
  · next h => simpa using h

/-! ## Refusals -/

/-- What is said of a text that is no written form. -/
def noText (e : Base64.Error) : Error := .invalidKey ("invalid base64: " ++ e.message)

/-- What is said of a number of octets that no key has. -/
def noKey (n : Nat) : Error := .invalidKey ("key must be 32 bytes, got " ++ toString n)

theorem toString_injective {m n : Nat} (h : toString m = toString n) : m = n := by
  rw [Nat.toString_eq_ofList_toDigits, Nat.toString_eq_ofList_toDigits, ← String.toList_inj,
    String.toList_ofList, String.toList_ofList] at h
  rw [← Nat.ofDigitChars_ten_toDigits (n := m), h, Nat.ofDigitChars_ten_toDigits]

theorem noKey_injective {m n : Nat} (h : noKey m = noKey n) : m = n := by
  rw [noKey, noKey] at h
  injection h with h
  refine toString_injective (String.toList_inj.1 ?_)
  rw [← String.toList_inj, String.toList_append, String.toList_append] at h
  exact List.append_cancel_left h

/-- The two are told apart by their first letter. -/
theorem noText_ne_noKey (e : Base64.Error) (n : Nat) : noText e ≠ noKey n := by
  intro h
  rw [noText, noKey] at h
  injection h with h
  have hfirst := congrArg (fun text : String => text.toList.head?) h
  simp at hfirst

/-! ## Reading -/

/-- **What a text is read as** depends on what is left of it without the white
space around it. -/
theorem readKey_eq (s : String) : readKey s =
    match Base64.decode (Utf8.encode (Blank.trim s)) with
    | .error e => .error (noText e)
    | .ok bs =>
      match key? bs with
      | some key => .ok key
      | none => .error (noKey bs.length) := by
  have htext : "key must be " ++ toString keyLength ++ " bytes, got " =
      "key must be 32 bytes, got " := by decide
  rw [readKey, htext]
  cases Base64.decode (Utf8.encode (Blank.trim s)) with
  | error e => rfl
  | ok bs => cases h : key? bs <;> simp only [h, noKey]

/-- **A key is read from its written form**, and from nothing else. -/
theorem readKey_eq_ok_iff : readKey s = .ok key ↔ Blank.trim s = writeKey key := by
  rw [writeKey, ← Base64.decode_text_eq_ok_iff, readKey_eq]
  constructor
  · intro h
    split at h
    · cases h
    next bs hread =>
    split at h
    · next found hfound =>
      obtain rfl := Except.ok.inj h
      rw [hread, key?_eq_some_iff.1 hfound]
    · cases h
  · intro hread
    rw [hread]
    simp only [key?_eq_some_iff.2 rfl]

/-- How many octets there are is said of those that are no key. -/
theorem readKey_eq_noKey_iff :
    readKey s = .error (noKey n) ↔
      n ≠ 32 ∧ ∃ bs : Bytes, bs.length = n ∧ Blank.trim s = Base64.encodeText bs := by
  simp only [← Base64.decode_text_eq_ok_iff, readKey_eq]
  constructor
  · intro h
    split at h
    · next e hread => exact absurd (Except.error.inj h) (noText_ne_noKey e n)
    next bs hread =>
    split at h
    · cases h
    · next hnone =>
      have hn : bs.length = n := noKey_injective (Except.error.inj h)
      exact ⟨hn ▸ key?_eq_none_iff.1 hnone, bs, hn, hread⟩
  · rintro ⟨hn, bs, rfl, hread⟩
    rw [hread]
    simp only [key?_eq_none_iff.2 hn]

/-- What is no written form of any octets is refused as such. -/
theorem readKey_of_unwritten (h : ∀ bs, Blank.trim s ≠ Base64.encodeText bs) :
    ∃ e, readKey s = .error (noText e) := by
  rw [readKey_eq]
  cases hread : Base64.decode (Utf8.encode (Blank.trim s)) with
  | error e => exact ⟨e, rfl⟩
  | ok bs => exact absurd (Base64.decode_text_eq_ok_iff.1 hread) (h bs)

theorem trim_writeKey (key : Aes.Key) : Blank.trim (writeKey key) = writeKey key := by
  have hblank {c : Char} (hc : c ∈ (writeKey key).toList) : Blank.isBlank c = false :=
    Base64.not_isBlank_of_mem hc
  refine Blank.Strips.trim_eq ⟨⟨[], [], by simp, by simp, by simp⟩, fun c hc => ?_, fun c hc => ?_⟩
  · exact hblank (List.mem_of_mem_head? hc)
  · exact hblank (List.mem_of_mem_getLast? hc)

/-! ## The sealer of a text -/

theorem ofText_eq_ok_iff {sealer : Sealer} :
    ofText s = .ok sealer ↔ ∃ key, readKey s = .ok key ∧ sealer = ofKey key := by
  rw [ofText]
  cases readKey s with
  | error e => simp [Functor.map, Except.map]
  | ok key => simp [Functor.map, Except.map, eq_comm]

theorem ofText_eq_error_iff : ofText s = .error e ↔ readKey s = .error e := by
  rw [ofText]
  cases readKey s with
  | error e => simp [Functor.map, Except.map]
  | ok key => simp [Functor.map, Except.map]

/-- **Keys are read from their written forms, and from nothing else.** A text
is read as a key if and only if it is the written form of that key, but for
white space around it, and then it gives the sealer of the key. All other texts
are refused as no key. How many octets there are is said if and only if the
text without the white space is the written form of octets of another number
than that of a key; what is the written form of no octets is refused as such.
So two texts give one key only if the same is left of them. And each key that
is written is read again. -/
theorem readKey_canonical (s : String) :
    Blank.Strips s (Blank.trim s) ∧
    (∀ key, readKey s = .ok key ↔ Blank.trim s = writeKey key) ∧
    (∀ sealer, ofText s = .ok sealer ↔
      ∃ key, Blank.trim s = writeKey key ∧ sealer = ofKey key) ∧
    ((∀ key, Blank.trim s ≠ writeKey key) → ∃ reason, ofText s = .error (.invalidKey reason)) ∧
    (∀ n : Nat, ofText s = .error (.invalidKey ("key must be 32 bytes, got " ++ toString n)) ↔
      n ≠ 32 ∧ ∃ bs : Bytes, bs.length = n ∧ Blank.trim s = Base64.encodeText bs) ∧
    ((∀ bs, Blank.trim s ≠ Base64.encodeText bs) → ∃ e : Base64.Error,
      ofText s = .error (.invalidKey ("invalid base64: " ++ e.message))) ∧
    (∀ s' key, readKey s = .ok key → readKey s' = .ok key → Blank.trim s = Blank.trim s') ∧
    ∀ key, readKey (writeKey key) = .ok key ∧ ofText (writeKey key) = .ok (ofKey key) := by
  have hwritten (key : Aes.Key) : readKey (writeKey key) = .ok key :=
    readKey_eq_ok_iff.2 (trim_writeKey key)
  have hunwritten (h : ∀ bs, Blank.trim s ≠ Base64.encodeText bs) :
      ∃ e, ofText s = .error (noText e) := by
    obtain ⟨e, he⟩ := readKey_of_unwritten h
    exact ⟨e, ofText_eq_error_iff.2 he⟩
  refine ⟨Blank.strips_trim s, fun key => readKey_eq_ok_iff, fun sealer => ?_, fun hkey => ?_,
    fun n => ofText_eq_error_iff.trans readKey_eq_noKey_iff, hunwritten,
    fun s' key h h' => ?_, fun key => ⟨hwritten key, ofText_eq_ok_iff.2 ⟨key, hwritten key, rfl⟩⟩⟩
  · simp only [ofText_eq_ok_iff, readKey_eq_ok_iff]
  · by_cases hbs : ∃ bs, Blank.trim s = Base64.encodeText bs
    · obtain ⟨bs, hbs⟩ := hbs
      have hlen : bs.length ≠ 32 := by
        intro hlen
        cases hfound : key? bs with
        | none => exact key?_eq_none_iff.1 hfound hlen
        | some key => exact hkey key (by rw [hbs, key?_eq_some_iff.1 hfound, writeKey])
      have hread : readKey s = .error (noKey bs.length) :=
        readKey_eq_noKey_iff.2 ⟨hlen, bs, rfl, hbs⟩
      exact ⟨_, ofText_eq_error_iff.2 hread⟩
    · obtain ⟨e, he⟩ := hunwritten fun bs h => hbs ⟨bs, h⟩
      exact ⟨_, he⟩
  · rw [readKey_eq_ok_iff] at h h'
    exact h.trans h'.symm

end Provision.Cipher.Sealer

/-! ## A rehearsal -/

namespace Provision.Rehearsal

open Cipher

/-- A key with an ideographic space in front of it and a line end behind, and
half a key. -/
theorem readKey_canonical_spaced :
    Sealer.readKey "\u3000BwcHBwcHBwcHBwcHBwcHBwcHBwcHBwcHBwcHBwcHBwc=\r\n" =
        .ok (Vector.replicate 32 7) ∧
      Sealer.readKey (Sealer.writeKey (Vector.replicate 32 7)) = .ok (Vector.replicate 32 7) ∧
      Sealer.ofText " BwcHBwcHBwcHBwcHBwcHBw==" =
        .error (.invalidKey ("key must be 32 bytes, got " ++ toString 16)) := by
  obtain ⟨-, hreads, -⟩ :=
    Sealer.readKey_canonical "\u3000BwcHBwcHBwcHBwcHBwcHBwcHBwcHBwcHBwcHBwcHBwc=\r\n"
  obtain ⟨-, -, -, -, hcounts, -, -, hwritten⟩ :=
    Sealer.readKey_canonical " BwcHBwcHBwcHBwcHBwcHBw=="
  have hhalf : Blank.trim " BwcHBwcHBwcHBwcHBwcHBw==" =
      Base64.encodeText (List.replicate 16 7) := by decide +kernel
  exact ⟨(hreads _).2 (by decide +kernel), (hwritten _).1,
    (hcounts 16).2 ⟨by decide, _, List.length_replicate, hhalf⟩⟩

end Provision.Rehearsal
