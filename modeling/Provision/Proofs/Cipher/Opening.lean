import Provision.Proofs.Cipher.Sealing
/-!
# Ciphers — only what is sealed is opened

Opening takes octets apart where sealing puts them together, so octets that
are opened **are the sealed form of what they are opened to**
(`unsealed_eq_some_iff`): the mask that is taken off would be put on again,
and the tag has been compared. There is one sealed form for each nonce and
text, and nothing else is opened. In particular the tag of a sealed form is
the only one that fits the rest of it.
-/

namespace Provision.Cipher

namespace Gcm

variable (cipher : Block → Block)

/-! ## The three parts -/

/-- The nonce of octets is the first twelve of them. -/
theorem toList_nonceOf {bs : Bytes} (h : nonceLength ≤ bs.length) :
    (nonceOf bs).toList = bs.take nonceLength := by
  have hlen : (nonceOf bs).toList.length = (bs.take nonceLength).length := by
    rw [Vector.length_toList, List.length_take, Nat.min_eq_left h]
    rfl
  refine List.ext_getElem hlen fun i hi _ => ?_
  have hi : i < bs.length := by
    rw [Vector.length_toList] at hi
    exact Nat.lt_of_lt_of_le hi h
  simp [nonceOf, hi]

/-- Octets are their nonce, what is masked in them, and their tag. -/
theorem eq_parts {bs : Bytes} (h : nonceLength + tagLength ≤ bs.length) :
    bs = (nonceOf bs).toList ++
      (bs.drop nonceLength).take (bs.length - nonceLength - tagLength) ++
        bs.drop (bs.length - tagLength) := by
  have hlast : bs.drop (bs.length - tagLength) =
      (bs.drop nonceLength).drop (bs.length - nonceLength - tagLength) := by
    rw [List.drop_drop]
    congr 1
    omega
  rw [toList_nonceOf (by omega), hlast, List.append_assoc, List.take_append_drop,
    List.take_append_drop]

/-- **What is opened is the sealed form** of what it is opened to. -/
theorem unsealed_eq_some_iff {bs plain : Bytes} :
    unsealed cipher bs = some plain ↔ bs = sealed cipher (nonceOf bs) plain := by
  constructor
  · intro h
    rw [unsealed] at h
    split at h
    · cases h
    · next hlen =>
      dsimp only at h
      split at h
      · next htag =>
        obtain rfl := Option.some.inj h
        -- masked again, the text is what was found
        rw [sealed, mask_mask, ← htag]
        exact eq_parts (Nat.not_lt.1 hlen)
      · cases h
  · intro h
    rw [h]
    exact unsealed_sealed cipher _ plain

/-- What stands in front of the tag determines it. -/
theorem sealed_congr {nonce nonce' : Nonce} {plain plain' : Bytes}
    (h : (sealed cipher nonce plain).take (nonceLength + plain.length) =
      (sealed cipher nonce' plain').take (nonceLength + plain'.length)) :
    sealed cipher nonce plain = sealed cipher nonce' plain' := by
  have hfront (n : Nonce) (p : Bytes) : (sealed cipher n p).take (nonceLength + p.length) =
      n.toList ++ mask cipher n 2 p := by
    rw [sealed]
    exact List.take_left' (by simp [length_mask, nonceLength])
  rw [hfront, hfront] at h
  obtain ⟨hnonce, hmask⟩ := List.append_inj h (by simp)
  obtain rfl := Vector.toList_inj.1 hnonce
  rw [sealed, sealed, hmask]

end Gcm

/-! ## The sealer of a key -/

namespace Sealer

variable {key : Aes.Key} {bs plain : Bytes}

theorem ofKey_encrypt (nonce : Nonce) (h : plain.length ≤ lengthLimit) :
    (ofKey key).encrypt nonce plain = .ok (Gcm.sealed (Aes.encrypt (.ofKey key)) nonce plain) := by
  simp only [ofKey]
  rw [if_neg (Nat.not_lt.2 h)]

/-- **Sealed forms are opened, and nothing else**. -/
theorem ofKey_decrypt_eq_ok_iff :
    (ofKey key).decrypt bs = .ok plain ↔
      plain.length ≤ lengthLimit ∧
        bs = Gcm.sealed (Aes.encrypt (.ofKey key)) (Gcm.nonceOf bs) plain := by
  rw [← Gcm.unsealed_eq_some_iff]
  constructor
  · intro h
    simp only [ofKey] at h
    split at h
    · cases h
    · next hlimit =>
      split at h
      · next found hfound =>
        obtain rfl := Except.ok.inj h
        have hlen := Gcm.length_sealed (Aes.encrypt (.ofKey key)) (Gcm.nonceOf bs) found
        rw [← (Gcm.unsealed_eq_some_iff _).1 hfound] at hlen
        exact ⟨by omega, hfound⟩
      · cases h
  · rintro ⟨hlimit, h⟩
    have hlen := Gcm.length_sealed (Aes.encrypt (.ofKey key)) (Gcm.nonceOf bs) plain
    rw [← (Gcm.unsealed_eq_some_iff _).1 h] at hlen
    simp only [ofKey, h]
    rw [if_neg (by omega)]

/-- There is one way of not being opened. -/
theorem ofKey_decrypt_of_forall_ne (h : ∀ plain, (ofKey key).decrypt bs ≠ .ok plain) :
    (ofKey key).decrypt bs = .error .authentication := by
  simp only [ofKey] at h ⊢
  split
  · rfl
  · next hlimit =>
    rw [if_neg hlimit] at h
    split
    · next plain hplain =>
      rw [hplain] at h
      exact absurd rfl (h plain)
    · rfl

/-- **Opening accepts exactly what sealing produces**, for every key. A text
that is not too long has a sealed form under every nonce, twenty-eight octets
longer than itself, which is opened to it. Octets are opened to a text if and
only if they are its sealed form under the nonce that they begin with; all
others are refused alike, such as those that are too short, and those that
differ from a sealed form in nothing but the tag. -/
theorem opens_exactly_sealed (key : Aes.Key) :
    let s := ofKey key
    let form := Gcm.sealed (Aes.encrypt (.ofKey key))
    (∀ nonce plain, plain.length ≤ lengthLimit →
      s.encrypt nonce plain = .ok (form nonce plain) ∧
        (form nonce plain).length = 12 + plain.length + 16 ∧
        s.decrypt (form nonce plain) = .ok plain) ∧
    (∀ bs plain, s.decrypt bs = .ok plain ↔ plain.length ≤ lengthLimit ∧
      ∃ nonce : Nonce, nonce.toList = bs.take 12 ∧ bs = form nonce plain) ∧
    (∀ bs, (∀ nonce plain, plain.length ≤ lengthLimit → bs ≠ form nonce plain) →
      s.decrypt bs = .error .authentication) ∧
    (∀ bs, bs.length < 28 → s.decrypt bs = .error .authentication) ∧
    ∀ nonce plain bs, bs.length = (form nonce plain).length →
      bs.take (12 + plain.length) = (form nonce plain).take (12 + plain.length) →
      bs ≠ form nonce plain → s.decrypt bs = .error .authentication := by
  intro s form
  have hlen (nonce : Nonce) (plain : Bytes) :
      (form nonce plain).length = 12 + plain.length + 16 := Gcm.length_sealed _ nonce plain
  have hopen {bs plain : Bytes} (h : s.decrypt bs = .ok plain) :
      plain.length ≤ lengthLimit ∧ bs = form (Gcm.nonceOf bs) plain := ofKey_decrypt_eq_ok_iff.1 h
  refine ⟨fun nonce plain hplain => ?_, fun bs plain => ⟨fun h => ?_, ?_⟩, fun bs hbs => ?_,
    fun bs hbs => ?_, fun nonce plain bs hbs hfront hne => ?_⟩
  · have henc : s.encrypt nonce plain = .ok (form nonce plain) := ofKey_encrypt nonce hplain
    exact ⟨henc, hlen nonce plain, ofKey_opens key nonce plain _ henc⟩
  · obtain ⟨hplain, hbs⟩ := hopen h
    have hlength := hlen (Gcm.nonceOf bs) plain
    rw [← hbs] at hlength
    exact ⟨hplain, _, Gcm.toList_nonceOf (by simp only [Gcm.nonceLength]; omega), hbs⟩
  · rintro ⟨hplain, nonce, -, rfl⟩
    exact ofKey_opens key nonce plain _ (ofKey_encrypt nonce hplain)
  · exact ofKey_decrypt_of_forall_ne fun plain h => hbs _ plain (hopen h).1 (hopen h).2
  · refine ofKey_decrypt_of_forall_ne fun plain h => ?_
    have hlength := hlen (Gcm.nonceOf bs) plain
    rw [← (hopen h).2] at hlength
    omega
  · refine ofKey_decrypt_of_forall_ne fun plain' h => hne ?_
    obtain ⟨-, hform⟩ := hopen h
    -- it is as long as the sealed form, so what is masked in it ends where it does there
    have hsame : plain'.length = plain.length := by
      have hlength := hlen (Gcm.nonceOf bs) plain'
      rw [← hform, hbs, hlen] at hlength
      omega
    rw [hform]
    refine Gcm.sealed_congr _ ?_
    change (form _ plain').take (12 + plain'.length) = (form nonce plain).take (12 + plain.length)
    rw [← hform, hsame, hfront]

end Sealer

end Provision.Cipher

/-! ## A rehearsal -/

namespace Provision.Rehearsal

open Cipher

/-- Seventeen octets take two blocks of the key stream, the second for one
octet only. They are sealed and opened, and one octet less is not opened. -/
theorem opens_exactly_sealed_short_block :
    let s := Sealer.ofKey (Vector.replicate 32 7)
    let plain : Bytes := List.replicate 17 1
    plain.length ≤ Sealer.lengthLimit ∧
      ∃ bs, s.encrypt (Vector.replicate 12 5) plain = .ok bs ∧ bs.length = 45 ∧
        s.decrypt bs = .ok plain ∧ s.decrypt (bs.take 27) = .error .authentication := by
  intro s plain
  have hplain : plain.length ≤ Sealer.lengthLimit := by decide
  obtain ⟨hseals, -, -, hshort, -⟩ := Sealer.opens_exactly_sealed (Vector.replicate 32 7)
  obtain ⟨henc, hlen, hdec⟩ := hseals (Vector.replicate 12 5) plain hplain
  exact ⟨hplain, _, henc, hlen, hdec, hshort _ (by rw [List.length_take]; omega)⟩

end Provision.Rehearsal
