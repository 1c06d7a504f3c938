import Provision.Cipher.Sealer
/-!
# Ciphers — what is sealed can be opened

The key stream is added twice, once on each side, and **adding it twice
gives the text back**. The tag that is computed on opening is the one that
was put there, since it depends on the nonce and the masked text alone, and
both are found where they were put. Nothing is said of the cipher.
-/

namespace Provision.Cipher

/-- **What a sealer seals it opens**, if it seals it at all. -/
def Sealer.Opens (s : Sealer) : Prop :=
  ∀ nonce plain bs, s.encrypt nonce plain = .ok bs → s.decrypt bs = .ok plain

namespace Gcm

variable (cipher : Block → Block)

/-! ## The mask -/

theorem zipWith_xor_cancel (xs ks : Bytes) (h : xs.length ≤ ks.length) :
    (xs.zipWith (· ^^^ ·) ks).zipWith (· ^^^ ·) ks = xs := by
  induction xs generalizing ks with
  | nil => rfl
  | cons x xs ih =>
    cases ks with
    | nil => simp at h
    | cons k ks =>
      have hrest := ih ks (by simpa using h)
      rw [List.zipWith_cons_cons, List.zipWith_cons_cons, hrest, UInt8.xor_assoc, UInt8.xor_self,
        UInt8.xor_zero]

theorem mask_nil (nonce : Nonce) (n : Nat) : mask cipher nonce n [] = [] := by
  rw [mask, if_pos rfl]

/-- The mask is added block by block. -/
theorem mask_append (nonce : Nonce) (n : Nat) (block bs : Bytes) (hblock : block ≠ [])
    (h : block.length = 16 ∨ block.length < 16 ∧ bs = []) :
    mask cipher nonce n (block ++ bs) =
      block.zipWith (· ^^^ ·) (cipher (counterBlock nonce n)).toList ++
        mask cipher nonce (n + 1) bs := by
  have hne : block ++ bs ≠ [] := by simp [hblock]
  rw [mask, if_neg hne]
  rcases h with h | ⟨h, rfl⟩
  · rw [List.take_left' h, List.drop_left' h]
  · rw [List.append_nil, List.take_of_length_le (by omega), List.drop_eq_nil_of_le (by omega)]

theorem length_mask (nonce : Nonce) (n : Nat) (bs : Bytes) :
    (mask cipher nonce n bs).length = bs.length := by
  induction n, bs using mask.induct with
  | case1 n => rw [mask_nil]
  | case2 n bs hbs ih =>
    rw [mask, if_neg hbs, List.length_append, ih]
    simp only [List.length_zipWith, List.length_take, List.length_drop, Vector.length_toList]
    omega

/-- **Masking twice changes nothing.** -/
theorem mask_mask (nonce : Nonce) (n : Nat) (bs : Bytes) :
    mask cipher nonce n (mask cipher nonce n bs) = bs := by
  induction n, bs using mask.induct with
  | case1 n => rw [mask_nil, mask_nil]
  | case2 n bs hbs ih =>
    have hpos : 0 < bs.length := List.length_pos_iff.2 hbs
    have hlen : ((bs.take 16).zipWith (· ^^^ ·) (cipher (counterBlock nonce n)).toList).length =
        min 16 bs.length := by
      simp only [List.length_zipWith, List.length_take, Vector.length_toList]
      omega
    -- the first block cancels and the rest is masked under the next counter; only the last block
    -- may be short
    rw [mask.eq_1 cipher nonce n bs, if_neg hbs, mask_append, ih, zipWith_xor_cancel,
      List.take_append_drop]
    · simp only [List.length_take, Vector.length_toList]
      omega
    · exact fun he => by rw [he, List.length_nil] at hlen; omega
    · rw [hlen]
      by_cases h : 16 ≤ bs.length
      · exact Or.inl (by omega)
      · refine Or.inr ⟨by omega, ?_⟩
        rw [← List.length_eq_zero_iff, length_mask, List.length_drop]
        omega

/-! ## Sealed forms -/

theorem nonceOf_append (nonce : Nonce) (bs : Bytes) : nonceOf (nonce.toList ++ bs) = nonce := by
  apply Vector.ext
  intro i hi
  rw [nonceOf, Vector.getElem_ofFn, List.getD_eq_getElem?_getD,
    List.getElem?_append_left (by simpa using hi)]
  simp [hi]

/-- **A sealed form is as long as nonce, text and tag together.** -/
theorem length_sealed (nonce : Nonce) (plain : Bytes) :
    (sealed cipher nonce plain).length = nonceLength + plain.length + tagLength := by
  rw [sealed, List.length_append, List.length_append, length_mask]
  simp [nonceLength, tagLength]

/-- **A sealed form is opened to what was sealed.** -/
theorem unsealed_sealed (nonce : Nonce) (plain : Bytes) :
    unsealed cipher (sealed cipher nonce plain) = some plain := by
  have hlen := length_sealed cipher nonce plain
  rw [unsealed, if_neg (by omega), hlen]
  have hnonce : (nonce.toList : Bytes).length = nonceLength := by simp [nonceLength]
  have hmask := length_mask cipher nonce 2 plain
  -- the three parts are found where they were put
  have htext : ((sealed cipher nonce plain).drop nonceLength).take
      (nonceLength + plain.length + tagLength - nonceLength - tagLength) =
      mask cipher nonce 2 plain := by
    rw [sealed, List.append_assoc, ← hnonce, List.drop_left,
      show nonce.toList.length + plain.length + tagLength - nonce.toList.length - tagLength =
        (mask cipher nonce 2 plain).length by omega, List.take_left]
  have htag : (sealed cipher nonce plain).drop
      (nonceLength + plain.length + tagLength - tagLength) =
      (tag cipher nonce (mask cipher nonce 2 plain)).toList := by
    rw [sealed, show nonceLength + plain.length + tagLength - tagLength =
      (nonce.toList ++ mask cipher nonce 2 plain).length by
        rw [List.length_append, hnonce, hmask]; omega, List.drop_left]
  have hof : nonceOf (sealed cipher nonce plain) = nonce := by
    rw [sealed, List.append_assoc, nonceOf_append]
  simp only [hof, htext, htag, if_true, mask_mask]

/-- A published test vector: a block of zeros under the key and the nonce of
zeros. -/
example : sealed (Aes.encrypt (.ofKey (.replicate 32 0))) (.replicate 12 0) (.replicate 16 0) =
    .replicate 12 0 ++ (Element.toBlock 0xcea7403d4d606b6e074ec5d3baf39d18).toList ++
      (Element.toBlock 0xd0d1c8a799996bf0265b98b5d48ab919).toList := by
  decide +kernel

end Gcm

/-- **The sealer of a key opens what it sealed**, whatever the key. -/
theorem Sealer.ofKey_opens (key : Aes.Key) : (Sealer.ofKey key).Opens := by
  intro nonce plain bs h
  simp only [Sealer.ofKey] at h ⊢
  split at h
  · cases h
  · next hlimit =>
    obtain rfl := Except.ok.inj h
    have hlen := Gcm.length_sealed (Aes.encrypt (.ofKey key)) nonce plain
    rw [if_neg (by omega), Gcm.unsealed_sealed]

end Provision.Cipher
