import Provision.Cipher.Base64
import Provision.Proofs.Text.Blank
import Provision.Proofs.Text.Utf8
/-!
# Ciphers — one spelling in base 64

Octets are cut into values of six bits (`sextets`), and these are spelled by
symbols with padding behind them (`spell`). What is read are such values that
leave no bits over (`Exact`), and cutting and joining undo each other. So **a
text that is read is the written form of what it stands for**
(`decode_eq_ok_iff`): there is one spelling for all octets, and nothing else
is read.
-/

namespace Provision.Cipher.Base64

variable {b : UInt8} {n start i k : Nat} {ns : List Nat} {bs out : Bytes} {t t' : Tail}

/-! ## Symbols -/

theorem value?_symbol (h : n < 64) : value? (symbol n) = some n := by
  have hall : ∀ i : Fin 64, value? (symbol i.val) = some i.val := by decide
  exact hall ⟨n, h⟩

theorem symbol_of_value? (h : value? b = some n) : n < 64 ∧ b = symbol n := by
  have hall : ∀ i : Fin 256, ∀ n ∈ value? (UInt8.ofFin i), n < 64 ∧ UInt8.ofFin i = symbol n := by
    decide +kernel
  exact hall b.toFin n h

/-- **A symbol stands for one value**, and a value has one symbol. -/
theorem value?_eq_some_iff : value? b = some n ↔ n < 64 ∧ b = symbol n :=
  ⟨symbol_of_value?, fun ⟨hn, hb⟩ => hb ▸ value?_symbol hn⟩

/-- What fills up is no symbol. -/
theorem symbol_ne_pad (h : n < 64) : symbol n ≠ pad := by
  intro heq
  have hpad := value?_symbol h
  rw [heq] at hpad
  cases hpad

/-! ## Six bits at a time -/

/-- The values that octets are cut into; the bits that are missing from the
last one are zero. -/
def sextets : Bytes → List Nat
  | a :: b :: c :: rest =>
    let n := a.toNat * 65536 + b.toNat * 256 + c.toNat
    n / 262144 :: n / 4096 % 64 :: n / 64 % 64 :: n % 64 :: sextets rest
  | [a, b] =>
    let n := a.toNat * 256 + b.toNat
    [n / 1024, n / 16 % 64, n % 16 * 4]
  | [a] => [a.toNat / 4, a.toNat % 4 * 16]
  | [] => []

/-- How many octets fill up `n` symbols to a multiple of four. -/
def filling (n : Nat) : Nat := (4 - n % 4) % 4

/-- Values spelled out, and filled up. -/
def spell (ns : List Nat) : Bytes := ns.map symbol ++ List.replicate (filling ns.length) pad

/-- **Values that octets can be cut into**: a last group of them has at least
two, and no bits that stand for nothing. -/
inductive Exact : List Nat → Prop
  | nil : Exact []
  | pair {a b : Nat} (ha : a < 64) (hb : b < 64) (hspare : b % 16 = 0) : Exact [a, b]
  | triple {a b c : Nat} (ha : a < 64) (hb : b < 64) (hc : c < 64) (hspare : c % 4 = 0) :
    Exact [a, b, c]
  | quad {a b c d : Nat} {rest : List Nat} (ha : a < 64) (hb : b < 64) (hc : c < 64) (hd : d < 64)
    (hrest : Exact rest) : Exact (a :: b :: c :: d :: rest)

/-- Octets are written by spelling the values that they are cut into. -/
theorem encode_eq (bs : Bytes) : encode bs = spell (sextets bs) := by
  induction bs using sextets.induct with
  | case1 a b c rest ih =>
    have hfill : filling ((sextets rest).length + 1 + 1 + 1 + 1) = filling (sextets rest).length := by
      rw [filling, filling]
      omega
    rw [encode, sextets, ih]
    simp only [spell, List.map_cons, List.length_cons, List.cons_append, hfill]
  | case2 a b => rfl
  | case3 a => rfl
  | case4 => rfl

theorem exact_sextets (bs : Bytes) : Exact (sextets bs) := by
  induction bs using sextets.induct with
  | case1 a b c rest ih =>
    have ha := a.toNat_lt
    have hb := b.toNat_lt
    have hc := c.toNat_lt
    rw [sextets]
    exact .quad (by omega) (by omega) (by omega) (by omega) ih
  | case2 a b =>
    have ha := a.toNat_lt
    have hb := b.toNat_lt
    rw [sextets]
    exact .triple (by omega) (by omega) (by omega) (by omega)
  | case3 a =>
    have ha := a.toNat_lt
    rw [sextets]
    exact .pair (by omega) (by omega) (by omega)
  | case4 => exact .nil

/-- An octet is the rest of a number that leaves it over. -/
theorem toUInt8_eq (h : n % 256 = b.toNat) : n.toUInt8 = b := by
  rw [← UInt8.toNat_inj, Nat.toUInt8, UInt8.toNat_ofNat', h]

theorem toNat_toUInt8 (n : Nat) : n.toUInt8.toNat = n % 256 := UInt8.toNat_ofNat'

/-- **Joining undoes cutting.** -/
theorem octets_sextets (bs : Bytes) : octets (sextets bs) = bs := by
  induction bs using sextets.induct with
  | case1 a b c rest ih =>
    have ha := a.toNat_lt
    have hb := b.toNat_lt
    have hc := c.toNat_lt
    rw [sextets, octets, ih, toUInt8_eq (b := a) (by omega),
      toUInt8_eq (b := b) (by omega), toUInt8_eq (b := c) (by omega)]
  | case2 a b =>
    have ha := a.toNat_lt
    have hb := b.toNat_lt
    rw [sextets, octets, toUInt8_eq (b := a) (by omega), toUInt8_eq (b := b) (by omega)]
  | case3 a =>
    have ha := a.toNat_lt
    rw [sextets, octets, toUInt8_eq (b := a) (by omega)]
  | case4 => rfl

/-- **Cutting undoes joining**, if no bits are left over. -/
theorem sextets_octets (h : Exact ns) : sextets (octets ns) = ns := by
  induction h with
  | nil => rfl
  | pair ha hb hspare =>
    simp only [octets, sextets, toNat_toUInt8, List.cons.injEq, and_true]
    omega
  | triple ha hb hc hspare =>
    simp only [octets, sextets, toNat_toUInt8, List.cons.injEq, and_true]
    omega
  | quad ha hb hc hd hrest ih =>
    simp only [octets, sextets, toNat_toUInt8, List.cons.injEq, ih, and_true]
    omega

/-! ## Whole groups and the last one -/

/-- Values in whole groups of four. -/
inductive Whole : List Nat → Prop
  | nil : Whole []
  | quad {a b c d : Nat} {rest : List Nat} (hrest : Whole rest) : Whole (a :: b :: c :: d :: rest)

theorem whole_of_length : ∀ {ns : List Nat}, ns.length % 4 = 0 → Whole ns
  | [], _ => .nil
  | [_], h | [_, _], h | [_, _, _], h => by simp at h
  | _ :: _ :: _ :: _ :: _, h => .quad (whole_of_length (by simpa [Nat.add_assoc] using h))

/-- Whole groups are joined by themselves. -/
theorem Whole.octets_append (h : Whole ns) (last : List Nat) :
    octets (ns ++ last) = octets ns ++ octets last := by
  induction h with
  | nil => rfl
  | quad _ ih => simp only [List.cons_append, octets, ih]

theorem Whole.length_mod (h : Whole ns) : ns.length % 4 = 0 := by
  induction h with
  | nil => rfl
  | quad _ ih =>
    simp only [List.length_cons]
    omega

/-- What they are spelled by needs nothing to fill up. -/
theorem Whole.spell_append (h : Whole ns) (last : List Nat) :
    spell (ns ++ last) = ns.map symbol ++ spell last := by
  have hfill : filling (ns ++ last).length = filling last.length := by
    have hmod := h.length_mod
    rw [filling, filling, List.length_append]
    omega
  rw [spell, spell, hfill, List.map_append, List.append_assoc]

/-- In front of exact values they leave them exact. -/
theorem Whole.exact_append (h : Whole ns) (hlt : ∀ n ∈ ns, n < 64) {last : List Nat}
    (hlast : Exact last) : Exact (ns ++ last) := by
  induction h with
  | nil => exact hlast
  | quad _ ih =>
    simp only [List.mem_cons, forall_eq_or_imp] at hlt
    obtain ⟨ha, hb, hc, hd, hrest⟩ := hlt
    exact .quad ha hb hc hd (ih hrest)

namespace Exact

theorem lt (h : Exact ns) : ∀ n ∈ ns, n < 64 := by
  induction h with
  | nil => simp
  | pair | triple => simp [*]
  | quad _ _ _ _ _ ih => simpa [*] using ih

/-- A last group is cut off. -/
theorem exists_last (h : Exact ns) (hne : ns ≠ []) :
    ∃ body last, ns = body ++ last ∧ Whole body ∧ Exact last ∧ 2 ≤ last.length ∧
      last.length ≤ 4 := by
  induction h with
  | nil => exact absurd rfl hne
  | pair ha hb hspare => exact ⟨[], _, rfl, .nil, .pair ha hb hspare, by simp⟩
  | triple ha hb hc hspare => exact ⟨[], _, rfl, .nil, .triple ha hb hc hspare, by simp⟩
  | @quad a b c d rest ha hb hc hd hrest ih =>
    by_cases hnil : rest = []
    · subst hnil
      exact ⟨[], _, rfl, .nil, .quad ha hb hc hd .nil, by simp⟩
    · obtain ⟨body, last, rfl, hbody, hlast⟩ := ih hnil
      exact ⟨a :: b :: c :: d :: body, last, rfl, .quad hbody, hlast⟩

theorem hasSpareBits_eq (h : Exact ns) : hasSpareBits ns = false := by
  cases h <;> simp_all [hasSpareBits]

end Exact

/-- A last group is exact if it has two values, and no spare bits. -/
theorem exact_of_hasSpareBits (hlt : ∀ n ∈ ns, n < 64) (htwo : 2 ≤ ns.length)
    (hfour : ns.length ≤ 4) (hspare : hasSpareBits ns = false) : Exact ns := by
  match ns, htwo, hfour with
  | [a, b], _, _ =>
    simp only [hasSpareBits, decide_eq_false_iff_not, Decidable.not_not] at hspare
    simp only [List.mem_cons, forall_eq_or_imp] at hlt
    exact .pair hlt.1 hlt.2.1 hspare
  | [a, b, c], _, _ =>
    simp only [hasSpareBits, decide_eq_false_iff_not, Decidable.not_not] at hspare
    simp only [List.mem_cons, forall_eq_or_imp] at hlt
    exact .triple hlt.1 hlt.2.1 hlt.2.2.1 hspare
  | [a, b, c, d], _, _ =>
    simp only [List.mem_cons, forall_eq_or_imp] at hlt
    exact .quad hlt.1 hlt.2.1 hlt.2.2.1 hlt.2.2.2.1 .nil

/-! ## Reading -/

/-- **Symbols are read as their values**, and nothing else is. -/
theorem values_eq_ok_iff :
    values start bs = .ok ns ↔ (∀ n ∈ ns, n < 64) ∧ bs = ns.map symbol := by
  induction bs generalizing start ns with
  | nil =>
    rw [values]
    constructor
    · rintro ⟨⟩
      simp
    · rintro ⟨-, h⟩
      rw [List.map_eq_nil_iff.1 h.symm]
  | cons b bs ih =>
    rw [values]
    constructor
    · intro h
      cases hb : value? b with
      | none =>
        rw [hb] at h
        cases h
      | some n =>
        rw [hb] at h
        obtain ⟨rest, hrest, rfl⟩ := ok_of_map h
        obtain ⟨hn, hsymbol⟩ := value?_eq_some_iff.1 hb
        obtain ⟨hlt, rfl⟩ := ih.1 hrest
        exact ⟨List.forall_mem_cons.2 ⟨hn, hlt⟩, hsymbol ▸ rfl⟩
    · rintro ⟨hlt, h⟩
      obtain ⟨n, rest, rfl, rfl, hrest⟩ := List.map_eq_cons_iff.1 h.symm
      obtain ⟨hn, hlt⟩ := List.forall_mem_cons.1 hlt
      rw [value?_symbol hn, ih.2 ⟨hlt, hrest.symm⟩]
      rfl

/-- What a last group is read as: values, then what fills up. -/
structure Tail.Reads (t t' : Tail) (ns : List Nat) (k : Nat) : Prop where
  values : t'.values = t.values ++ ns
  padding : t'.padding = t.padding + k

/-- **What is read to the end** are symbols and then only what fills up. -/
theorem reads_of_readTail (h : readTail start i t bs = .ok t') :
    ∃ ns k, bs = ns.map symbol ++ List.replicate k pad ∧ (∀ n ∈ ns, n < 64) ∧
      (0 < t.padding → ns = []) ∧ t.Reads t' ns k := by
  induction bs generalizing i t with
  | nil =>
    obtain rfl : t = t' := Except.ok.inj h
    exact ⟨[], 0, rfl, by simp, fun _ => rfl, by simp, rfl⟩
  | cons b bs ih =>
    rw [readTail] at h
    split at h
    · next hpad =>
      split at h
      · cases h
      obtain ⟨ns, k, rfl, -, hnil, hvalues, hpadding⟩ := ih h
      obtain rfl := hnil (Nat.succ_pos _)
      refine ⟨[], k + 1, by rw [hpad]; rfl, by simp, fun _ => rfl, hvalues, ?_⟩
      rw [hpadding, Nat.add_assoc, Nat.add_comm 1]
    next hsymbol =>
    split at h
    · cases h
    next hnone =>
    split at h
    · cases h
    · next n hn =>
      obtain ⟨hlt, rfl⟩ := value?_eq_some_iff.1 hn
      obtain ⟨ns, k, rfl, hns, -, hvalues, hpadding⟩ := ih h
      refine ⟨n :: ns, k, rfl, List.forall_mem_cons.2 ⟨hlt, hns⟩, fun h => absurd h hnone, ?_,
        hpadding⟩
      rw [hvalues, List.append_assoc]
      rfl

/-- What fills up is read where it may stand. -/
theorem readTail_pads (k : Nat) (hi : 2 ≤ i) :
    ∃ t', readTail start i t (List.replicate k pad) = .ok t' ∧ t.Reads t' [] k := by
  induction k generalizing i t with
  | zero => exact ⟨t, rfl, (List.append_nil _).symm, rfl⟩
  | succ k ih =>
    rw [List.replicate_succ, readTail, if_pos rfl, if_neg (Nat.not_lt.2 hi)]
    obtain ⟨t', h, hvalues, hpadding⟩ := ih (Nat.le_succ_of_le hi)
    exact ⟨t', h, hvalues, by rw [hpadding, Nat.add_assoc, Nat.add_comm 1]⟩

/-- **Symbols and what fills up behind them are read.** -/
theorem readTail_spelled (hlt : ∀ n ∈ ns, n < 64) (hnone : t.padding = 0)
    (hk : k = 0 ∨ 2 ≤ i + ns.length) :
    ∃ t', readTail start i t (ns.map symbol ++ List.replicate k pad) = .ok t' ∧
      t.Reads t' ns k := by
  induction ns generalizing i t with
  | nil =>
    obtain rfl | hi := hk
    · exact ⟨t, rfl, (List.append_nil _).symm, rfl⟩
    · exact readTail_pads k hi
  | cons n ns ih =>
    obtain ⟨hn, hns⟩ := List.forall_mem_cons.1 hlt
    rw [List.map_cons, List.cons_append, readTail, if_neg (symbol_ne_pad hn),
      if_neg (by omega), value?_symbol hn]
    obtain ⟨t', h, hvalues, hpadding⟩ := ih (i := i + 1)
      (t := { t with values := t.values ++ [n], last := symbol n }) hns hnone
      (by rw [List.length_cons] at hk; omega)
    exact ⟨t', h, by rw [hvalues, List.append_assoc]; rfl, hpadding⟩

/-! ## Texts -/

/-- The last group begins behind whole ones. -/
theorem bodyLength_mod (h : 0 < n) :
    bodyLength n % 4 = 0 ∧ bodyLength n < n ∧ n ≤ bodyLength n + 4 := by
  rw [bodyLength]
  split <;> omega

/-- What is asked of a text that is read: symbols in whole groups, and a last
group of at least two, filled up and without spare bits. -/
theorem groups_of_decode (hbs : bs ≠ []) (h : decode bs = .ok out) :
    ∃ body tail, values 0 (bs.take (bodyLength bs.length)) = .ok body ∧
      readTail (bodyLength bs.length) 0 ⟨[], 0, 0, 0⟩ (bs.drop (bodyLength bs.length)) = .ok tail ∧
      2 ≤ tail.values.length ∧ (tail.padding + tail.values.length) % 4 = 0 ∧
      hasSpareBits tail.values = false ∧ out = octets body ++ octets tail.values := by
  obtain ⟨b, hb⟩ : ∃ b, bs.getLast? = some b := ⟨_, List.getLast?_eq_some_getLast hbs⟩
  rw [decode, hb] at h
  dsimp only at h
  split at h
  · cases h
  obtain ⟨body, hbody, h⟩ := ok_of_bind h
  obtain ⟨tail, htail, h⟩ := ok_of_bind h
  split at h
  · cases h
  next htwo =>
  split at h
  · cases h
  next hfilled =>
  split at h
  · cases h
  next hspare =>
  simp only [hbs, ne_eq, not_false_eq_true, decide_true, Bool.true_and, decide_eq_true_eq,
    Nat.not_lt] at htwo
  exact ⟨body, tail, hbody, htail, htwo, Decidable.not_not.1 hfilled, Bool.eq_false_iff.2 hspare,
    (Except.ok.inj h).symm⟩

/-- **What is read are exact values**, spelled out. -/
theorem exact_of_decode (h : decode bs = .ok out) :
    ∃ ns, Exact ns ∧ bs = spell ns ∧ out = octets ns := by
  by_cases hbs : bs = []
  · subst hbs
    obtain rfl : [] = out := Except.ok.inj h
    exact ⟨[], .nil, rfl, rfl⟩
  obtain ⟨body, tail, hbody, htail, htwo, hfilled, hspare, rfl⟩ := groups_of_decode hbs h
  obtain ⟨hlt, htake⟩ := values_eq_ok_iff.1 hbody
  obtain ⟨last, k, hdrop, hltlast, -, hvalues, hpadding⟩ := reads_of_readTail htail
  rw [List.nil_append] at hvalues
  rw [Nat.zero_add] at hpadding
  rw [hvalues] at htwo hfilled hspare ⊢
  rw [hpadding] at hfilled
  have hbodylen := congrArg List.length htake
  have hlastlen := congrArg List.length hdrop
  simp only [List.length_take, List.length_drop, List.length_map, List.length_append,
    List.length_replicate] at hbodylen hlastlen
  -- once it is filled up, the last group is a whole one
  obtain ⟨hmod, hbefore, hfour⟩ := bodyLength_mod (List.length_pos_iff.2 hbs)
  have hwhole : Whole body := whole_of_length (by omega)
  have hfill : filling last.length = k := by
    rw [filling]
    omega
  have hlast : Exact last := exact_of_hasSpareBits hltlast htwo (by omega) hspare
  refine ⟨body ++ last, hwhole.exact_append hlt hlast, ?_, (hwhole.octets_append last).symm⟩
  rw [hwhole.spell_append, spell, hfill, ← htake, ← hdrop, List.take_append_drop]

/-- A last group is read behind whole ones. -/
theorem decode_group {body last : List Nat} (hbody : Whole body) (hlt : ∀ n ∈ body, n < 64)
    (hlast : Exact last) (htwo : 2 ≤ last.length) (hfour : last.length ≤ 4) :
    decode (body.map symbol ++ spell last) = .ok (octets body ++ octets last) := by
  have hmod := hbody.length_mod
  have hfill : filling last.length = 4 - last.length := by
    rw [filling]
    omega
  have hbodylen : (body.map symbol).length = body.length := List.length_map _
  have hlen : (body.map symbol ++ spell last).length = body.length + 4 := by
    rw [List.length_append, hbodylen, spell, List.length_append, List.length_map,
      List.length_replicate]
    omega
  have hstart : bodyLength (body.length + 4) = body.length := by
    rw [bodyLength, if_pos (by omega), Nat.add_sub_cancel]
  have hne : body.map symbol ++ spell last ≠ [] := by
    intro hnil
    rw [hnil, List.length_nil] at hlen
    omega
  obtain ⟨b, hb⟩ : ∃ b, (body.map symbol ++ spell last).getLast? = some b :=
    ⟨_, List.getLast?_eq_some_getLast hne⟩
  have hvalues : values 0 (body.map symbol) = .ok body := values_eq_ok_iff.2 ⟨hlt, rfl⟩
  obtain ⟨t, ht, hread, hpadding⟩ : ∃ t, readTail body.length 0 ⟨[], 0, 0, 0⟩ (spell last) = .ok t ∧
      Tail.Reads ⟨[], 0, 0, 0⟩ t last (filling last.length) :=
    readTail_spelled hlast.lt rfl (by omega)
  rw [List.nil_append] at hread
  rw [Nat.zero_add, hfill] at hpadding
  rw [decode, hb, hlen]
  simp only [hstart, List.take_left' hbodylen, List.drop_left' hbodylen, hvalues, ht, hread,
    hpadding, hlast.hasSpareBits_eq, bind, Except.bind]
  rw [if_neg (by simp only [Bool.and_eq_true, decide_eq_true_eq]; omega),
    if_neg (by simp only [Bool.and_eq_true, decide_eq_true_eq]; omega), if_neg (by omega),
    if_neg Bool.false_ne_true]
  rfl

/-- **Exact values are read** from what they are spelled by. -/
theorem decode_spell (h : Exact ns) : decode (spell ns) = .ok (octets ns) := by
  by_cases hns : ns = []
  · subst hns
    rfl
  obtain ⟨body, last, rfl, hbody, hlast, htwo, hfour⟩ := h.exists_last hns
  have hlt : ∀ n ∈ body, n < 64 := fun n hn => h.lt n (List.mem_append_left _ hn)
  rw [hbody.spell_append, hbody.octets_append, decode_group hbody hlt hlast htwo hfour]

/-- **A text that is read is the written form of what it stands for**, and
every written form is read. -/
theorem decode_eq_ok_iff : decode bs = .ok out ↔ bs = encode out := by
  constructor
  · intro h
    obtain ⟨ns, hns, rfl, rfl⟩ := exact_of_decode h
    rw [encode_eq, sextets_octets hns]
  · rintro rfl
    rw [encode_eq, decode_spell (exact_sextets out), octets_sextets]

/-! ## Written forms as texts -/

theorem mem_encode (h : b ∈ encode bs) : (∃ n < 64, b = symbol n) ∨ b = pad := by
  rw [encode_eq, spell, List.mem_append] at h
  obtain h | h := h
  · obtain ⟨n, hn, rfl⟩ := List.mem_map.1 h
    exact Or.inl ⟨n, (exact_sextets bs).lt n hn, rfl⟩
  · exact Or.inr (List.eq_of_mem_replicate h)

theorem width_of_mem_encode (h : b ∈ encode bs) : Utf8.width b = 1 := by
  have hall : ∀ i : Fin 64, Utf8.width (symbol i.val) = 1 := by decide
  obtain ⟨n, hn, rfl⟩ | rfl := mem_encode h
  · exact hall ⟨n, hn⟩
  · decide

/-- The octets of a written text are the written form. -/
theorem encode_encodeText (bs : Bytes) : Utf8.encode (encodeText bs) = encode bs := by
  have hone : ∀ b ∈ encode bs, String.utf8EncodeChar (Char.ofNat b.toNat) = [b] :=
    fun b hb => Utf8.encode_one (width_of_mem_encode hb)
  rw [Utf8.encode, encodeText, String.toList_ofList, List.flatMap_map]
  generalize encode bs = written at hone
  induction written with
  | nil => rfl
  | cons b rest ih =>
    obtain ⟨hb, hrest⟩ := List.forall_mem_cons.1 hone
    rw [List.flatMap_cons, hb, ih hrest]
    rfl

/-- There is no white space in it. -/
theorem not_isBlank_of_mem {c : Char} (h : c ∈ (encodeText bs).toList) :
    Blank.isBlank c = false := by
  have hall : ∀ i : Fin 64, Blank.isBlank (Char.ofNat (symbol i.val).toNat) = false := by decide
  rw [encodeText, String.toList_ofList] at h
  obtain ⟨b, hb, rfl⟩ := List.mem_map.1 h
  obtain ⟨n, hn, rfl⟩ | rfl := mem_encode hb
  · exact hall ⟨n, hn⟩
  · decide

/-- **A text is read as octets** if and only if it is their written form. -/
theorem decode_text_eq_ok_iff {text : String} :
    decode (Utf8.encode text) = .ok out ↔ text = encodeText out := by
  rw [decode_eq_ok_iff, ← encode_encodeText]
  constructor
  · intro h
    have hread := Utf8.decode_encode text
    rw [h, Utf8.decode_encode] at hread
    exact (Except.ok.inj hread).symm
  · exact congrArg _

end Provision.Cipher.Base64
