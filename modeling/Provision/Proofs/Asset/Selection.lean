import Provision.Proofs.Asset.Lossless
/-!
# Snapshots — several assets at once

Several assets are asked for in two passes over their kinds: first whether all
have entries, then what the entries are decoded into. What comes of it is said
once, by the three ways it can end (`Selection`), and **each request ends in
exactly one of them** (`getMany_selects`). So a name without an entry is
reported even where an entry before it could not be decoded; whoever asks for
one asset after the other is told of that entry first.
-/

namespace Provision.Asset

/-! ## One after the other -/

section mapM

variable {α β ε : Type} {f : α → Except ε β} {xs before after : List α} {ys : List β}
variable {x : α} {y : β} {e : ε}

theorem mapM_cons_of_ok (h : f x = .ok y) : (x :: xs).mapM f = (xs.mapM f).map (y :: ·) := by
  rw [List.mapM_cons, h]
  cases xs.mapM f <;> rfl

theorem mapM_cons_of_error (h : f x = .error e) : (x :: xs).mapM f = .error e := by
  rw [List.mapM_cons, h]
  rfl

/-- Where all goes well, the results come in their order. -/
theorem mapM_of_map_eq (h : xs.map f = ys.map .ok) : xs.mapM f = .ok ys := by
  induction xs generalizing ys with
  | nil =>
    obtain rfl := List.map_eq_nil_iff.1 h.symm
    rfl
  | cons x xs ih =>
    rw [List.map_cons] at h
    obtain ⟨y, rest, rfl, hy, hrest⟩ := List.map_eq_cons_iff.1 h.symm
    rw [mapM_cons_of_ok hy.symm, ih hrest.symm]
    rfl

/-- The first failure is what is reported. -/
theorem mapM_of_first (hbefore : ∀ b ∈ before, ∃ y, f b = .ok y) (hx : f x = .error e) :
    (before ++ x :: after).mapM f = .error e := by
  induction before with
  | nil => exact mapM_cons_of_error hx
  | cons b before ih =>
    obtain ⟨⟨y, hy⟩, hrest⟩ := List.forall_mem_cons.1 hbefore
    rw [List.cons_append, mapM_cons_of_ok hy, ih hrest]
    rfl

/-- **All goes well, or there is a first failure.** -/
theorem map_eq_or_first (f : α → Except ε β) (xs : List α) :
    (∃ ys : List β, xs.map f = ys.map .ok) ∨
      ∃ before x after e, xs = before ++ x :: after ∧ (∀ b ∈ before, ∃ y, f b = .ok y) ∧
        f x = .error e := by
  induction xs with
  | nil => exact Or.inl ⟨[], rfl⟩
  | cons a xs ih =>
    cases ha : f a with
    | error e => exact Or.inr ⟨[], a, xs, e, rfl, by simp, ha⟩
    | ok y =>
      obtain ⟨ys, hys⟩ | ⟨before, x, after, e, rfl, hbefore, hx⟩ := ih
      · exact Or.inl ⟨y :: ys, by rw [List.map_cons, List.map_cons, ha, hys]⟩
      · exact Or.inr ⟨a :: before, x, after, e, rfl,
          List.forall_mem_cons.2 ⟨⟨y, ha⟩, hbefore⟩, hx⟩

end mapM

namespace Snapshot

variable {τ ν : Type} [Kind τ] {s s' : Snapshot} {c : Codec τ ν} {t : τ} {ts : List τ}
variable {text : String} {p : Json.Problem} {v : ν} {r : Except Error (List ν)}

/-! ## One asset -/

theorem get_of_decode (hraw : s.raw (Kind.name t) = some text)
    (hdecode : c.decode t text = .error p) :
    s.get c t = .error (.decode (Kind.name t) p) := by
  rw [get, hraw]
  simp only [hdecode]

/-- An asset has an entry. -/
theorem raw_isSome_of_get (h : s.get c t = .ok v) : (s.raw (Kind.name t)).isSome := by
  rw [get] at h
  cases hraw : s.raw (Kind.name t) with
  | none =>
    rw [hraw] at h
    cases h
  | some text => rfl

/-- An entry that gives no asset could not be decoded. -/
theorem decode_of_get {e : Error} (h : s.get c t = .error e)
    (hsome : (s.raw (Kind.name t)).isSome) :
    ∃ text p, s.raw (Kind.name t) = some text ∧ c.decode t text = .error p ∧
      e = .decode (Kind.name t) p := by
  obtain ⟨text, hraw⟩ := Option.isSome_iff_exists.1 hsome
  rw [get, hraw] at h
  cases hdecode : c.decode t text with
  | ok v =>
    simp only [hdecode] at h
    cases h
  | error p =>
    simp only [hdecode] at h
    exact ⟨text, p, hraw, hdecode, (Except.error.inj h).symm⟩

/-! ## Several -/

/-- **How a request for several assets ends.** -/
inductive Selection (s : Snapshot) (c : Codec τ ν) (ts : List τ) : Except Error (List ν) → Prop
  /-- A name has no entry, and all names before it have one. -/
  | missing (before : List τ) (t : τ) (after : List τ) : ts = before ++ t :: after →
      (∀ u ∈ before, (s.raw (Kind.name u)).isSome) → s.raw (Kind.name t) = none →
      Selection s c ts (.error (.missing (Kind.name t)))
  /-- All names have entries; one entry cannot be decoded, and all before it
  can. -/
  | decode (before : List τ) (t : τ) (after : List τ) (text : String) (p : Json.Problem) :
      (∀ u ∈ ts, (s.raw (Kind.name u)).isSome) → ts = before ++ t :: after →
      (∀ u ∈ before, ∃ v, s.get c u = .ok v) →
      s.raw (Kind.name t) = some text → c.decode t text = .error p →
      Selection s c ts (.error (.decode (Kind.name t) p))
  /-- Each asset is what it is if it is asked for alone. -/
  | values (vs : List ν) : ts.map (s.get c) = vs.map .ok → Selection s c ts (.ok vs)

theorem firstAbsent_eq_some_iff : s.firstAbsent ts = some t ↔ s.raw (Kind.name t) = none ∧
    ∃ before after, ts = before ++ t :: after ∧
      ∀ u ∈ before, (s.raw (Kind.name u)).isSome := by
  simp [firstAbsent, contains, List.find?_eq_some_iff_append]

theorem firstAbsent_eq_none_iff :
    s.firstAbsent ts = none ↔ ∀ u ∈ ts, (s.raw (Kind.name u)).isSome := by
  simp [firstAbsent, contains, Option.isSome_iff_ne_none]

theorem getMany_of_present (c : Codec τ ν) (h : ∀ u ∈ ts, (s.raw (Kind.name u)).isSome) :
    s.getMany c ts = ts.mapM (s.get c) := by
  rw [getMany, firstAbsent_eq_none_iff.2 h]

/-- Only one of the ways is open. -/
theorem Selection.getMany_eq (h : s.Selection c ts r) : s.getMany c ts = r := by
  cases h with
  | missing before t after hts hbefore hnone =>
    rw [getMany, firstAbsent_eq_some_iff.2 ⟨hnone, before, after, hts, hbefore⟩]
  | decode before t after text p hall hts hbefore hraw hdecode =>
    rw [getMany_of_present c hall, hts]
    exact mapM_of_first hbefore (get_of_decode hraw hdecode)
  | values vs hvs =>
    have hall : ∀ u ∈ ts, (s.raw (Kind.name u)).isSome := by
      intro u hu
      have hget : s.get c u ∈ vs.map Except.ok := hvs ▸ List.mem_map_of_mem hu
      obtain ⟨v, -, hv⟩ := List.mem_map.1 hget
      exact raw_isSome_of_get hv.symm
    rw [getMany_of_present c hall]
    exact mapM_of_map_eq hvs

/-- And one always is. -/
theorem exists_selection (s : Snapshot) (c : Codec τ ν) (ts : List τ) :
    ∃ r, s.Selection c ts r := by
  cases habsent : s.firstAbsent ts with
  | some t =>
    obtain ⟨hnone, before, after, hts, hbefore⟩ := firstAbsent_eq_some_iff.1 habsent
    exact ⟨_, .missing before t after hts hbefore hnone⟩
  | none =>
    have hall := firstAbsent_eq_none_iff.1 habsent
    obtain ⟨vs, hvs⟩ | ⟨before, t, after, e, hts, hbefore, he⟩ := map_eq_or_first (s.get c) ts
    · exact ⟨_, .values vs hvs⟩
    · have hsome : (s.raw (Kind.name t)).isSome := hall t (by simp [hts])
      obtain ⟨text, p, hraw, hdecode, -⟩ := decode_of_get he hsome
      exact ⟨_, .decode before t after text p hall hts hbefore hraw hdecode⟩

theorem getMany_eq_iff : s.getMany c ts = r ↔ s.Selection c ts r := by
  refine ⟨fun h => ?_, Selection.getMany_eq⟩
  obtain ⟨r', hr'⟩ := exists_selection s c ts
  obtain rfl : r' = r := hr'.getMany_eq.symm.trans h
  exact hr'

/-- What the names asked for hold is all that counts. -/
theorem Selection.congr (hraw : ∀ t ∈ ts, s'.raw (Kind.name t) = s.raw (Kind.name t))
    (h : s.Selection c ts r) : s'.Selection c ts r := by
  have hget : ∀ t ∈ ts, s'.get c t = s.get c t := fun t ht => get_congr (hraw t ht)
  cases h with
  | missing before t after hts hbefore hnone =>
    have hmem : ∀ u ∈ before, u ∈ ts := fun u hu => by simp [hts, hu]
    refine .missing before t after hts (fun u hu => ?_) ?_
    · rw [hraw u (hmem u hu)]
      exact hbefore u hu
    · rw [hraw t (by simp [hts]), hnone]
  | decode before t after text p hall hts hbefore htext hdecode =>
    have hmem : ∀ u ∈ before, u ∈ ts := fun u hu => by simp [hts, hu]
    refine .decode before t after text p (fun u hu => ?_) hts (fun u hu => ?_) ?_ hdecode
    · rw [hraw u hu]
      exact hall u hu
    · rw [hget u (hmem u hu)]
      exact hbefore u hu
    · rw [hraw t (by simp [hts]), htext]
  | values vs hvs =>
    refine .values vs ?_
    rw [← hvs]
    exact List.map_congr_left hget

/-- **Absence is reported before anything else**, and what is reported is the
first there is. A request for several assets comes to the one result that is a
`Selection`: the first name without an entry, if there is one, whatever the
entries hold; otherwise the first entry that cannot be decoded; otherwise the
assets as they are one by one. Entries that were not asked for have no say in
it. -/
theorem getMany_selects (c : Codec τ ν) (s : Snapshot) (ts : List τ) :
    (∀ r, s.getMany c ts = r ↔ s.Selection c ts r) ∧
    ((∃ name, s.getMany c ts = .error (.missing name)) ↔
      ∃ t ∈ ts, s.contains (Kind.name t) = false) ∧
    ∀ s' : Snapshot, (∀ t ∈ ts, s'.raw (Kind.name t) = s.raw (Kind.name t)) →
      s'.getMany c ts = s.getMany c ts := by
  refine ⟨fun r => getMany_eq_iff, ⟨?_, ?_⟩, fun s' hraw => ?_⟩
  · rintro ⟨name, h⟩
    cases getMany_eq_iff.1 h with
    | missing before t after hts _ hnone => exact ⟨t, by simp [hts], by simp [contains, hnone]⟩
  · rintro ⟨t, ht, habsent⟩
    cases hfirst : s.firstAbsent ts with
    | some u => exact ⟨Kind.name u, by rw [getMany, hfirst]⟩
    | none =>
      have hsome := firstAbsent_eq_none_iff.1 hfirst t ht
      rw [contains, hsome] at habsent
      cases habsent
  · exact ((getMany_eq_iff.1 rfl).congr hraw).getMany_eq

end Snapshot

end Provision.Asset

/-! ## A rehearsal -/

namespace Provision.Rehearsal

open Asset

/-- Two entries, of which one is no asset. -/
def halves : Snapshot := (Snapshot.empty.insert "n1" "17").insert "n0" "\x7b\"value\":\"A\"\x7d"

/-- What the entry that is no asset holds. -/
def misfit : Json.Problem := .wrongType (.integer 17) "struct Node"

/-- What is missing is reported, though an entry before it cannot be decoded.
Where nothing is missing, that entry is reported. An asset that is asked for
twice is given twice, and other entries change nothing. -/
theorem getMany_selects_halves :
    halves.get codec (.node 1) = .error (.decode "n1" misfit) ∧
      halves.getMany codec [.node 1, .node 2, .node 0, .node 3] = .error (.missing "n2") ∧
      halves.getMany codec [.node 0, .node 1, .node 1] = .error (.decode "n1" misfit) ∧
      halves.getMany codec [.node 0, .node 0] = .ok ["A", "A"] ∧
      (halves.insert "n2" "\x7b\x7d").getMany codec [.node 0, .node 0] = .ok ["A", "A"] := by
  have hbroken : codec.decode (.node 1) "17" = .error misfit := by decide +kernel
  have hvalue : halves.get codec (.node 0) = .ok "A" := by decide +kernel
  have hmissing : halves.Selection codec [.node 1, .node 2, .node 0, .node 3]
      (.error (.missing "n2")) :=
    .missing [Role.node 1] (.node 2) [.node 0, .node 3] rfl (by decide +kernel) (by decide +kernel)
  have hdecode : halves.Selection codec [.node 0, .node 1, .node 1]
      (.error (.decode "n1" misfit)) :=
    .decode [Role.node 0] (.node 1) [.node 1] "17" misfit (by decide +kernel) rfl
      (fun u hu => ⟨"A", by rw [List.mem_singleton.1 hu, hvalue]⟩) (by decide +kernel) hbroken
  have hvalues : halves.Selection codec [.node 0, .node 0] (.ok ["A", "A"]) :=
    .values ["A", "A"] (by simp [hvalue])
  obtain ⟨hends, -, hothers⟩ := Snapshot.getMany_selects codec halves [.node 0, .node 0]
  refine ⟨by decide +kernel, ?_, ?_, (hends _).2 hvalues, ?_⟩
  · exact ((Snapshot.getMany_selects codec halves _).1 _).2 hmissing
  · exact ((Snapshot.getMany_selects codec halves _).1 _).2 hdecode
  · rw [hothers _ (by decide +kernel)]
    exact (hends _).2 hvalues

end Provision.Rehearsal
