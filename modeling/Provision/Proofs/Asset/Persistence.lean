import Provision.Proofs.Asset.Document
/-!
# Snapshots — what survives of a graph

A table has its entries in some order, and nobody should see which. A
snapshot keeps its entries by name, so **what is under its names
determines it** (`ext_raw`), and two graphs with the same assets have one
snapshot and one document, in whatever order their tables list them.

Together with the way back this is all that persistence promises
(`persistence_round_trip`): a graph whose assets all have texts has a
document that depends on its assets alone and gives each of them back; any
other graph is refused, and the refusal names an asset without a text.
-/

namespace Provision.Asset

namespace Snapshot

variable {s s' : Snapshot}

theorem mem_entries_iff {name text : String} :
    (name, text) ∈ s.entries ↔ s.raw name = some text := by
  refine ⟨fun h => raw_of_mem h, fun h => ?_⟩
  obtain ⟨e, he, rfl⟩ := Option.map_eq_some_iff.1 h
  obtain rfl : e.1 = name := by simpa using List.find?_some he
  exact List.mem_of_find?_eq_some he

/-- **A snapshot is what is found under names.** -/
theorem ext_raw (h : ∀ name, s.raw name = s'.raw name) : s = s' := by
  have hmem : ∀ e, e ∈ s.entries ↔ e ∈ s'.entries := by
    rintro ⟨name, text⟩
    rw [mem_entries_iff, mem_entries_iff, h]
  have hperm : s.entries.Perm s'.entries :=
    (List.perm_ext_iff_of_nodup s.nodup_names.of_map s'.nodup_names.of_map).2 hmem
  -- both ascend, and of two entries only one can come first
  have hentries : s.entries = s'.entries :=
    hperm.eq_of_pairwise (fun a b _ _ hab hba => absurd hba (String.lt_asymm hab))
      s.sorted s'.sorted
  exact ext_entries hentries

end Snapshot

variable {τ ν : Type} [Kind τ] {c : Codec τ ν} {g g' : Graph τ ν} {s s' : Snapshot}

/-- Every asset of a graph has a text. -/
def Graph.HasTexts (c : Codec τ ν) (g : Graph τ ν) : Prop :=
  ∀ n a, g.assets.get? n = some a → ∃ text, c.encode a.kind a.value = .ok text

/-- **Graphs with the same assets have one snapshot.** -/
theorem Snapshot.Mirrors.unique (hg : ∀ n, g'.assets.get? n = g.assets.get? n)
    (h : s.Mirrors c g) (h' : s'.Mirrors c g') : s = s' := by
  refine ext_raw fun n => ?_
  cases ha : g.assets.get? n with
  | none => rw [h.absent n ha, h'.absent n ((hg n).trans ha)]
  | some a =>
    obtain ⟨text, htext, hraw⟩ := h.present n a ha
    obtain ⟨text', htext', hraw'⟩ := h'.present n a ((hg n).trans ha)
    rw [htext] at htext'
    rw [hraw, hraw', Except.ok.inj htext']

namespace Graph

/-- A graph whose assets have texts has a snapshot. -/
theorem exists_snapshot (h : g.HasTexts c) : ∃ s, g.snapshot c = .ok s := by
  cases hs : g.snapshot c with
  | ok s => exact ⟨s, rfl⟩
  | error e =>
    obtain ⟨n, a, reason, ha, hr, -⟩ := encode_of_snapshot_error hs
    obtain ⟨text, htext⟩ := h n a ha
    rw [hr] at htext
    cases htext

/-- And no other graph has one. -/
theorem hasTexts_of_snapshot (h : g.snapshot c = .ok s) : g.HasTexts c := by
  intro n a ha
  obtain ⟨text, htext, -⟩ := (mirrors_of_snapshot h).present n a ha
  exact ⟨text, htext⟩

/-- What mirrors a graph is its snapshot. -/
theorem snapshot_eq_of_mirrors (h : s.Mirrors c g) : g.snapshot c = .ok s := by
  obtain ⟨s', hs'⟩ : ∃ s', g.snapshot c = .ok s' := exists_snapshot fun n a ha =>
    (h.present n a ha).imp fun _ htext => htext.1
  rw [hs', h.unique (fun _ => rfl) (mirrors_of_snapshot hs')]

/-- **The order of the assets does not show.** -/
theorem snapshot_congr (hg : ∀ n, g'.assets.get? n = g.assets.get? n)
    (h : g.snapshot c = .ok s) : g'.snapshot c = .ok s := by
  have htexts : g'.HasTexts c := fun n a ha => hasTexts_of_snapshot h n a ((hg n).symm.trans ha)
  obtain ⟨s', hs'⟩ := exists_snapshot htexts
  rw [hs', (mirrors_of_snapshot h).unique hg (mirrors_of_snapshot hs')]

end Graph

open Rehearsal in
/-- **What persistence promises**, of assets of any kinds that hold a text
each. If all have texts, there is one snapshot for all graphs with these
assets; its document is read as that snapshot, whose names are those of the
graph and whose texts are those of its assets; and every asset is found in
it. If one has none, the graph is refused for such an asset. -/
theorem persistence_round_trip [DecidableEq τ] (typeName : τ → String) (g : Graph τ String) :
    let c := textCodec typeName
    (g.HasTexts c →
      ∃ s : Snapshot,
        (∀ g' : Graph τ String, (∀ n, g'.assets.get? n = g.assets.get? n) →
          g'.snapshot c = .ok s) ∧
        Snapshot.ofDocument (Utf8.encode s.render) = .ok s ∧
        s.names = g.names ∧
        (∀ n a, g.assets.get? n = some a →
          ∃ text, c.encode a.kind a.value = .ok text ∧ s.raw n = some text) ∧
        ∀ t v, g.get? t = some v → s.get c t = .ok v) ∧
    (¬ g.HasTexts c →
      ∃ n a reason, g.assets.get? n = some a ∧ c.encode a.kind a.value = .error reason ∧
        g.snapshot c = .error (.encode n reason)) := by
  intro c
  have hc : c.Lawful := textCodec_lawful typeName
  refine ⟨fun htexts => ?_, fun htexts => ?_⟩
  · obtain ⟨s, hs⟩ := Graph.exists_snapshot htexts
    have hm : s.Mirrors c g := Graph.mirrors_of_snapshot hs
    exact ⟨s, fun g' hg => Graph.snapshot_congr hg hs,
      Snapshot.ofDocument_render (hm.isValue hc), hm.names_eq, hm.present,
      fun t v hv => hm.get_eq hc hv⟩
  · cases hs : g.snapshot c with
    | ok s => exact absurd (Graph.hasTexts_of_snapshot hs) htexts
    | error e =>
      obtain ⟨n, a, reason, ha, hr, rfl⟩ := Graph.encode_of_snapshot_error hs
      exact ⟨n, a, reason, ha, hr, rfl⟩

end Provision.Asset

/-! ## A rehearsal -/

namespace Provision.Rehearsal

open Asset

/-- Two texts that documents have to escape, as assets. -/
def quoted (r r' : Role) : Asset.Graph Role String :=
  (Graph.empty.put r' "\"a\\b\"\n\x07").put r "日本語 😀"

/-- The same assets the other way round. -/
def quotedAgain (r r' : Role) : Asset.Graph Role String :=
  (Graph.empty.put r "日本語 😀").put r' "\"a\\b\"\n\x07"

theorem get?_quotedAgain {r r' : Role} (hne : Kind.name r ≠ Kind.name r') (n : String) :
    (quotedAgain r r').assets.get? n = (quoted r r').assets.get? n := by
  simp only [quoted, quotedAgain, Graph.put, Table.get?_insert]
  by_cases hr : Kind.name r = n
  · have hr' : Kind.name r' ≠ n := fun h => hne (hr.trans h.symm)
    rw [if_neg hr', if_pos hr, if_pos hr]
  · rw [if_neg hr, if_neg hr]

/-- The two and one more, which has no text. -/
def quotedPoison (r r' poison : Role) : Asset.Graph Role String :=
  (quoted r r').put poison "!poison: no text"

/-- Both orders give one document, which gives the texts back; and the graph
with an asset that has no text is refused for it. -/
theorem persistence_round_trip_quoted :
    let c := textCodec Role.typeName
    ((quoted (.node 0) (.node 1)).HasTexts c ∧
      ∃ s, (quoted (.node 0) (.node 1)).snapshot c = .ok s ∧
        (quotedAgain (.node 0) (.node 1)).snapshot c = .ok s ∧
        Snapshot.ofDocument (Utf8.encode s.render) = .ok s ∧
        s.get c (.node 0) = .ok "日本語 😀" ∧ s.get c (.node 1) = .ok "\"a\\b\"\n\x07") ∧
    (¬ (quotedPoison (.node 0) (.node 1) (.node 2)).HasTexts c ∧
      ∃ n a reason, (quotedPoison (.node 0) (.node 1) (.node 2)).assets.get? n = some a ∧
        (quotedPoison (.node 0) (.node 1) (.node 2)).snapshot c = .error (.encode n reason)) := by
  intro c
  have htexts : (quoted (.node 0) (.node 1)).HasTexts c := by
    intro n a ha
    have hm : (n, a) ∈ (quoted (.node 0) (.node 1)).assets.entries := Table.mem_entries_iff.2 ha
    have hentries : (quoted (.node 0) (.node 1)).assets.entries =
        [("n1", ⟨.node 1, "\"a\\b\"\n\x07"⟩), ("n0", ⟨.node 0, "日本語 😀"⟩)] := rfl
    rw [hentries] at hm
    simp only [List.mem_cons, List.not_mem_nil, or_false, Prod.mk.injEq] at hm
    obtain ⟨-, rfl⟩ | ⟨-, rfl⟩ := hm
    · exact ⟨_, rfl⟩
    · exact ⟨_, rfl⟩
  have hpoison : ¬ (quotedPoison (.node 0) (.node 1) (.node 2)).HasTexts c := by
    intro h
    obtain ⟨text, htext⟩ := h "n2" ⟨.node 2, "!poison: no text"⟩ rfl
    cases htext
  obtain ⟨s, hs, hdoc, -, -, hget⟩ :=
    (persistence_round_trip Role.typeName (quoted (.node 0) (.node 1))).1 htexts
  obtain ⟨n, a, reason, ha, -, herr⟩ :=
    (persistence_round_trip Role.typeName (quotedPoison (.node 0) (.node 1) (.node 2))).2 hpoison
  exact ⟨⟨htexts, s, hs _ fun _ => rfl, hs _ (get?_quotedAgain (by decide)), hdoc,
    hget _ _ rfl, hget _ _ rfl⟩, hpoison, n, a, reason, ha, herr⟩

end Provision.Rehearsal
