import Provision.Asset.Snapshot
import Provision.Proofs.Json.Reading
import Provision.Proofs.Resolution.Making
import Provision.Rehearsal.Assets
import Mathlib.Data.List.Nodup
/-!
# Snapshots — from a graph to its document and back

A graph becomes a snapshot, and a snapshot a document. Each way is told by
what is found under a name: **a snapshot mirrors a graph** when each asset
has its text under its name and there is nothing else (`Mirrors`), and a
document read back is the snapshot that was written, entry for entry
(`ofDocument_render`). Of the codec it is asked that it writes JSON values
and reads what it wrote; nothing is asked of names and texts.
-/

namespace Provision.Asset

open Json

namespace Snapshot

variable {s : Snapshot} {name text : String}

/-! ## Entries -/

theorem find?_putInto (n name text : String) (es : List (String × String))
    (hes : es.Pairwise fun a b => a.1 < b.1) :
    ((putInto name text es).find? fun e => e.1 = n).map Prod.snd =
      if name = n then some text else (es.find? fun e => e.1 = n).map Prod.snd := by
  induction es with
  | nil => by_cases h : name = n <;> simp [putInto, h]
  | cons e es ih =>
    rw [List.pairwise_cons] at hes
    rw [putInto]
    -- the entry goes in front, further back, or in the place of the one of its name
    split
    · by_cases h : name = n <;> simp [List.find?_cons, h]
    · next hge =>
      split
      · next hgt =>
        have hne : ¬ (e.1 = n ∧ name = n) := fun h => by
          rw [h.1, h.2] at hgt
          exact String.lt_irrefl _ hgt
        rw [List.find?_cons, List.find?_cons]
        by_cases he : e.1 = n
        · have hn : name ≠ n := fun h => hne ⟨he, h⟩
          simp [he, hn]
        · simp only [he, decide_false]
          exact ih hes.2
      · next hle =>
        have heq : name = e.1 := String.le_antisymm (String.not_lt.1 hle) (String.not_lt.1 hge)
        by_cases h : name = n
        · simp [h]
        · have he : e.1 ≠ n := heq ▸ h
          simp [h, he]

/-- **A name holds what was last put under it.** -/
theorem raw_insert (s : Snapshot) (name text n : String) :
    (s.insert name text).raw n = if name = n then some text else s.raw n :=
  find?_putInto n name text s.entries s.sorted

theorem nodup_names (s : Snapshot) : s.names.Nodup :=
  (List.pairwise_map.2 s.sorted).imp fun hlt => String.ne_of_lt hlt

/-- An entry is what its name holds. -/
theorem raw_of_mem {e : String × String} (he : e ∈ s.entries) : s.raw e.1 = some e.2 := by
  obtain ⟨d, hd⟩ := Option.isSome_iff_exists.1
    (List.find?_isSome.2 ⟨e, he, by simp⟩ : (s.entries.find? fun x => x.1 = e.1).isSome)
  have hde : d.1 = e.1 := by simpa using List.find?_some hd
  rw [raw, hd, List.inj_on_of_nodup_map s.nodup_names (List.mem_of_find?_eq_some hd) he hde]
  rfl

theorem mem_names_iff : name ∈ s.names ↔ ∃ text, s.raw name = some text := by
  rw [names, List.mem_map]
  constructor
  · rintro ⟨e, he, rfl⟩
    exact ⟨e.2, raw_of_mem he⟩
  · rintro ⟨text, h⟩
    obtain ⟨e, he, -⟩ := Option.map_eq_some_iff.1 h
    exact ⟨e, List.mem_of_find?_eq_some he, by simpa using List.find?_some he⟩

/-! ## The document -/

/-- The snapshot with one more entry. -/
def put (s : Snapshot) (e : String × String) : Snapshot := s.insert e.1 e.2

theorem reader_eq : reader = Reader.object (keep put) empty := rfl

/-- **A document is accepted exactly if it spells entries**, and then they
are put one after the other. -/
theorem ofDocument_eq_ok_iff {bs : Bytes} :
    ofDocument bs = .ok s ↔ ∃ es, Spells bs es ∧ s = es.foldl put empty := by
  rw [ofDocument, reader_eq, document_keep_iff]

theorem putInto_last {es : List (String × String)} (h : ∀ e ∈ es, e.1 < name) :
    putInto name text es = es ++ [(name, text)] := by
  induction es with
  | nil => rfl
  | cons e es ih =>
    have he := h e List.mem_cons_self
    rw [putInto, if_neg (String.lt_asymm he), if_pos he,
      ih fun x hx => h x (List.mem_cons_of_mem _ hx), List.cons_append]

/-- Entries in ascending order are put behind each other. -/
theorem foldl_put_ascending (s : Snapshot) (es : List (String × String))
    (hes : (s.entries ++ es).Pairwise fun a b => a.1 < b.1) :
    (es.foldl put s).entries = s.entries ++ es := by
  induction es generalizing s with
  | nil => exact (List.append_nil _).symm
  | cons e es ih =>
    -- the names ascend, so the entry goes behind those that are there
    have hlast : ∀ d ∈ s.entries, d.1 < e.1 :=
      fun d hd => (List.pairwise_append.1 hes).2.2 d hd _ List.mem_cons_self
    have hentries : (s.put e).entries = s.entries ++ [e] := putInto_last hlast
    rw [List.foldl_cons, ih (s.put e) (by rw [hentries, List.append_assoc]; exact hes), hentries,
      List.append_assoc, List.singleton_append]

theorem ext_entries {s s' : Snapshot} (h : s.entries = s'.entries) : s = s' := by
  cases s
  cases s'
  cases h
  rfl

theorem foldl_put_entries (s : Snapshot) : s.entries.foldl put empty = s :=
  ext_entries (foldl_put_ascending empty s.entries (by simpa [empty] using s.sorted))

/-- **A document is read as the snapshot that was written**, if its texts
are JSON. -/
theorem ofDocument_render (h : ∀ e ∈ s.entries, IsValue e.2) :
    ofDocument (Utf8.encode s.render) = .ok s :=
  ofDocument_eq_ok_iff.2
    ⟨s.entries, ⟨objectDocument_written s.entries, h⟩, (foldl_put_entries s).symm⟩

end Snapshot

/-! ## Graphs -/

variable {τ ν : Type} [Kind τ]

/-- **A codec that can be relied on**: what it writes is a JSON value, and
it reads it as the value that was written. -/
structure Codec.Lawful (c : Codec τ ν) : Prop where
  /-- What is written is a JSON value. -/
  isValue : ∀ t v text, c.encode t v = .ok text → IsValue text
  /-- It is read back. -/
  decode : ∀ t v text, c.encode t v = .ok text → c.decode t text = .ok v

/-- What a codec writes is JSON. -/
def Codec.WritesJson (c : Codec τ ν) : Prop :=
  ∀ t v text, c.encode t v = .ok text → IsValue text

omit [Kind τ] in
theorem Codec.Lawful.writesJson {c : Codec τ ν} (hc : c.Lawful) : c.WritesJson := hc.isValue

/-- **A snapshot mirrors a graph**: under each name stands the text of the
asset that the graph has there. -/
structure Snapshot.Mirrors (c : Codec τ ν) (g : Graph τ ν) (s : Snapshot) : Prop where
  /-- Each asset has its text. -/
  present : ∀ n a, g.assets.get? n = some a →
    ∃ text, c.encode a.kind a.value = .ok text ∧ s.raw n = some text
  /-- There is nothing else. -/
  absent : ∀ n, g.assets.get? n = none → s.raw n = none

namespace Graph

/-- The snapshot with one more asset of a graph. -/
def snapshotStep (c : Codec τ ν) (s : Snapshot) (e : String × Item τ ν) : Except Error Snapshot :=
  match c.encode e.2.kind e.2.value with
  | .ok text => .ok (s.insert e.1 text)
  | .error reason => .error (.encode e.1 reason)

theorem snapshot_eq (g : Graph τ ν) (c : Codec τ ν) :
    g.snapshot c = g.assets.entries.foldlM (snapshotStep c) Snapshot.empty := rfl

/-- What becomes of a snapshot when assets are added, none twice. -/
inductive Adds (c : Codec τ ν) (s : Snapshot) (es : List (String × Item τ ν)) :
    Except Error Snapshot → Prop
  /-- Each has its text, and what was under other names still is. -/
  | all {s' : Snapshot}
      (new : ∀ n a, (n, a) ∈ es →
        ∃ text, c.encode a.kind a.value = .ok text ∧ s'.raw n = some text)
      (old : ∀ n, n ∉ es.map Prod.fst → s'.raw n = s.raw n) : Adds c s es (.ok s')
  /-- One has no text. -/
  | refused {n : String} {a : Item τ ν} {reason : Link} (h : (n, a) ∈ es)
      (ha : c.encode a.kind a.value = .error reason) : Adds c s es (.error (.encode n reason))

omit [Kind τ] in
theorem adds_foldlM (c : Codec τ ν) (s : Snapshot) (es : List (String × Item τ ν))
    (hes : (es.map Prod.fst).Nodup) : Adds c s es (es.foldlM (snapshotStep c) s) := by
  induction es generalizing s with
  | nil => exact .all (fun n a h => by cases h) fun n _ => rfl
  | cons e es ih =>
    obtain ⟨name, item⟩ := e
    rw [List.map_cons, List.nodup_cons] at hes
    rw [List.foldlM_cons, snapshotStep]
    cases hc : c.encode item.kind item.value with
    | error reason => exact .refused List.mem_cons_self hc
    | ok text =>
      change Adds c s _ (es.foldlM (snapshotStep c) (s.insert name text))
      -- no later entry has this name, so its text stays
      have hadds := ih (s.insert name text) hes.2
      generalize es.foldlM (snapshotStep c) (s.insert name text) = r at hadds ⊢
      cases hadds with
      | refused h ha => exact .refused (List.mem_cons_of_mem _ h) ha
      | @all s' new old =>
        refine .all (fun n a h => ?_) fun n hn => ?_
        · rcases List.mem_cons.1 h with h | h
          · injection h with hn ha
            subst hn ha
            refine ⟨text, hc, ?_⟩
            rw [old n hes.1, Snapshot.raw_insert, if_pos rfl]
          · exact new n a h
        · rw [List.map_cons, List.mem_cons, not_or] at hn
          rw [old n hn.2, Snapshot.raw_insert, if_neg (Ne.symm hn.1)]

variable {g : Graph τ ν} {c : Codec τ ν} {s : Snapshot}

/-- **The snapshot of a graph mirrors it.** -/
theorem mirrors_of_snapshot (h : g.snapshot c = .ok s) : s.Mirrors c g := by
  have hadds := adds_foldlM c Snapshot.empty g.assets.entries g.assets.nodup
  rw [← snapshot_eq, h] at hadds
  cases hadds with
  | all new old =>
    refine ⟨fun n a ha => new n a (Table.mem_entries_iff.2 ha), fun n hn => ?_⟩
    refine old n fun hm => ?_
    have := Table.mem_keys_iff.1 hm
    rw [hn] at this
    cases this

/-- **A graph without a snapshot has an asset without a text**, and that is
what is reported. -/
theorem encode_of_snapshot_error {e : Error} (h : g.snapshot c = .error e) :
    ∃ n a reason, g.assets.get? n = some a ∧ c.encode a.kind a.value = .error reason ∧
      e = .encode n reason := by
  have hadds := adds_foldlM c Snapshot.empty g.assets.entries g.assets.nodup
  rw [← snapshot_eq, h] at hadds
  cases hadds with
  | @refused n a reason hm ha => exact ⟨n, a, reason, Table.mem_entries_iff.1 hm, ha, rfl⟩

end Graph

namespace Snapshot.Mirrors

variable {c : Codec τ ν} {g : Graph τ ν} {s : Snapshot}

/-- The texts of a snapshot that mirrors a graph are JSON. -/
theorem isJson (h : s.Mirrors c g) (hc : c.WritesJson) : ∀ e ∈ s.entries, IsValue e.2 := by
  intro e he
  have hraw := raw_of_mem he
  cases hg : g.assets.get? e.1 with
  | none => rw [h.absent _ hg] at hraw; cases hraw
  | some a =>
    obtain ⟨text, htext, hraw'⟩ := h.present _ a hg
    rw [hraw] at hraw'
    rw [Option.some.inj hraw']
    exact hc _ _ _ htext

theorem isValue (h : s.Mirrors c g) (hc : c.Lawful) : ∀ e ∈ s.entries, IsValue e.2 :=
  h.isJson hc.writesJson

/-- **The names of a snapshot are those of the graph that it mirrors.** -/
theorem names_eq (h : s.Mirrors c g) : s.names = g.names := by
  have hmem : ∀ n, n ∈ s.names ↔ n ∈ g.names := by
    intro n
    rw [mem_names_iff, Graph.names, List.mem_mergeSort, Table.mem_keys_iff]
    cases hg : g.assets.get? n with
    | none => simp [h.absent n hg]
    | some a =>
      obtain ⟨text, -, hraw⟩ := h.present n a hg
      simp [hraw]
  have hsorted : s.names.Pairwise (· < ·) := List.pairwise_map.2 s.sorted
  have hgsorted : g.names.Pairwise (· ≤ ·) := by
    have htrans : ∀ a b c : String, decide (a ≤ b) = true → decide (b ≤ c) = true →
        decide (a ≤ c) = true := fun a b c hab hbc =>
      decide_eq_true (String.le_trans (of_decide_eq_true hab) (of_decide_eq_true hbc))
    have hle : (g.assets.keys.mergeSort fun a b => decide (a ≤ b)).Pairwise
        fun a b => decide (a ≤ b) = true :=
      List.pairwise_mergeSort htrans (fun a b => by simpa using String.le_total a b) _
    simpa [Graph.names] using hle
  -- both lists ascend and have the same names, none twice
  have hperm : s.names.Perm g.names := by
    refine (List.perm_ext_iff_of_nodup s.nodup_names ?_).2 hmem
    exact (List.mergeSort_perm _ _).nodup_iff.2 g.assets.nodup
  exact hperm.eq_of_pairwise (fun a b _ _ => String.le_antisymm)
    (hsorted.imp fun hlt => String.not_lt.1 (String.lt_asymm hlt)) hgsorted

theorem size_eq (h : s.Mirrors c g) : s.size = g.size := by
  calc s.size = s.names.length := (List.length_map _).symm
    _ = g.names.length := by rw [h.names_eq]
    _ = g.assets.keys.length := List.length_mergeSort _
    _ = g.size := List.length_map _

variable [DecidableEq τ]

/-- **Each asset of the graph is found in the snapshot.** -/
theorem get_eq (h : s.Mirrors c g) (hc : c.Lawful) {t : τ} {v : ν} (hg : g.get? t = some v) :
    s.get c t = .ok v := by
  have hheld : g.assets.get? (Kind.name t) = some ⟨t, v⟩ := Graph.get?_eq_some_iff.1 hg
  obtain ⟨text, htext, hraw⟩ := h.present _ _ hheld
  rw [Snapshot.get, hraw]
  simp only [hc.decode _ _ _ htext]

end Snapshot.Mirrors

end Provision.Asset

/-! ## A rehearsal -/

namespace Provision.Rehearsal

open Json Asset

/-- A record of one text is read as the text that it was written with. -/
theorem read_textRecord (type field s : String) (rest : Bytes) :
    (textRecord type field).read
      (Utf8.encode (Writer.object [(field, Writer.text s)]) ++ rest) = .ok (s, rest) := by
  have hfind : (textRecord type field).fields.find? (fun f => f.name = field) =
      (textRecord type field).fields.head? := by
    simp [textRecord]
  have htext : Takes (Reader.text "a string") (Writer.text s) s := takes_text _ (quotes_text s)
  have hfolds : Folds (textRecord type field).member [(field, Writer.text s)]
      ([], none) ([field], some s) :=
    .field hfind List.not_mem_nil (htext.map fun s _ => some s) (.nil _)
  have hread : (textRecord type field).read
      ([] ++ (Utf8.encode (Writer.object [(field, Writer.text s)]) ++ rest)) = .ok (s, rest) :=
    record_spelled (object_written _) hfolds rfl spaces_nil
  rwa [List.nil_append] at hread

/-- How assets of any kinds are written that hold a text each, as those of a
rehearsal do; each kind with the name of its type. -/
def textCodec {τ : Type} (typeName : τ → String) : Codec τ String where
  encode _ := encode
  decode t text := document (textRecord (typeName t) "value").read (Utf8.encode text)

/-- **Assets that hold a text are read as they were written**, whatever
their texts. -/
theorem textCodec_lawful {τ : Type} (typeName : τ → String) : (textCodec typeName).Lawful := by
  have hshape : ∀ v text, encode v = .ok text →
      text = Writer.object [("value", Writer.text v)] := by
    intro v text h
    rw [encode] at h
    split at h
    · cases h
    · exact (Except.ok.inj h).symm
  refine ⟨fun t v text h => ?_, fun t v text h => ?_⟩
  · rw [hshape v text h]
    refine isValue_object fun m hm => ?_
    rw [List.mem_singleton.1 hm]
    exact isValue_text v
  · rw [hshape v text h]
    have hread := read_textRecord (typeName t) "value" v []
    rw [List.append_nil] at hread
    exact document_of_read hread

theorem codec_lawful : codec.Lawful := textCodec_lawful Role.typeName

end Provision.Rehearsal
