import Provision.Proofs.Asset.Persistence
/-!
# Snapshots — documents of any spelling

A document may be spelled as its author likes: white space, the order of
the members, the escapes in their names, a name that occurs twice. Reading
finds the members that are meant, and of several under one name it keeps
the last, as it stands. So **a document is accepted exactly if it spells an
object of JSON values** (`ofDocument_eq_ok_iff`), and what a name holds is
the text of its last member, whatever else the document says.
-/

namespace Provision.Asset

open Json

namespace Snapshot

variable {s s' : Snapshot} {bs : Bytes} {ms : List (String × String)} {name : String}

/-- The text of the last member of a name. -/
def lastText (name : String) (ms : List (String × String)) : Option String :=
  (ms.reverse.find? fun m => m.1 = name).map Prod.snd

theorem lastText_cons (m : String × String) :
    lastText name (m :: ms) = (lastText name ms).or (if m.1 = name then some m.2 else none) := by
  rw [lastText, lastText, List.reverse_cons, List.find?_append, Option.map_or]
  by_cases h : m.1 = name <;> simp [h]

theorem mem_of_lastText {text : String} (h : lastText name ms = some text) :
    (name, text) ∈ ms := by
  obtain ⟨m, hm, rfl⟩ := Option.map_eq_some_iff.1 h
  obtain rfl : m.1 = name := by simpa using List.find?_some hm
  exact List.mem_reverse.1 (List.mem_of_find?_eq_some hm)

/-- Of several texts that are put under one name, the last one stays. -/
theorem raw_foldl_put : (ms.foldl put s).raw name = (lastText name ms).or (s.raw name) := by
  induction ms generalizing s with
  | nil => rfl
  | cons m ms ih =>
    rw [List.foldl_cons, ih, put, raw_insert, lastText_cons]
    cases lastText name ms <;> by_cases h : m.1 = name <;> simp [h]

/-- **A name holds the text of its last member.** -/
theorem raw_ofDocument (h : ofDocument bs = .ok s) (hms : Spells bs ms) (name : String) :
    s.raw name = lastText name ms := by
  have hs : ofDocument bs = .ok (ms.foldl put empty) := ofDocument_eq_ok_iff.2 ⟨ms, hms, rfl⟩
  rw [h] at hs
  rw [Except.ok.inj hs, raw_foldl_put]
  exact Option.or_none

/-- What is kept are JSON values. -/
theorem isValue_of_ofDocument (h : ofDocument bs = .ok s) {text : String}
    (hraw : s.raw name = some text) : IsValue text := by
  obtain ⟨ms, hms, -⟩ := ofDocument_eq_ok_iff.1 h
  rw [raw_ofDocument h hms] at hraw
  exact hms.2 _ (mem_of_lastText hraw)

/-- **The names ascend by their octets.** -/
theorem names_ascend (s : Snapshot) : s.names.Pairwise fun a b => Utf8.encode a < Utf8.encode b :=
  List.pairwise_map.2 (s.sorted.imp Utf8.encode_lt_encode)

/-- A snapshot that has been read is read again from its own document. -/
theorem ofDocument_render_of_ofDocument (h : ofDocument bs = .ok s) :
    ofDocument (Utf8.encode s.render) = .ok s :=
  ofDocument_render fun _ he => isValue_of_ofDocument h (raw_of_mem he)

/-- An asset depends on the text under the name of its kind. -/
theorem get_congr {τ ν : Type} [Kind τ] {c : Codec τ ν} {t : τ}
    (h : s.raw (Kind.name t) = s'.raw (Kind.name t)) : s.get c t = s'.get c t := by
  rw [get, get, h]

/-- **Documents are read without loss, and no entry before it is wanted.**
Accepted are the documents that spell an object of JSON values, in whatever
way. Each name holds the text of its last member, trimmed and otherwise as
it stands. The document of what was read is an object with the names in the
order of their octets; it is read as the same snapshot, which has the same
document. And an asset is what the last text of its name makes it: another
document with that text gives the same, whatever else either of them
says. -/
theorem documents_lossless {τ ν : Type} [Kind τ] (c : Codec τ ν) (bs : Bytes) :
    ((∃ s, ofDocument bs = .ok s) ↔ ∃ ms, Spells bs ms) ∧
    ∀ s, ofDocument bs = .ok s →
      (∀ ms, Spells bs ms → ∀ name, s.raw name = lastText name ms) ∧
      (∀ name text, s.raw name = some text → Trimmed text) ∧
      ObjectDocument s.entries (Utf8.encode s.render) ∧
      (s.names.Pairwise fun a b => Utf8.encode a < Utf8.encode b) ∧
      (∃ s', ofDocument (Utf8.encode s.render) = .ok s' ∧ s' = s ∧ s'.render = s.render) ∧
      ∀ bs' s' ms ms' (t : τ), ofDocument bs' = .ok s' → Spells bs ms → Spells bs' ms' →
        lastText (Kind.name t) ms = lastText (Kind.name t) ms' → s.get c t = s'.get c t := by
  refine ⟨⟨fun ⟨s, h⟩ => ?_, fun ⟨ms, h⟩ => ⟨_, ofDocument_eq_ok_iff.2 ⟨ms, h, rfl⟩⟩⟩,
    fun s h => ⟨fun ms => raw_ofDocument h, fun name text hraw => ?_,
      objectDocument_written s.entries, s.names_ascend,
      ⟨s, ofDocument_render_of_ofDocument h, rfl, rfl⟩, ?_⟩⟩
  · obtain ⟨ms, hms, -⟩ := ofDocument_eq_ok_iff.1 h
    exact ⟨ms, hms⟩
  · exact (isValue_of_ofDocument h hraw).trimmed
  · intro bs' s' ms ms' t h' hms hms' hlast
    refine get_congr ?_
    rw [raw_ofDocument h hms, raw_ofDocument h' hms', hlast]

end Snapshot

end Provision.Asset

/-! ## A rehearsal -/

namespace Provision.Rehearsal

open Asset Json

/-- A document with white space, a name that occurs twice in two spellings,
and an entry that no kind could decode. -/
def spacious : Bytes :=
  Utf8.encode (" \x7b \"n1\" : 7 ,\n\t\"z\":[ 1e999,\x7b\"x\":\"\\ud800\"\x7d ], " ++
    "\"\\u006e1\" : \x7b\"value\" : \"A\"\x7d \x7d\r\n")

/-- A shorter one that agrees with it on one name. -/
def terse : Bytes :=
  Utf8.encode "\x7b\"n1\":\x7b\"value\" : \"A\"\x7d,\"\":\x7b\x7d\x7d"

/-- Both are accepted and hold the same text under the name, so they give the
same asset; and the first is read again from its own document. -/
theorem documents_lossless_spacious :
    let c := textCodec Role.typeName
    ∃ s s', Snapshot.ofDocument spacious = .ok s ∧ Snapshot.ofDocument terse = .ok s' ∧
      s.raw "n1" = some "\x7b\"value\" : \"A\"\x7d" ∧ s.names = ["n1", "z"] ∧
      Snapshot.ofDocument (Utf8.encode s.render) = .ok s ∧
      s.get c (.node 1) = s'.get c (.node 1) ∧ (s'.get c (.node 1)).toOption = some "A" := by
  intro c
  have hspacious : (Snapshot.ofDocument spacious).toOption.map (fun s => (s.raw "n1", s.names)) =
      some (some "\x7b\"value\" : \"A\"\x7d", ["n1", "z"]) := by decide +kernel
  have hterse : (Snapshot.ofDocument terse).toOption.map
      (fun s => (s.raw "n1", (s.get c (.node 1)).toOption)) =
      some (some "\x7b\"value\" : \"A\"\x7d", some "A") := by decide +kernel
  obtain ⟨s, hs, hheld⟩ := Option.map_eq_some_iff.1 hspacious
  obtain ⟨s', hs', hheld'⟩ := Option.map_eq_some_iff.1 hterse
  obtain ⟨hraw, hnames⟩ := Prod.mk.inj hheld
  obtain ⟨hraw', hget⟩ := Prod.mk.inj hheld'
  have h := ok_of_toOption hs
  have h' := ok_of_toOption hs'
  -- what the two documents spell, and that it ends alike under the name
  obtain ⟨hspells, hread⟩ := Snapshot.documents_lossless c spacious
  obtain ⟨hspells', hread'⟩ := Snapshot.documents_lossless c terse
  obtain ⟨ms, hms⟩ := hspells.1 ⟨s, h⟩
  obtain ⟨ms', hms'⟩ := hspells'.1 ⟨s', h'⟩
  obtain ⟨hlast, -, -, -, ⟨_, hagain, rfl, -⟩, hcongr⟩ := hread s h
  have hsame : Snapshot.lastText "n1" ms = Snapshot.lastText "n1" ms' := by
    rw [← hlast ms hms, ← (hread' s' h').1 ms' hms', hraw, hraw']
  exact ⟨_, s', h, h', hraw, hnames, hagain, hcongr _ s' ms ms' (.node 1) h' hms hms' hsame, hget⟩

end Provision.Rehearsal
