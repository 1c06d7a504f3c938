import Provision.Proofs.Blob.Agreement
import Provision.Proofs.Blob.Atomicity
import Provision.Proofs.Blob.Laws
/-!
# Blobs — what a put spares

In memory a put leaves the blobs under all other keys alone. In a directory
it spares all but one: the text beside a key is a key itself
(`isValid_partialPath`), and its place is where the next blob is prepared. So
**who keeps a blob there loses it** to the put, whether it succeeds or breaks
off (`put_spares`).
-/

namespace Provision.Blob

open Files Files.Tree Files.Path

/-- A put under the one key spares the blob under the other. -/
def Store.Spares {σ : Type} (store : Store σ) (k k' : String) : Prop :=
  ∀ s data contentType content, store.fetched s k' = .ok content →
    store.fetched (store.put k data contentType s).2 k' = .ok content

/-- In memory all other blobs are spared. -/
theorem Memory.fetched_put_of_ne {k k' : String} (m : Memory) (data : Stream)
    (contentType : String) (hne : k ≠ k') :
    Memory.store.fetched (Memory.store.put k data contentType m).2 k' =
      Memory.store.fetched m k' := by
  have hput := Memory.confined_store.put k data contentType
  have hget := Memory.confined_store.get k'
  have hblob : (Memory.store.put k data contentType m).2.get? k' = m.get? k' := hput.others hne
  rw [Store.fetched, Store.fetched, hget.answer hblob]

namespace Directory

variable {d : Directory} {t t' : Tree} {p : Place} {k k' : String} {data : Stream}
variable {content content' : Bytes}

/-! ## The key beside -/

/-- **What is beside a key is a key.** -/
theorem isValid_partialPath (hvalid : Key.isValid k = true) :
    Key.isValid (partialPath k) = true := by
  obtain ⟨dirs, s, hseg⟩ := exists_segments k
  have hrel := Key.not_isAbsolute_of_isValid hvalid
  simp only [Key.isValid, Bool.and_eq_true, Bool.not_eq_true', decide_eq_true_eq, hseg,
    List.all_append, List.all_cons, List.all_nil, Bool.and_true] at hvalid
  obtain ⟨⟨⟨hne, -⟩, hback⟩, hdirs, -⟩ := hvalid
  have hlong : ∀ path : String, partialPath path ≠ "" := by
    intro path hempty
    have hlen := congrArg (fun s : String => s.toList.length) hempty
    simp [partialPath] at hlen
  have hname : Key.isName (partialPath s) = true := by
    have hstep := step?_partialPath s
    rw [step?] at hstep
    split at hstep
    · cases hstep
    next hmeans =>
    split at hstep
    · cases hstep
    · next hup =>
      simp only [Bool.or_eq_true, decide_eq_true_eq, not_or] at hmeans
      simp [Key.isName, hmeans.1, hmeans.2, hup]
  have hback' : '\\' ∉ (partialPath k).toList := by
    rw [partialPath, String.toList_append, List.mem_append, not_or]
    exact ⟨hback, by decide⟩
  have hrel' : isAbsolute (partialPath k) = false := by
    rw [partialPath, isAbsolute_append hne, hrel]
  simp [Key.isValid, segments_partialPath hseg, hlong k, hrel', hback', hdirs, hname]

/-- What is beside the path of a key is the path of what is beside the key. -/
theorem partialPath_join (d : Directory) (hvalid : Key.isValid k = true) :
    partialPath (join d.base k) = join d.base (partialPath k) := by
  have hrel := Key.not_isAbsolute_of_isValid hvalid
  have hrel' := Key.not_isAbsolute_of_isValid (isValid_partialPath hvalid)
  rw [join_of_relative d.base hrel, join_of_relative d.base hrel']
  by_cases hempty : d.base = ""
  · rw [if_pos hempty, if_pos hempty]
  rw [if_neg hempty, if_neg hempty]
  by_cases hslash : d.base.toList.getLast? = some '/'
  · rw [if_pos hslash, if_pos hslash]
    exact String.append_assoc ..
  · rw [if_neg hslash, if_neg hslash]
    exact String.append_assoc ..

/-! ## Reading on -/

section

variable (h : t.Keeps t') (hread : d.store.fetched t k = .ok content)
include h hread

/-- A key that led to a blob leads there as long as something is in its place. -/
theorem locate_of_fetched :
    t'.locate (join d.base k) =
      if (t'.node? (t.place (join d.base k))).isSome then .ok (t.place (join d.base k))
      else .error .notFound := by
  obtain ⟨hvalid, p, hlocate, -⟩ := fetched_eq_ok_iff.1 hread
  obtain ⟨front, s, hseg, hs⟩ := exists_segments_join d hvalid
  have hnew : t'.locateNew (join d.base k) = .ok p :=
    h.locateNew ((locate_iff hseg hs).1 hlocate).1
  rw [place_eq_of_locate hlocate, locate_of_locateNew hseg hs hnew]

/-- **The file that takes the place of a blob is read in its stead.** -/
theorem fetched_of_file? (hfile : t'.file? (t.place (join d.base k)) = some content') :
    d.store.fetched t' k = .ok content' := by
  have hvalid : Key.isValid k = true := (fetched_eq_ok_iff.1 hread).1
  have hnode := node?_of_file? hfile
  have hlocate := locate_of_fetched h hread
  rw [hnode, Option.isSome_some, if_pos rfl] at hlocate
  exact fetched_eq_ok_iff.2 ⟨hvalid, _, hlocate, hnode⟩

/-- A blob that is taken away is missing. -/
theorem fetched_of_none (hnone : t'.node? (t.place (join d.base k)) = none) :
    d.store.fetched t' k = .error (.notFound k) := by
  have hvalid : Key.isValid k = true := (fetched_eq_ok_iff.1 hread).1
  have hlocate := locate_of_fetched h hread
  rw [hnone] at hlocate
  rw [fetched_eq d t' hvalid, hlocate]
  rfl

end

/-! ## Putting -/

/-- **A put spares the blobs under all keys** but its own and the one beside. -/
theorem fetched_put_of_ne (data : Stream) (contentType : String) (hne : k ≠ k')
    (hbeside : k' ≠ partialPath k) (hread : d.store.fetched t k' = .ok content) :
    d.store.fetched (d.store.put k data contentType t).2 k' = .ok content := by
  have hputs : Puts d t k data (d.put t k data) := puts_put d t k data
  refine fetched_of_file? hputs.granted.keeps hread ?_
  have hfile := file?_of_fetched hread
  have hvalid' : Key.isValid k' = true := (fetched_eq_ok_iff.1 hread).1
  cases hvalid : Key.isValid k with
  | false =>
    simp only [store, step, put, pathOf_of_not_isValid d hvalid]
    exact hfile
  | true =>
    have hblob := place_join_ne d t hvalid' hvalid hne.symm
    have haside := place_join_ne d t hvalid' (isValid_partialPath hvalid) hbeside
    rw [← partialPath_join d hvalid] at haside
    exact (hputs.file?_eq (List.prefix_refl _) hblob haside).trans hfile

/-- Where the directory of a blob is there, it only has to be written. -/
theorem put_of_locateNew (hvalid : Key.isValid k = true)
    (hnew : t.locateNew (join d.base k) = .ok p) (data : Stream) :
    d.put t k data = write t (join d.base k) data := by
  obtain ⟨front, s, hseg, hs⟩ := exists_segments_join d hvalid
  obtain ⟨hcheck, dir, hwalk, hdir, -, -⟩ := (locateNew_iff hseg).1 hnew
  have hleads : t.Leads (join d.base k) dir [s] := ⟨hcheck, front, hseg, hwalk⟩
  obtain ⟨C, hC, hway⟩ := exists_leads hleads hdir fun s' hs' => by
    rwa [List.mem_singleton.1 hs']
  have hparents : (components (join d.base k)).reverse.tail = C.reverse := by
    rw [hC]
    simp
  have hmade : makeDirectories t C.reverse = ⟨[], .ok ()⟩ := by
    refine makeDirectories_base hdir fun hne => ?_
    have hbase := hway [] List.nil_prefix (by simpa using hne)
    rwa [List.map_nil, List.append_nil] at hbase
  rw [put, pathOf_of_isValid d hvalid]
  simp only [hparents, hmade]
  rfl

/-- **A blob that is kept beside another is lost** when that is put again. -/
theorem fetched_put_beside (data : Stream) (contentType : String)
    (hread : d.store.fetched t k = .ok content)
    (hbeside : d.store.fetched t (partialPath k) = .ok content') :
    d.store.fetched (d.store.put k data contentType t).2 (partialPath k) =
      match data.failure with
      | none => .error (.notFound (partialPath k))
      | some _ => .ok data.chunks.flatten := by
  obtain ⟨hvalid, p, hlocate, hp⟩ := fetched_eq_ok_iff.1 hread
  obtain ⟨-, q, hlocate', hq⟩ := fetched_eq_ok_iff.1 hbeside
  have hpath := partialPath_join d hvalid
  rw [← hpath] at hlocate'
  obtain ⟨front, s, hseg, hs⟩ := exists_segments_join d hvalid
  have hnew := ((locate_iff hseg hs).1 hlocate).1
  have hnew' := ((locate_iff (segments_partialPath hseg) (step?_partialPath s)).1 hlocate').1
  have hcan : t.canCreate (partialPath (join d.base k)) = .ok q :=
    canCreate_iff.2 ⟨hnew', not_directory_of_file hq⟩
  have hputs : Puts d t k data (d.put t k data) := puts_put d t k data
  have hwrites := writes_write t (join d.base k) data
  rw [← put_of_locateNew hvalid hnew data] at hwrites
  change d.store.fetched (t.performAll (d.put t k data).actions) _ = _
  generalize d.put t k data = put at hputs hwrites
  have hkeeps : t.Keeps (t.performAll put.actions) := hputs.granted.keeps
  cases hwrites with
  | refused h =>
    rw [hcan] at h
    cases h
  | broken h hdata =>
    obtain rfl : q = _ := Except.ok.inj (hcan.symm.trans h)
    rw [hdata]
    refine fetched_of_file? hkeeps hbeside ?_
    rw [← hpath, place_eq_of_locate hlocate']
    exact file?_of_node? (performAll_create t (ne_nil_of_file hq) data.chunks).self
  | unmoved h hdata hto =>
    -- the old blob is still there, so the new one can be moved
    have hstill := hputs.file?_of_still (List.prefix_refl _) hputs.any_isRename
      (place_partialPath_ne t (join d.base k)).symm
    rw [place_eq_of_locate hlocate, file?_of_node? hp] at hstill
    have hto' := canCreate_iff.2
      ⟨hkeeps.locateNew hnew, not_directory_of_file (node?_of_file? hstill)⟩
    rw [hto] at hto'
    cases hto'
  | moved h hdata hto =>
    have hmoved := (hputs.of_isRename (List.prefix_refl _) hputs.any_isRename).2
    rw [hdata]
    exact fetched_of_none hkeeps hbeside (hpath ▸ hmoved.beside)

/-- **What a put spares.** In memory it spares the blobs under all other keys,
whether it succeeds or breaks off. In a directory it spares all but the one
beside its own: of that one, what is left is nothing after a put that
succeeds, and after one that broke off the chunks that had arrived. -/
theorem put_spares (d : Directory) (k : String) (data : Stream) (contentType : String) :
    (∀ (m : Memory) (k' : String), k ≠ k' →
      Memory.store.fetched (Memory.store.put k data contentType m).2 k' =
        Memory.store.fetched m k') ∧
    (∀ (t : Tree) (k' : String) (content : Bytes), k ≠ k' → k' ≠ partialPath k →
      d.store.fetched t k' = .ok content →
        d.store.fetched (d.store.put k data contentType t).2 k' = .ok content) ∧
    ∀ (t : Tree) (content content' : Bytes), d.store.fetched t k = .ok content →
      d.store.fetched t (partialPath k) = .ok content' →
        d.store.fetched (d.store.put k data contentType t).2 (partialPath k) =
          match data.failure with
          | none => .error (.notFound (partialPath k))
          | some _ => .ok data.chunks.flatten := by
  refine ⟨fun m k' hne => Memory.fetched_put_of_ne m data contentType hne,
    fun t k' content hne hbeside hread => ?_, fun t content content' hread hbeside => ?_⟩
  · exact fetched_put_of_ne data contentType hne hbeside hread
  · exact fetched_put_beside data contentType hread hbeside

end Directory

end Provision.Blob

/-! ## A rehearsal -/

namespace Provision.Rehearsal

open Blob Files

/-- A blob is put, then one under the key beside it, and one elsewhere. -/
def crowded : Tree :=
  depot.store.after floor
    [.put "note" ⟨[[1]], none⟩ "", .put "note.partial" ⟨[[2]], none⟩ "",
      .put "rg/note" ⟨[[3]], none⟩ ""]

theorem fetched_crowded :
    depot.store.fetched crowded "note" = .ok [1] ∧
      depot.store.fetched crowded "note.partial" = .ok [2] ∧
      depot.store.fetched crowded "rg/note" = .ok [3] := by
  decide +kernel

/-- A stream that breaks off. -/
def torn : Stream := ⟨[[4], [5]], some (.io (.reported "reset"))⟩

/-- One blob is spared by it, and of the one beside there is left what had
arrived. -/
theorem put_spares_crowded :
    depot.store.fetched (depot.store.put "note" torn "" crowded).2 "rg/note" = .ok [3] ∧
      depot.store.fetched (depot.store.put "note" torn "" crowded).2 "note.partial" =
        .ok [4, 5] := by
  obtain ⟨hnote, hbeside, helsewhere⟩ := fetched_crowded
  obtain ⟨-, hspared, hlost⟩ := Directory.put_spares depot "note" torn ""
  exact ⟨hspared crowded "rg/note" [3] (by decide) (by decide) helsewhere,
    hlost crowded [1] [2] hnote hbeside⟩

/-- **Two blobs of one store, and a put to the one takes away the other.** -/
theorem blob_beside_is_lost :
    Key.isValid "note" = true ∧ Key.isValid "note.partial" = true ∧ "note" ≠ "note.partial" ∧
      depot.store.fetched crowded "note" = .ok [1] ∧
      depot.store.fetched crowded "note.partial" = .ok [2] ∧
      (depot.store.put "note" ⟨[[6]], none⟩ "" crowded).1 = .ok () ∧
      depot.store.fetched (depot.store.put "note" ⟨[[6]], none⟩ "" crowded).2 "note.partial" =
        .error (.notFound "note.partial") := by
  decide +kernel

end Provision.Rehearsal
