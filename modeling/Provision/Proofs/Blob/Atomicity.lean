import Provision.Proofs.Blob.Directory
import Provision.Proofs.Files.Grants
/-!
# Blobs in a directory — all or nothing

A blob is put in one stroke. Whatever the tree is like and wherever the
writing stops, `put` has prepared the blob in the place beside, touching no
other file (`Prepares`), and if it got so far, moved it as its last action
(`Puts`). So **at every moment the file under the key is the old one, or the
whole new one** (`put_atomic`), and nobody who reads it gets anything else.

Nothing is asked of the tree here: there may be directories in the place of
the blob or beside it, and files in the place of directories. Where a path
leads is read off its text (`place_join`).
-/

namespace Provision.Blob

open Files Files.Tree Files.Path

/-- What a reader gets: the blob under a key, read to its end. -/
def Store.fetched {σ : Type} (store : Store σ) (s : σ) (key : String) : Except Error Bytes :=
  (store.get key s).1 >>= Stream.collect

namespace Directory

variable {d : Directory} {t t' : Tree} {p q : Place} {k path : String} {data : Stream}
variable {as pre : List Tree.Action} {put : Progress}

/-! ## The places of keys -/

/-- **The place of a key** is below the place of the base, by its names. -/
theorem place_join (d : Directory) (t : Tree) (hvalid : Key.isValid k = true) :
    t.place (join d.base k) = t.place d.base ++ segments k := by
  have hnamed : ∀ s ∈ segments k, step? s = some (.named s) := fun s hs =>
    Key.step?_of_mem_segments hvalid hs
  rw [Tree.place_join t d.base (Key.not_isAbsolute_of_isValid hvalid),
    foldl_next_of_named _ hnamed]

/-- **Different keys have different places.** -/
theorem place_join_ne (d : Directory) (t : Tree) {k k' : String} (hvalid : Key.isValid k = true)
    (hvalid' : Key.isValid k' = true) (hne : k ≠ k') :
    t.place (join d.base k) ≠ t.place (join d.base k') := by
  rw [place_join d t hvalid, place_join d t hvalid']
  intro h
  exact hne (segments_injective (List.append_cancel_left h))

/-- No segment leads where the name beside it leads. -/
theorem next_ne_beside (p : Place) (s : String) : p ++ [partialPath s] ≠ next p s := by
  intro heq
  rw [next] at heq
  split at heq
  · next s' hs =>
    have hname : partialPath s = s' := List.singleton_inj.1 (List.append_cancel_left heq)
    rw [step?] at hs
    split at hs
    · cases hs
    split at hs
    · cases hs
    · obtain rfl := Component.named.inj (Option.some.inj hs)
      exact partialPath_ne s hname
  -- a segment that is no name leads no further down
  · have hlen := congrArg List.length heq
    rw [List.length_append, List.length_dropLast, List.length_singleton] at hlen
    omega
  · have hlen := congrArg List.length heq
    rw [List.length_append, List.length_singleton] at hlen
    omega

/-- The place beside is another place. -/
theorem place_partialPath_ne (t : Tree) (path : String) :
    t.place (partialPath path) ≠ t.place path := by
  have habs : isAbsolute (partialPath path) = isAbsolute path := by
    by_cases hempty : path = ""
    · subst hempty
      decide
    · rw [partialPath, isAbsolute_append hempty]
  obtain ⟨front, s, hseg⟩ := exists_segments path
  have hstart : t.start (partialPath path) = t.start path := by rw [Tree.start, Tree.start, habs]
  rw [place, place, segments_partialPath hseg, hseg, hstart, List.foldl_append, List.foldl_append,
    List.foldl_cons, List.foldl_cons, List.foldl_nil, List.foldl_nil,
    next_of_named _ (step?_partialPath s)]
  exact next_ne_beside _ s

/-! ## Reading -/

/-- **What is read under a key** is the file that its path leads to. -/
theorem fetched_eq (d : Directory) (t : Tree) (hvalid : Key.isValid k = true) :
    d.store.fetched t k =
      match t.locate (join d.base k) with
      | .error e => .error (refused k e)
      | .ok p =>
        match t.node? p with
        | some (.file content) => .ok content
        | _ => .error (.io (.system .isADirectory)) := by
  simp only [Store.fetched, store, Directory.get, pathOf_of_isValid d hvalid, bind, Except.bind]
  cases t.locate (join d.base k) with
  | error e => rfl
  | ok p =>
    dsimp only
    rcases t.node? p with _ | _ | content
    · rfl
    · rfl
    · exact congrArg Except.ok (List.append_nil content)

theorem fetched_of_not_isValid (d : Directory) (t : Tree) (h : Key.isValid k = false) :
    d.store.fetched t k = .error (.invalidKey k) := by
  simp only [Store.fetched, store, Directory.get, pathOf_of_not_isValid d h]
  rfl

theorem fetched_eq_ok_iff {content : Bytes} :
    d.store.fetched t k = .ok content ↔ Key.isValid k = true ∧
      ∃ p, t.locate (join d.base k) = .ok p ∧ t.node? p = some (.file content) := by
  cases hvalid : Key.isValid k with
  | false =>
    rw [fetched_of_not_isValid d t hvalid]
    simp
  | true =>
    rw [fetched_eq d t hvalid]
    cases t.locate (join d.base k) with
    | error e => simp
    | ok p =>
      rcases hp : t.node? p with _ | _ | c <;> simp [hp]

/-- Whoever reads a blob gets the file in its place. -/
theorem file?_of_fetched {content : Bytes} (h : d.store.fetched t k = .ok content) :
    t.file? (t.place (join d.base k)) = some content := by
  obtain ⟨-, p, hlocate, hp⟩ := fetched_eq_ok_iff.1 h
  rw [place_eq_of_locate hlocate]
  exact file?_of_node? hp

/-! ## Writing -/

/-- The actions that write a file. -/
def filling (p : Place) (chunks : List Bytes) : List Tree.Action :=
  .create p :: chunks.map (.append p)

/-- **How the writing of a stream can go.** -/
inductive Writes (t : Tree) (path : String) (data : Stream) : Progress → Prop
  /-- The file beside cannot be made. -/
  | refused {e : Files.Error} (h : t.canCreate (partialPath path) = .error e) :
      Writes t path data ⟨[], .error (.io (.system e))⟩
  /-- The stream breaks off. -/
  | broken {q : Place} {e : Error} (h : t.canCreate (partialPath path) = .ok q)
      (hdata : data.failure = some e) :
      Writes t path data ⟨filling q data.chunks, .error e⟩
  /-- All is written, and cannot be moved. -/
  | unmoved {q : Place} {e : Files.Error} (h : t.canCreate (partialPath path) = .ok q)
      (hdata : data.failure = none)
      (hto : (t.performAll (filling q data.chunks ++ [.sync q])).canCreate path = .error e) :
      Writes t path data ⟨filling q data.chunks ++ [.sync q], .error (.io (.system e))⟩
  /-- All is written and moved. -/
  | moved {q p : Place} (h : t.canCreate (partialPath path) = .ok q)
      (hdata : data.failure = none)
      (hto : (t.performAll (filling q data.chunks ++ [.sync q])).canCreate path = .ok p) :
      Writes t path data ⟨filling q data.chunks ++ [.sync q] ++ [.rename q p], .ok ()⟩

theorem writes_write (t : Tree) (path : String) (data : Stream) :
    Writes t path data (write t path data) := by
  rw [write]
  cases h : t.canCreate (partialPath path) with
  | error e => exact .refused h
  | ok q =>
    dsimp only
    cases hdata : data.failure with
    | some e => exact .broken h hdata
    | none =>
      dsimp only
      cases hto : (t.performAll (filling q data.chunks ++ [.sync q])).canCreate path with
      | error e =>
        rw [show Tree.Action.create q :: _ ++ _ = filling q data.chunks ++ [.sync q] from rfl, hto]
        exact .unmoved h hdata hto
      | ok p =>
        rw [show Tree.Action.create q :: _ ++ _ = filling q data.chunks ++ [.sync q] from rfl, hto]
        exact .moved h hdata hto

/-- **Actions that prepare a file at `q`**: they are granted, touch no other
file and move none. -/
structure Prepares (t : Tree) (q : Place) (as : List Tree.Action) : Prop where
  granted : t.Granted as
  files : ∀ a ∈ as, ∀ p ∈ a.files, p = q
  still : ∀ a ∈ as, a.isRename = false

namespace Prepares

theorem of_isPrefix (h : Prepares t q as) (hpre : pre <+: as) : Prepares t q pre where
  granted := h.granted.of_isPrefix hpre
  files a ha := h.files a (hpre.subset ha)
  still a ha := h.still a (hpre.subset ha)

theorem append {as' : List Tree.Action} (h : Prepares t q as)
    (h' : Prepares (t.performAll as) q as') : Prepares t q (as ++ as') where
  granted := granted_append.2 ⟨h.granted, h'.granted⟩
  files a ha := (List.mem_append.1 ha).elim (h.files a) (h'.files a)
  still a ha := (List.mem_append.1 ha).elim (h.still a) (h'.still a)

/-- All other files are as they were. -/
theorem file?_eq (h : Prepares t q as) (hne : p ≠ q) :
    (t.performAll as).file? p = t.file? p :=
  h.granted.file?_eq fun a ha hp => hne (h.files a ha p hp)

theorem any_isRename (h : Prepares t q as) : as.any Tree.Action.isRename = false :=
  List.any_eq_false.2 fun a ha => by rw [h.still a ha]; exact Bool.false_ne_true

/-- Writing a file prepares it. -/
theorem filling (chunks : List Bytes) (hin : t.InDirectory q)
    (hno : t.node? q ≠ some .directory) : Prepares t q (filling q chunks) where
  granted := .filling chunks hin hno
  files a ha p hp := by
    obtain rfl | ha := List.mem_cons.1 ha
    · exact List.mem_singleton.1 hp
    · obtain ⟨bs, -, rfl⟩ := List.mem_map.1 ha
      exact List.mem_singleton.1 hp
  still a ha := by
    obtain rfl | ha := List.mem_cons.1 ha
    · rfl
    · obtain ⟨bs, -, rfl⟩ := List.mem_map.1 ha
      rfl

theorem sync (t : Tree) (q : Place) : Prepares t q [.sync q] where
  granted := ⟨.sync, trivial⟩
  files a ha p hp := by
    obtain rfl := List.mem_singleton.1 ha
    cases hp
  still a ha := by
    obtain rfl := List.mem_singleton.1 ha
    rfl

end Prepares

/-- **Directories are made and nothing else**, as far as it goes. -/
theorem makeDirectories_prepares (t : Tree) (q : Place) (cs : List Component) :
    Prepares t q (makeDirectories t cs).actions := by
  have hmake : ∀ {t : Tree} {path : String} {p : Place}, t.canMakeDirectory path = .ok p →
      Prepares t q [.makeDirectory p] := by
    intro t path p h
    obtain ⟨hin, hfree⟩ := free_of_canMakeDirectory h
    refine ⟨⟨.makeDirectory hin hfree, trivial⟩, fun a ha p hp => ?_, fun a ha => ?_⟩
    · obtain rfl := List.mem_singleton.1 ha
      cases hp
    · obtain rfl := List.mem_singleton.1 ha
      rfl
  have hnone : Prepares t q [] := ⟨trivial, by simp, by simp⟩
  induction cs with
  | nil => exact hnone
  | cons c cs ih =>
    rw [makeDirectories]
    split
    · next h => exact hmake h
    · -- what is above comes first
      dsimp only
      split
      · exact ih
      · split
        · next h => exact ih.append (hmake h)
        · exact ih
    · exact hnone

/-- **How the putting of a blob can go**: it is prepared in the place beside,
and then it may be moved. -/
inductive Puts (d : Directory) (t : Tree) (k : String) (data : Stream) : Progress → Prop
  /-- It is not moved, for whatever reason. -/
  | unmoved {as : List Tree.Action} {e : Error}
      (h : Prepares t (t.place (partialPath (join d.base k))) as) :
      Puts d t k data ⟨as, .error e⟩
  /-- All that arrived is in the place beside, and is moved. -/
  | moved {as : List Tree.Action} (hvalid : Key.isValid k = true)
      (h : Prepares t (t.place (partialPath (join d.base k))) as) (hdata : data.failure = none)
      (hfile : (t.performAll as).node? (t.place (partialPath (join d.base k))) =
        some (.file data.chunks.flatten))
      (hto : (t.performAll as).canCreate (join d.base k) = .ok (t.place (join d.base k))) :
      Puts d t k data
        ⟨as ++ [.rename (t.place (partialPath (join d.base k))) (t.place (join d.base k))], .ok ()⟩

theorem puts_put (d : Directory) (t : Tree) (k : String) (data : Stream) :
    Puts d t k data (d.put t k data) := by
  rw [put]
  cases hvalid : Key.isValid k with
  | false =>
    rw [pathOf_of_not_isValid d hvalid]
    exact .unmoved ⟨trivial, by simp, by simp⟩
  | true =>
    rw [pathOf_of_isValid d hvalid]
    dsimp only
    obtain ⟨front, s, hseg, hs⟩ := exists_segments_join d hvalid
    have hmade := makeDirectories_prepares t (t.place (partialPath (join d.base k)))
      (components (join d.base k)).reverse.tail
    generalize makeDirectories t _ = made at hmade
    obtain ⟨above, verdict⟩ := made
    cases verdict with
    | error e => exact .unmoved hmade
    | ok u =>
      have hkeeps : t.Keeps (t.performAll above) := hmade.granted.keeps
      -- what is written is written in the place beside, which is where it was
      have hplace : ∀ {q}, (t.performAll above).canCreate (partialPath (join d.base k)) = .ok q →
          q = t.place (partialPath (join d.base k)) ∧
            Prepares (t.performAll above) q (filling q data.chunks) := by
        intro q hq
        obtain ⟨hnew, hno⟩ := canCreate_iff.1 hq
        refine ⟨?_, .filling data.chunks (inDirectory_of_locateNew hnew) hno⟩
        rw [← hkeeps.place_eq]
        exact (place_eq_of_canCreate (segments_partialPath hseg) (step?_partialPath s) hq).symm
      have hwrote := writes_write (t.performAll above) (join d.base k) data
      generalize write _ (join d.base k) data = wrote at hwrote
      cases hwrote with
      | refused hcan =>
        rw [List.append_nil]
        exact .unmoved hmade
      | broken hcan hdata =>
        obtain ⟨rfl, hfill⟩ := hplace hcan
        exact .unmoved (hmade.append hfill)
      | unmoved hcan hdata hto =>
        obtain ⟨rfl, hfill⟩ := hplace hcan
        exact .unmoved (hmade.append (hfill.append (.sync _ _)))
      | moved hcan hdata hto =>
        obtain ⟨rfl, hfill⟩ := hplace hcan
        have hall := hmade.append (hfill.append (.sync _ _))
        rw [← performAll_append] at hto
        have hp := place_eq_of_canCreate hseg hs hto
        rw [hall.granted.keeps.place_eq] at hp
        subst hp
        rw [← List.append_assoc]
        refine .moved hvalid hall hdata ?_ hto
        have hin := inDirectory_of_locateNew (canCreate_iff.1 hcan).1
        rw [performAll_append, performAll_append]
        exact (performAll_create (t.performAll above) hin.ne_nil data.chunks).self

/-- **The tree after the move.** -/
structure Moved (d : Directory) (t : Tree) (k : String) (data : Stream) (t' : Tree) : Prop where
  valid : Key.isValid k = true
  whole : data.failure = none
  located : t'.locate (join d.base k) = .ok (t.place (join d.base k))
  blob : t'.node? (t.place (join d.base k)) = some (.file data.chunks.flatten)
  beside : t'.node? (t.place (partialPath (join d.base k))) = none
  others : ∀ p, p ≠ t.place (join d.base k) → p ≠ t.place (partialPath (join d.base k)) →
    t'.file? p = t.file? p

namespace Puts

/-- **Before the move** a blob is being prepared, whatever becomes of it. -/
theorem prepares (h : Puts d t k data put) (hpre : pre <+: put.actions)
    (hstill : pre.any Tree.Action.isRename = false) :
    Prepares t (t.place (partialPath (join d.base k))) pre := by
  cases h with
  | unmoved h => exact h.of_isPrefix hpre
  | moved hvalid h hdata hfile hto =>
    obtain rfl | hpre := List.prefix_concat_iff.1 hpre
    · simp [Tree.Action.isRename] at hstill
    · exact h.of_isPrefix hpre

/-- What is granted is done, to the last action. -/
theorem granted (h : Puts d t k data put) : t.Granted put.actions := by
  cases h with
  | unmoved h => exact h.granted
  | moved hvalid h hdata hfile hto =>
    obtain ⟨hnew, hno⟩ := canCreate_iff.1 hto
    have hmove := Grants.rename hfile (place_partialPath_ne t _) (inDirectory_of_locateNew hnew) hno
    exact granted_append.2 ⟨h.granted, hmove, trivial⟩

/-- **The move is the last action.** -/
theorem of_isRename (h : Puts d t k data put) (hpre : pre <+: put.actions)
    (hmove : pre.any Tree.Action.isRename = true) :
    put = ⟨pre, .ok ()⟩ ∧ Moved d t k data (t.performAll pre) := by
  have hgranted := h.granted
  cases h with
  | unmoved h =>
    rw [(h.of_isPrefix hpre).any_isRename] at hmove
    cases hmove
  | moved hvalid h hdata hfile hto =>
    obtain rfl | hpre := List.prefix_concat_iff.1 hpre
    · obtain ⟨hnew, hno⟩ := canCreate_iff.1 hto
      have hne := place_partialPath_ne t (join d.base k)
      obtain ⟨t₁, htaken, -, -, hput⟩ :=
        replaced_rename hfile hne (inDirectory_of_locateNew hnew) hno
      have hkeeps := (granted_append.1 hgranted).2.1.keeps
      obtain ⟨front, s, hseg, hs⟩ := exists_segments_join d hvalid
      rw [performAll_append]
      refine ⟨rfl, hvalid, hdata, ?_, hput.self, ?_, fun p hblob hbeside => ?_⟩
      · refine (locate_iff hseg hs).2 ⟨hkeeps.locateNew hnew, ?_⟩
        exact Option.isSome_of_eq_some hput.self
      · exact (hput.other hne.symm).trans htaken.self
      · exact (hput.file?_eq hblob.symm).trans
          ((htaken.file?_eq hbeside.symm).trans (h.file?_eq hbeside))
    · rw [(h.of_isPrefix hpre).any_isRename] at hmove
      cases hmove

/-- Whether a put succeeds and whether it moves is the same. -/
theorem any_isRename (h : Puts d t k data put) :
    put.actions.any Tree.Action.isRename = put.verdict.isOk := by
  cases h with
  | unmoved h => exact h.any_isRename
  | moved hvalid h hdata hfile hto =>
    rw [List.any_append, h.any_isRename]
    rfl

/-- A put that moves nothing leaves all files but the one beside. -/
theorem file?_of_still (h : Puts d t k data put) (hpre : pre <+: put.actions)
    (hstill : pre.any Tree.Action.isRename = false)
    (hne : p ≠ t.place (partialPath (join d.base k))) :
    (t.performAll pre).file? p = t.file? p :=
  (h.prepares hpre hstill).file?_eq hne

/-- **No file but two is ever touched**: that of the blob, and the one beside. -/
theorem file?_eq (h : Puts d t k data put) (hpre : pre <+: put.actions)
    (hblob : p ≠ t.place (join d.base k))
    (hbeside : p ≠ t.place (partialPath (join d.base k))) :
    (t.performAll pre).file? p = t.file? p := by
  cases hmove : pre.any Tree.Action.isRename with
  | false => exact h.file?_of_still hpre hmove hbeside
  | true => exact (h.of_isRename hpre hmove).2.others p hblob hbeside

end Puts

/-- **A blob is put all or nothing.** At every moment of a put, the file in
the place of the blob is the one that was there before, or, after the move,
the whole new one, and no file has changed but this and the one beside. What
a reader gets is that file. A put that fails has left the file as it was; one
that succeeds has got the whole stream, the blob is in its place, and nothing
is beside it. -/
theorem put_atomic (d : Directory) (t : Tree) (k : String) (data : Stream) :
    let put := d.put t k data
    let blob := t.place (join d.base k)
    let beside := t.place (partialPath (join d.base k))
    (∀ pre, pre <+: put.actions →
      let t' := t.performAll pre
      t'.file? blob =
        (if pre.any Tree.Action.isRename then some data.chunks.flatten else t.file? blob) ∧
      (∀ p, p ≠ blob → p ≠ beside → t'.file? p = t.file? p) ∧
      ∀ content, d.store.fetched t' k = .ok content → t'.file? blob = some content) ∧
    (∀ e, put.verdict = .error e →
      (t.performAll put.actions).file? blob = t.file? blob) ∧
    (put.verdict = .ok () →
      let t' := t.performAll put.actions
      data.failure = none ∧ t'.file? blob = some data.chunks.flatten ∧
        d.store.fetched t' k = .ok data.chunks.flatten ∧ t'.node? beside = none) := by
  intro put blob beside
  have h : Puts d t k data put := puts_put d t k data
  have hall : put.actions <+: put.actions := List.prefix_refl _
  refine ⟨fun pre hpre => ⟨?_, fun p => h.file?_eq hpre, fun content hread => ?_⟩,
    fun e he => ?_, fun hok => ?_⟩
  · cases hmove : pre.any Tree.Action.isRename with
    | false => exact h.file?_of_still hpre hmove (place_partialPath_ne t _).symm
    | true => exact file?_of_node? (h.of_isRename hpre hmove).2.blob
  · -- the reader looks in the same place, for directories have not moved
    have hkeeps : t.Keeps (t.performAll pre) := (h.granted.of_isPrefix hpre).keeps
    have hfile := file?_of_fetched hread
    rwa [hkeeps.place_eq] at hfile
  · have hstill := h.any_isRename
    rw [he] at hstill
    exact h.file?_of_still hall hstill (place_partialPath_ne t _).symm
  · have hmove := h.any_isRename
    rw [hok] at hmove
    have hmoved := (h.of_isRename hall hmove).2
    have hread := fetched_eq_ok_iff.2 ⟨hmoved.valid, _, hmoved.located, hmoved.blob⟩
    exact ⟨hmoved.whole, file?_of_node? hmoved.blob, hread, hmoved.beside⟩

end Directory

end Provision.Blob

/-! ## A rehearsal -/

namespace Provision.Rehearsal

open Blob Files

/-- A store in the directory that relative paths start from. -/
def pantry : Directory := ⟨"."⟩

/-- The place of a blob. -/
def noted : Place := ["tmp", "work", "rg", "note"]

/-- The blob is there. -/
def stocked : Tree := (Tree.emptyDirectory ["tmp", "work"]).plant noted [1, 2]

/-- A stream for it. -/
def refill : Stream := ⟨[[3], [], [4, 5]], none⟩

/-- A stream that breaks off. -/
def spill : Stream := ⟨[[3], [4]], some (.io (.reported "reset"))⟩

/-- A whole stream replaces the blob, in one step: at each moment the file is
the old one or the new one. A stream that breaks off leaves it as it is, with
what had arrived in the file beside it. -/
theorem put_atomic_stocked :
    stocked.file? noted = some [1, 2] ∧
    (pantry.put stocked "rg/note" refill).verdict = .ok () ∧
    (∀ pre, pre <+: (pantry.put stocked "rg/note" refill).actions →
      (stocked.performAll pre).file? noted = some [1, 2] ∨
        (stocked.performAll pre).file? noted = some [3, 4, 5]) ∧
    pantry.store.fetched (stocked.performAll (pantry.put stocked "rg/note" refill).actions)
      "rg/note" = .ok [3, 4, 5] ∧
    (pantry.put stocked "rg/note" spill).verdict = .error (.io (.reported "reset")) ∧
    (stocked.performAll (pantry.put stocked "rg/note" spill).actions).file? noted =
      some [1, 2] ∧
    (stocked.performAll (pantry.put stocked "rg/note" spill).actions).file?
      ["tmp", "work", "rg", "note.partial"] = some [3, 4] := by
  have hplace : stocked.place (Path.join pantry.base "rg/note") = noted := by decide +kernel
  have hnoted : stocked.file? noted = some [1, 2] := by decide +kernel
  have hok : (pantry.put stocked "rg/note" refill).verdict = .ok () := by decide +kernel
  have hbroken : (pantry.put stocked "rg/note" spill).verdict =
      .error (.io (.reported "reset")) := by decide +kernel
  obtain ⟨hmoments, -, hdone⟩ := Directory.put_atomic pantry stocked "rg/note" refill
  obtain ⟨-, hkept, -⟩ := Directory.put_atomic pantry stocked "rg/note" spill
  rw [hplace] at hmoments hkept
  obtain ⟨-, -, hfetched, -⟩ := hdone hok
  refine ⟨hnoted, hok, fun pre hpre => ?_, hfetched, hbroken, (hkept _ hbroken).trans hnoted,
    by decide +kernel⟩
  obtain ⟨hfile, -⟩ := hmoments pre hpre
  split at hfile
  · exact Or.inr hfile
  · exact Or.inl (hfile.trans hnoted)

end Provision.Rehearsal
