import Provision.Proofs.Blob.Agreement
import Provision.Proofs.Blob.Atomicity
import Provision.Proofs.Blob.Laws
/-!
# Blobs — what three questions find

Whether there is a blob can be asked in three ways: outright, by fetching it,
and by deleting it. In memory the three answers agree (`Findings.Agree`). In a
directory they agree unless something is in the way of the key
(`Obstructed`): a directory in its place, which is no blob but is not missing,
either, or a file where a directory should be. Both come about by other keys,
so in every state that requests lead to, **the answers agree if and only if
nothing is in the way** (`findings_agree_iff`).
-/

namespace Provision.Blob

open Files Files.Tree Files.Path

/-- What three questions about a key find. -/
structure Findings where
  /-- Whether there is a blob. -/
  known : Except Error Bool
  /-- Its content. -/
  fetched : Except Error Bytes
  /-- Whether it can be removed. -/
  deleted : Except Error Unit
  deriving DecidableEq

namespace Findings

/-- **The three answers agree**: there is a blob or there is none, and there
is no third case. -/
structure Agree (f : Findings) (k : String) : Prop where
  known : f.known = .ok true ↔ (∃ content, f.fetched = .ok content) ∧ f.deleted = .ok ()
  unknown : f.known = .ok false ↔
    f.fetched = .error (.notFound k) ∧ f.deleted = .error (.notFound k)
  sure : ∃ answer, f.known = .ok answer

/-- There is a blob. -/
def present (content : Bytes) : Findings := ⟨.ok true, .ok content, .ok ()⟩

/-- There is none. -/
def absent (k : String) : Findings := ⟨.ok false, .error (.notFound k), .error (.notFound k)⟩

/-- There is none, and it is not missing. -/
def occupied : Findings :=
  ⟨.ok false, .error (.io (.system .isADirectory)), .error (.io (.system .isADirectory))⟩

/-- The system does not say. -/
def refused (e : Files.Error) : Findings :=
  ⟨.error (.io (.system e)), .error (.io (.system e)), .error (.io (.system e))⟩

variable {k : String}

theorem agree_present (content : Bytes) : (present content).Agree k := by
  constructor <;> simp [present]

theorem agree_absent (k : String) : (absent k).Agree k := by
  constructor <;> simp [absent]

theorem not_agree_occupied : ¬ occupied.Agree k := by
  intro h
  have hfetched := (h.unknown.1 rfl).1
  cases hfetched

theorem not_agree_refused (e : Files.Error) : ¬ (refused e).Agree k := by
  intro h
  obtain ⟨answer, hanswer⟩ := h.sure
  cases hanswer

end Findings

/-- **The three questions**, put to a store in the same state. -/
def Store.findings {σ : Type} (store : Store σ) (s : σ) (k : String) : Findings :=
  ⟨(store.has k s).1, store.fetched s k, (store.delete k s).1⟩

/-- In memory the three answers agree. -/
theorem Memory.agree_findings {k : String} (m : Memory) (hvalid : Key.isValid k = true) :
    (Memory.store.findings m k).Agree k := by
  have hcheck := Key.check_of_isValid hvalid
  cases hget : m.get? k with
  | none =>
    have hfindings : Memory.store.findings m k = .absent k := by
      simp only [Store.findings, Store.fetched, Memory.store, Memory.has, Memory.get,
        Memory.step_delete, Table.contains, hcheck, hget]
      rfl
    rw [hfindings]
    exact Findings.agree_absent k
  | some content =>
    have hfindings : Memory.store.findings m k = .present content := by
      simp only [Store.findings, Store.fetched, Memory.store, Memory.has, Memory.get,
        Memory.step_delete, Table.contains, hcheck, hget]
      exact congrArg (fun c => Findings.mk _ (.ok c) _) (List.append_nil content)
    rw [hfindings]
    exact Findings.agree_present content

namespace Directory

variable {d : Directory} {t t₀ : Tree} {p b : Place} {k : String} {ns names : List String}

/-! ## By where a key leads -/

section

variable (hvalid : Key.isValid k = true)
include hvalid

theorem findings_of_file {content : Bytes} (hlocate : t.locate (join d.base k) = .ok p)
    (hp : t.node? p = some (.file content)) : d.store.findings t k = .present content := by
  have hfetched := fetched_eq_ok_iff.2 ⟨hvalid, p, hlocate, hp⟩
  have hremove := canRemove_iff.2 ⟨hlocate, not_directory_of_file hp⟩
  rw [Store.findings, hfetched]
  simp only [store, step, Directory.has, Directory.delete, pathOf_of_isValid d hvalid, bind,
    Except.bind, hlocate, hremove, isDirectoryAt, hp]
  rfl

theorem findings_of_directory (hlocate : t.locate (join d.base k) = .ok p)
    (hp : t.node? p = some .directory) : d.store.findings t k = .occupied := by
  have hfetched := fetched_eq d t hvalid
  rw [hlocate] at hfetched
  simp only [hp] at hfetched
  rw [Store.findings, hfetched]
  simp only [store, step, Directory.has, Directory.delete, canRemove, pathOf_of_isValid d hvalid,
    bind, Except.bind, hlocate, isDirectoryAt, hp, decide_true, if_true]
  rfl

theorem findings_of_error {e : Files.Error} (hlocate : t.locate (join d.base k) = .error e) :
    d.store.findings t k = if e = .notFound then .absent k else .refused e := by
  have hfetched := fetched_eq d t hvalid
  rw [hlocate] at hfetched
  rw [Store.findings, hfetched]
  simp only [store, step, Directory.has, Directory.delete, canRemove, pathOf_of_isValid d hvalid,
    bind, Except.bind, hlocate]
  cases e with
  | notFound => exact (if_pos rfl).symm
  | _ => rfl

end

/-- What a path of a key leads to is a directory or a file. -/
theorem isSome_of_locate (hvalid : Key.isValid k = true) (hlocate : t.locate (join d.base k) = .ok p) :
    (t.node? p).isSome := by
  obtain ⟨front, s, hseg, hs⟩ := exists_segments_join d hvalid
  exact ((locate_iff hseg hs).1 hlocate).2

/-- **Whatever the tree is like**, there is a blob, or none, or a directory in
its place, or an error. -/
theorem findings_cases (d : Directory) (t : Tree) (hvalid : Key.isValid k = true) :
    (∃ content, d.store.findings t k = .present content) ∨ d.store.findings t k = .absent k ∨
      d.store.findings t k = .occupied ∨ ∃ e, d.store.findings t k = .refused e := by
  cases hlocate : t.locate (join d.base k) with
  | ok p =>
    obtain ⟨n, hn⟩ := Option.isSome_iff_exists.1 (isSome_of_locate hvalid hlocate)
    cases n with
    | directory => exact Or.inr (Or.inr (Or.inl (findings_of_directory hvalid hlocate hn)))
    | file content => exact Or.inl ⟨content, findings_of_file hvalid hlocate hn⟩
  | error e =>
    have hfound := findings_of_error hvalid hlocate
    split at hfound
    · exact Or.inr (Or.inl hfound)
    · exact Or.inr (Or.inr (Or.inr ⟨e, hfound⟩))

/-- **A blob is said to be there** if and only if it can be fetched and removed. -/
theorem known_eq_ok_true_iff (d : Directory) (t : Tree) (hvalid : Key.isValid k = true) :
    (d.store.findings t k).known = .ok true ↔
      (∃ content, (d.store.findings t k).fetched = .ok content) ∧
        (d.store.findings t k).deleted = .ok () := by
  obtain ⟨content, hfound⟩ | hfound | hfound | ⟨e, hfound⟩ := findings_cases d t hvalid
  · simp [hfound, Findings.present]
  · simp [hfound, Findings.absent]
  · simp [hfound, Findings.occupied]
  · simp [hfound, Findings.refused]

/-- A path that the system does not take gets an error. -/
theorem findings_of_check {e : Files.Error} (d : Directory) (t : Tree)
    (hvalid : Key.isValid k = true) (hcheck : Tree.check (join d.base k) = .error e) :
    d.store.findings t k = .refused e := by
  have hlocate : t.locate (join d.base k) = .error e := by
    rw [Tree.locate, hcheck]
    rfl
  rw [findings_of_error hvalid hlocate, if_neg]
  rintro rfl
  rw [Tree.check] at hcheck
  split at hcheck
  · cases hcheck
  split at hcheck
  · next hempty => exact join_ne_empty d hvalid hempty
  split at hcheck <;> cases hcheck

/-! ## By what stands on the way -/

/-- **What is in the way of a blob.** -/
inductive Obstructed (t : Tree) (b : Place) (names : List String) : Prop
  /-- A directory in its place. -/
  | directory (h : t.node? (b ++ names) = some .directory)
  /-- A file where there should be a directory. -/
  | file {ds rest : List String} {s : String} {content : Bytes} (heq : names = ds ++ s :: rest)
      (h : t.node? (b ++ ds) = some (.file content))

/-- **A store rooted at a directory.** The base of the store is below `b` by
names that may be missing as yet. -/
structure Rooted (d : Directory) (t : Tree) (b : Place) (ns : List String) : Prop where
  base : ∃ front, steps (segments d.base) = steps front ++ ns ∧
    t.walk (t.start d.base) front = .ok b
  directory : t.node? b = some .directory
  closed : t.ClosedBelow b
  fits : ∀ s ∈ ns, Fits s

theorem Fresh.rooted (ht : Fresh d t b) : Rooted d t b [] where
  base := ⟨segments d.base, (List.append_nil _).symm, ht.walk⟩
  directory := ht.directory
  closed := ht.closed
  fits s hs := by cases hs

/-- What is removed is a file. -/
theorem granted_delete (d : Directory) (t : Tree) (k : String) :
    t.Granted (d.delete t k).actions := by
  rw [Directory.delete]
  cases hvalid : Key.isValid k with
  | false =>
    rw [pathOf_of_not_isValid d hvalid]
    exact trivial
  | true =>
    rw [pathOf_of_isValid d hvalid]
    dsimp only
    split
    · next p hremove =>
      obtain ⟨hlocate, hno⟩ := canRemove_iff.1 hremove
      obtain ⟨n, hn⟩ := Option.isSome_iff_exists.1 (isSome_of_locate hvalid hlocate)
      cases n with
      | directory => exact absurd hn hno
      | file content => exact ⟨.remove hn, trivial⟩
    · exact trivial

namespace Rooted

/-- What is granted leaves the store where it is. -/
theorem performAll (h : Rooted d t b ns) {as : List Tree.Action} (has : t.Granted as) :
    Rooted d (t.performAll as) b ns where
  base := by
    obtain ⟨front, hsteps, hwalk⟩ := h.base
    refine ⟨front, hsteps, ?_⟩
    rw [Tree.start, has.keeps.here]
    exact has.keeps.walk h.directory hwalk
  directory := has.keeps.directory b h.directory
  closed := has.closed h.closed
  fits := h.fits

/-- So does every request. -/
theorem serve (h : Rooted d t b ns) (r : Request) : Rooted d (d.store.serve t r).2 b ns := by
  cases r with
  | fetch key => exact h
  | put key data contentType => exact h.performAll (puts_put d t key data).granted
  | delete key => exact h.performAll (granted_delete d t key)
  | has key => exact h

/-- **And any number of them.** -/
theorem after (h : Rooted d t b ns) (rs : List Request) : Rooted d (d.store.after t rs) b ns := by
  induction rs generalizing t with
  | nil => exact h
  | cons r rs ih => exact ih (h.serve r)

/-- **Where the path of a key leads**, if the system takes it. -/
theorem locate_eq (h : Rooted d t b ns) (hvalid : Key.isValid k = true)
    (hcheck : Tree.check (join d.base k) = .ok ()) :
    t.locate (join d.base k) = t.walk b (ns ++ segments k) := by
  obtain ⟨habs, names, hseg, hsteps⟩ :=
    segments_join d.base (Key.not_isAbsolute_of_isValid hvalid)
  obtain ⟨front, hfront, hwalk⟩ := h.base
  obtain ⟨s, rest, hkey⟩ := List.exists_cons_of_ne_nil (segments_ne_nil k)
  have hstart : t.start (join d.base k) = t.start d.base := by rw [Tree.start, Tree.start, habs]
  rw [Tree.locate, hcheck]
  change t.walk (t.start (join d.base k)) (segments (join d.base k)) = _
  rw [hstart, hseg, hkey, ← walk_steps_append, hsteps, hfront, List.append_assoc, walk_append,
    (walk_steps h.directory).2 hwalk]
  rfl

/-- The names on the way to a key fit into directories. -/
theorem fits_append (h : Rooted d t b ns) (hvalid : Key.isValid k = true)
    (hshort : ∀ s ∈ segments k, Utf8.size s ≤ nameLimit) : ∀ s ∈ ns ++ segments k, Fits s := by
  intro s hs
  obtain hs | hs := List.mem_append.1 hs
  · exact h.fits s hs
  · exact ⟨Key.step?_of_mem_segments hvalid hs, hshort s hs⟩

section

variable (h : Rooted d t b ns) (hvalid : Key.isValid k = true)
  (hshort : ∀ s ∈ segments k, Utf8.size s ≤ nameLimit)
  (hcheck : Tree.check (join d.base k) = .ok ())
include h hvalid hshort hcheck

/-- A directory in the place of a blob is found. -/
theorem findings_of_directory (hdir : t.node? (b ++ (ns ++ segments k)) = some .directory) :
    d.store.findings t k = .occupied := by
  have hp : t.Passable b (ns ++ segments k) :=
    h.closed.passable h.directory (h.fits_append hvalid hshort) (Option.isSome_of_eq_some hdir)
  have hlocate := h.locate_eq hvalid hcheck
  rw [hp.walk, hdir] at hlocate
  exact Directory.findings_of_directory hvalid hlocate hdir

/-- A file on the way is found. -/
theorem findings_of_file {ds rest : List String} {s : String} {content : Bytes}
    (heq : ns ++ segments k = ds ++ s :: rest) (hfile : t.node? (b ++ ds) = some (.file content)) :
    d.store.findings t k = .refused .notADirectory := by
  have hfits : ∀ s ∈ ds, Fits s := fun s' hs' =>
    h.fits_append hvalid hshort s' (heq ▸ List.mem_append_left _ hs')
  have hlocate := h.locate_eq hvalid hcheck
  rw [heq, h.closed.walk_of_file h.directory hfits hfile] at hlocate
  rw [findings_of_error hvalid hlocate, if_neg (by decide)]

/-- **Where nothing is in the way the answers agree.** -/
theorem agree_of_not_obstructed (hclear : ¬ Obstructed t b (ns ++ segments k)) :
    (d.store.findings t k).Agree k := by
  have hp : t.Passable b (ns ++ segments k) := by
    refine ⟨h.directory, h.closed, h.fits_append hvalid hshort, fun ds s rest heq c hc => ?_⟩
    exact hclear (.file heq hc)
  have hlocate := h.locate_eq hvalid hcheck
  rw [hp.walk] at hlocate
  cases hnode : t.node? (b ++ (ns ++ segments k)) with
  | none =>
    rw [hnode] at hlocate
    rw [findings_of_error hvalid hlocate, if_pos rfl]
    exact Findings.agree_absent k
  | some n =>
    rw [hnode] at hlocate
    cases n with
    | directory => exact absurd (.directory hnode) hclear
    | file content =>
      rw [Directory.findings_of_file hvalid hlocate hnode]
      exact Findings.agree_present content

end

end Rooted

/-- **When the three answers agree.** In memory they always do. In a directory,
after any requests and for every key whose names are not too long, they agree
if and only if the system takes the path and nothing is in the way. A
directory in the place of the blob is said to be none when asked outright, and
makes the other questions fail; a file on the way makes all three fail. That
there is a blob is said if and only if it can be fetched and removed, whatever
is in the way. -/
theorem findings_agree_iff (d : Directory) (t₀ : Tree) (b : Place) (ns : List String)
    (h : Rooted d t₀ b ns) (rs : List Request) (k : String) (hvalid : Key.isValid k = true)
    (hshort : ∀ s ∈ segments k, Utf8.size s ≤ nameLimit) :
    let t := d.store.after t₀ rs
    let found := d.store.findings t k
    (∀ m : Memory, (Memory.store.findings m k).Agree k) ∧
    (found.Agree k ↔
      Tree.check (join d.base k) = .ok () ∧ ¬ Obstructed t b (ns ++ segments k)) ∧
    (found.known = .ok true ↔
      (∃ content, found.fetched = .ok content) ∧ found.deleted = .ok ()) ∧
    (Tree.check (join d.base k) = .ok () →
      (t.node? (b ++ (ns ++ segments k)) = some .directory → found = .occupied) ∧
      ∀ ds s rest content, ns ++ segments k = ds ++ s :: rest →
        t.node? (b ++ ds) = some (.file content) → found = .refused .notADirectory) := by
  intro t found
  have ht : Rooted d t b ns := h.after rs
  refine ⟨fun m => m.agree_findings hvalid, ⟨fun hagree => ?_, fun ⟨hcheck, hclear⟩ => ?_⟩, ?_,
    fun hcheck => ⟨fun hdir => ?_, fun ds s rest content heq hfile => ?_⟩⟩
  · cases hcheck : Tree.check (join d.base k) with
    | error e =>
      have hfound : found = .refused e := findings_of_check d t hvalid hcheck
      exact absurd (hfound ▸ hagree) (Findings.not_agree_refused e)
    | ok u =>
      refine ⟨rfl, fun hway => ?_⟩
      cases hway with
      | directory hdir =>
        have hfound : found = .occupied := ht.findings_of_directory hvalid hshort hcheck hdir
        exact Findings.not_agree_occupied (hfound ▸ hagree)
      | file heq hfile =>
        have hfound : found = .refused .notADirectory :=
          ht.findings_of_file hvalid hshort hcheck heq hfile
        exact Findings.not_agree_refused _ (hfound ▸ hagree)
  · exact ht.agree_of_not_obstructed hvalid hshort hcheck hclear
  · exact known_eq_ok_true_iff d t hvalid
  · exact ht.findings_of_directory hvalid hshort hcheck hdir
  · exact ht.findings_of_file hvalid hshort hcheck heq hfile

end Directory

end Provision.Blob

/-! ## A rehearsal -/

namespace Provision.Rehearsal

open Blob Files

/-- A store whose base is missing as yet. -/
def cellar : Directory := ⟨"/tmp/work/blobs"⟩

theorem cellar_rooted : cellar.Rooted floor ["tmp", "work"] ["blobs"] where
  base := ⟨["", "tmp", "work"], by decide +kernel, by decide +kernel⟩
  directory := floor_fresh.directory
  closed := floor_fresh.closed
  fits := by
    intro s hs
    obtain rfl := List.mem_singleton.1 hs
    exact ⟨by decide +kernel, by decide +kernel⟩

/-- A blob is put, and the stream of another one breaks off. -/
def deliveries : List Blob.Request :=
  [.put "rg/note" ⟨[[1]], none⟩ "", .put "rg/list" ⟨[[2], [3]], some (.io (.reported "reset"))⟩ ""]

/-- Where the base was missing, the answers about the blob agree, so nothing is
in its way. Where it was there, its directory is in the way of another key. -/
theorem findings_agree_iff_deliveries :
    ¬ Directory.Obstructed (cellar.store.after floor deliveries) ["tmp", "work"]
        ["blobs", "rg", "note"] ∧
      depot.store.findings (depot.store.after floor deliveries) "rg" = .occupied := by
  have hfound : cellar.store.findings (cellar.store.after floor deliveries) "rg/note" =
      .present [1] := by decide +kernel
  have hway : (depot.store.after floor deliveries).node? ["tmp", "work", "rg"] =
      some .directory := by decide +kernel
  obtain ⟨-, hagree, -⟩ := Directory.findings_agree_iff cellar floor ["tmp", "work"] ["blobs"]
    cellar_rooted deliveries "rg/note" (by decide +kernel) (by decide +kernel)
  obtain ⟨-, -, -, hotherwise⟩ := Directory.findings_agree_iff depot floor ["tmp", "work"] []
    floor_fresh.rooted deliveries "rg" (by decide +kernel) (by decide +kernel)
  refine ⟨(hagree.1 (hfound ▸ Findings.agree_present [1])).2, ?_⟩
  exact (hotherwise (by decide +kernel)).1 hway

/-- **What is on the way to a blob is neither there nor missing**, and what is
below a blob cannot be asked about. -/
theorem findings_disagree :
    Key.isValid "rg" = true ∧ Key.isValid "rg/note/draft" = true ∧
      depot.store.findings (depot.store.after floor deliveries) "rg" =
        ⟨.ok false, .error (.io (.system .isADirectory)), .error (.io (.system .isADirectory))⟩ ∧
      ¬ (depot.store.findings (depot.store.after floor deliveries) "rg").Agree "rg" ∧
      ¬ (depot.store.findings (depot.store.after floor deliveries) "rg/note/draft").Agree
        "rg/note/draft" := by
  have hway : depot.store.findings (depot.store.after floor deliveries) "rg" = .occupied := by
    decide +kernel
  have hbelow : depot.store.findings (depot.store.after floor deliveries) "rg/note/draft" =
      .refused .notADirectory := by decide +kernel
  refine ⟨by decide +kernel, by decide +kernel, hway, ?_, ?_⟩
  · exact hway ▸ Findings.not_agree_occupied
  · exact hbelow ▸ Findings.not_agree_refused _

end Provision.Rehearsal
