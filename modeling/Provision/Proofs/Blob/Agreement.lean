import Provision.Blob.Memory
import Provision.Proofs.Blob.Directory
import Provision.Proofs.Blob.Key
import Mathlib.Data.Set.Defs
/-!
# Blobs — a directory and a table agree

A store in a directory and one in memory answer alike, as long as their keys
keep out of each other's way (`Separated`). What holds the two together is a
picture of the directory (`Mirrors`): below the base there are directories
only on the way to keys, and files only in the places of keys and beside
them, whatever was put, broken off or deleted before; and the file of a key
holds what the table holds. Each request keeps the picture and is answered
alike (`serve_agrees`), and so is every sequence of requests
(`answers_agree`).
-/

namespace Provision.Blob

open Files Files.Tree Files.Path

/-! ## Requests -/

/-- What is asked of a store. What is fetched is read to its end. -/
inductive Request where
  | fetch (key : String)
  | put (key : String) (data : Stream) (contentType : String)
  | delete (key : String)
  | has (key : String)

namespace Request

/-- The key that it is about. -/
def key : Request → String
  | fetch key => key
  | put key _ _ => key
  | delete key => key
  | has key => key

end Request

/-- What a store answers. -/
inductive Reply where
  | content (r : Except Error Bytes)
  | done (r : Except Error Unit)
  | found (r : Except Error Bool)
  deriving DecidableEq

namespace Store

variable {σ : Type}

/-- The answer to one request. -/
def serve (store : Store σ) (s : σ) : Request → Reply × σ
  | .fetch key =>
    let (r, s) := store.get key s
    (.content (r >>= Stream.collect), s)
  | .put key data contentType =>
    let (r, s) := store.put key data contentType s
    (.done r, s)
  | .delete key =>
    let (r, s) := store.delete key s
    (.done r, s)
  | .has key =>
    let (r, s) := store.has key s
    (.found r, s)

/-- The answers to requests, one after the other. -/
def answers (store : Store σ) : σ → List Request → List Reply
  | _, [] => []
  | s, r :: rs => (store.serve s r).1 :: answers store (store.serve s r).2 rs

/-- The state after requests, one after the other. -/
def after (store : Store σ) : σ → List Request → σ
  | s, [] => s
  | s, r :: rs => after store (store.serve s r).2 rs

end Store

namespace Directory

variable {d : Directory} {K : Set String} {t₀ t t' : Tree} {b : Place} {m m' : Memory}
variable {k s path : String} {dirs : List String}

/-! ## Keys -/

/-- **Keys that keep out of each other's way**, in names and paths that the
system takes: none is on the way to another, nor is the place beside one. -/
structure Separated (d : Directory) (K : Set String) : Prop where
  valid : ∀ k ∈ K, Key.isValid k = true
  taken : ∀ k ∈ K, Tree.check (partialPath (join d.base k)) = .ok ()
  short : ∀ k ∈ K, ∀ s ∈ segments (partialPath k), Utf8.size s ≤ nameLimit
  apart : ∀ k ∈ K, ∀ k' ∈ K, segments k <+: segments k' → k = k'
  beside : ∀ k ∈ K, ∀ k' ∈ K, ¬ segments (partialPath k) <+: segments k'

/-- The place beside a key is not on the way to it. -/
theorem not_isPrefix_partialPath (k : String) : ¬ segments (partialPath k) <+: segments k := by
  obtain ⟨dirs, s, hseg⟩ := exists_segments k
  rw [segments_partialPath hseg, hseg]
  intro hway
  have heq := hway.eq_of_length (by simp)
  exact partialPath_ne s (List.singleton_inj.1 (List.append_cancel_left heq))

namespace Separated

variable (hK : Separated d K)
include hK

/-- The names of a key fit into directories. -/
theorem fits (hk : k ∈ K) (hseg : segments k = dirs ++ [s]) : ∀ s' ∈ segments k, Fits s' := by
  intro s' hs'
  refine ⟨Key.step?_of_mem_segments (hK.valid k hk) hs', ?_⟩
  have hshort := hK.short k hk
  rw [segments_partialPath hseg] at hshort
  rw [hseg] at hs'
  obtain hs' | hs' := List.mem_append.1 hs'
  · exact hshort s' (List.mem_append_left _ hs')
  · obtain rfl := List.mem_singleton.1 hs'
    refine Nat.le_trans ?_ (hshort _ (List.mem_append_right _ (List.mem_singleton_self _)))
    rw [partialPath, size_append]
    exact Nat.le_add_right _ _

theorem fits_partialPath (hk : k ∈ K) (hseg : segments k = dirs ++ [s]) :
    Fits (partialPath s) where
  named := step?_partialPath s
  short := by
    have hshort := hK.short k hk
    rw [segments_partialPath hseg] at hshort
    exact hshort _ (List.mem_append_right _ (List.mem_singleton_self _))

end Separated

/-! ## The picture -/

/-- **An empty base directory.** -/
structure Fresh (d : Directory) (t : Tree) (b : Place) : Prop where
  walk : t.walk (t.start d.base) (segments d.base) = .ok b
  directory : t.node? b = some .directory
  empty : ∀ p, p ≠ [] → t.node? (b ++ p) = none

theorem Fresh.closed (ht : Fresh d t b) : t.ClosedBelow b := by
  intro ds s hsome
  rw [List.append_assoc, ht.empty _ (by simp)] at hsome
  cases hsome

theorem Fresh.not_file (ht : Fresh d t b) (p : Place) (c : Bytes) :
    t.node? (b ++ p) ≠ some (.file c) := by
  intro hfile
  by_cases hnil : p = []
  · rw [hnil, List.append_nil, ht.directory] at hfile
    cases hfile
  · rw [ht.empty p hnil] at hfile
    cases hfile

/-- Below an empty directory nothing is in the way. -/
theorem Fresh.passable {names : List String} (ht : Fresh d t b) (hfits : ∀ s ∈ names, Fits s) :
    t.Passable b names where
  base := ht.directory
  closed := ht.closed
  fits := hfits
  way ds _ _ _ c := ht.not_file ds c

/-- **Below the base there is nothing but what keys are the reason for.** -/
structure Tidy (K : Set String) (t₀ : Tree) (b : Place) (t : Tree) : Prop where
  keeps : t₀.Keeps t
  closed : t.ClosedBelow b
  file : ∀ p c, t.node? (b ++ p) = some (.file c) →
    ∃ k ∈ K, p = segments k ∨ p = segments (partialPath k)
  directory : ∀ p, p ≠ [] → t.node? (b ++ p) = some .directory →
    ∃ k ∈ K, p <+: segments k ∧ p ≠ segments k

/-- **The directory shows what the table holds.** -/
structure Mirrors (K : Set String) (t₀ : Tree) (b : Place) (m : Memory) (t : Tree) : Prop where
  tidy : Tidy K t₀ b t
  content : ∀ k ∈ K, t.node? (b ++ segments k) = (m.get? k).map Node.file

theorem mirrors_empty (ht : Fresh d t₀ b) : Mirrors K t₀ b Table.empty t₀ where
  tidy :=
    { keeps := .refl t₀
      closed := ht.closed
      file := fun p c hp => absurd hp (ht.not_file p c)
      directory := fun p hnil hp => by
        rw [ht.empty p hnil] at hp
        cases hp }
  content k _ := ht.empty _ (segments_ne_nil k)

namespace Tidy

variable (hK : Separated d K) (h : Tidy K t₀ b t) (hk : k ∈ K)
include hK h hk

/-- **No file is in the way of a key.** -/
theorem passable (hb : t₀.node? b = some .directory) (hseg : segments k = dirs ++ [s]) :
    t.Passable b (dirs ++ [s]) where
  base := h.keeps.directory b hb
  closed := h.closed
  fits := hseg ▸ hK.fits hk hseg
  way ds s' rest heq c hfile := by
    rw [← hseg] at heq
    have hway : ds <+: segments k := ⟨s' :: rest, heq.symm⟩
    obtain ⟨k', hk', hds | hds⟩ := h.file ds c hfile
    · obtain rfl := hK.apart k' hk' k hk (hds ▸ hway)
      rw [hds] at heq
      exact List.cons_ne_nil _ _ (List.append_right_eq_self.1 heq.symm)
    · exact hK.beside k' hk' k hk (hds ▸ hway)

/-- No directory is in the place of a key. -/
theorem free : t.node? (b ++ segments k) ≠ some .directory := by
  intro hdir
  obtain ⟨k', hk', hway, hne⟩ := h.directory _ (segments_ne_nil k) hdir
  exact hne (by rw [hK.apart k hk k' hk' hway])

/-- Nor is one beside it. -/
theorem freeBeside : t.node? (b ++ segments (partialPath k)) ≠ some .directory := by
  intro hdir
  obtain ⟨k', hk', hway, -⟩ := h.directory _ (segments_ne_nil _) hdir
  exact hK.beside k hk k' hk' hway

/-- With its directory there, all is ready for its blob. -/
theorem ready (hb : t₀.node? b = some .directory) (hseg : segments k = dirs ++ [s])
    (hleads : t.Leads path b (dirs ++ [s]))
    (hbeside : t.Leads (partialPath path) b (dirs ++ [partialPath s]))
    (hdir : t.node? (b ++ dirs) = some .directory) : Ready t path b dirs s where
  leads := hleads
  beside := hbeside
  passable := h.passable hK hk hb hseg
  fits := hK.fits_partialPath hk hseg
  directory := hdir
  free := by
    rw [List.append_assoc, ← hseg]
    exact h.free hK hk
  freeBeside := by
    rw [List.append_assoc, ← segments_partialPath hseg]
    exact h.freeBeside hK hk

omit hK in
/-- Directories on the way to a key keep it tidy. -/
theorem made (hseg : segments k = dirs ++ [s]) (hmade : t.Made b dirs t') : Tidy K t₀ b t' := by
  have hlong : ∀ p, p <+: dirs → p <+: segments k ∧ p ≠ segments k := by
    intro p hp
    refine ⟨hseg ▸ hp.trans (List.prefix_append _ _), ?_⟩
    rintro rfl
    exact not_isPrefix_concat dirs s (hseg ▸ hp)
  refine ⟨h.keeps.trans hmade.kept, hmade.closed, fun p c hp => ?_, fun p hnil hp => ?_⟩
  · by_cases hway : p <+: dirs
    · rw [hmade.directory p hway] at hp
      cases hp
    · exact h.file p c (hmade.other_below hway ▸ hp)
  · by_cases hway : p <+: dirs
    · exact ⟨k, hk, hlong p hway⟩
    · exact h.directory p hnil (hmade.other_below hway ▸ hp)

/-- So do files that come and go in the place of a key and beside it. -/
theorem replaced {x : String} {n : Option Node}
    (hx : dirs ++ [x] = segments k ∨ dirs ++ [x] = segments (partialPath k))
    (hdir : t.node? (b ++ dirs) = some .directory) (hn : n ≠ some .directory)
    (hr : t.Replaced (b ++ dirs ++ [x]) n t') : Tidy K t₀ b t' := by
  have hno : t.node? (b ++ dirs ++ [x]) ≠ some .directory := by
    rw [List.append_assoc]
    obtain hx | hx := hx
    · exact hx ▸ h.free hK hk
    · exact hx ▸ h.freeBeside hK hk
  refine ⟨h.keeps.trans (hr.keeps hno), h.closed.replaced hr hdir hno, fun p c hp => ?_,
    fun p hnil hp => ?_⟩
  · by_cases heq : b ++ dirs ++ [x] = b ++ p
    · rw [List.append_assoc] at heq
      exact ⟨k, hk, List.append_cancel_left heq ▸ hx⟩
    · exact h.file p c (hr.other heq ▸ hp)
  · by_cases heq : b ++ dirs ++ [x] = b ++ p
    · rw [← heq, hr.self] at hp
      exact absurd hp hn
    · exact h.directory p hnil (hr.other heq ▸ hp)

end Tidy

/-! ## Where keys lead -/

theorem Fresh.leads (ht : Fresh d t₀ b) (hvalid : Key.isValid k = true)
    (htaken : Tree.check (partialPath (join d.base k)) = .ok ())
    (hseg : segments k = dirs ++ [s]) :
    t₀.Leads (join d.base k) b (dirs ++ [s]) ∧
      t₀.Leads (partialPath (join d.base k)) b (dirs ++ [partialPath s]) := by
  obtain ⟨habs, front, hjoin, hsteps⟩ :=
    segments_join d.base (Key.not_isAbsolute_of_isValid hvalid)
  rw [hseg, ← List.append_assoc] at hjoin
  have hne : join d.base k ≠ "" := join_ne_empty d hvalid
  have hwalk : t₀.walk (t₀.start d.base) front = .ok b :=
    walk_congr ht.directory hsteps.symm ht.walk
  have hstart : t₀.start (join d.base k) = t₀.start d.base := by
    rw [Tree.start, Tree.start, habs]
  have hstart' : t₀.start (partialPath (join d.base k)) = t₀.start d.base := by
    rw [← hstart, Tree.start, Tree.start, partialPath, isAbsolute_append hne]
  refine ⟨⟨check_of_append htaken hne, front, ?_, hstart ▸ hwalk⟩,
    ⟨htaken, front, ?_, hstart' ▸ hwalk⟩⟩
  · rw [hjoin, List.append_assoc]
  · rw [segments_partialPath hjoin, List.append_assoc]

namespace Mirrors

/-! ### How the picture changes -/

theorem made (hK : Separated d K) (h : Mirrors K t₀ b m t) (hk : k ∈ K)
    (hseg : segments k = dirs ++ [s]) (hmade : t.Made b dirs t') : Mirrors K t₀ b m t' where
  tidy := h.tidy.made hk hseg hmade
  content k' hk' := by
    rw [hmade.other_below fun hway => ?_]
    · exact h.content k' hk'
    · obtain rfl := hK.apart k' hk' k hk (hseg ▸ hway.trans (List.prefix_append _ _))
      exact not_isPrefix_concat dirs s (hseg ▸ hway)

/-- What comes and goes beside a key is not in the picture. -/
theorem replaced_beside (hK : Separated d K) (h : Mirrors K t₀ b m t) (hk : k ∈ K)
    (hseg : segments k = dirs ++ [s]) (hdir : t.node? (b ++ dirs) = some .directory)
    {n : Option Node} (hn : n ≠ some .directory)
    (hr : t.Replaced (b ++ dirs ++ [partialPath s]) n t') : Mirrors K t₀ b m t' where
  tidy := h.tidy.replaced hK hk (Or.inr (segments_partialPath hseg).symm) hdir hn hr
  content k' hk' := by
    rw [hr.other fun heq => ?_]
    · exact h.content k' hk'
    · rw [List.append_assoc, ← segments_partialPath hseg] at heq
      exact hK.beside k hk k' hk' (List.append_cancel_left heq ▸ List.prefix_refl _)

/-- What comes and goes in the place of a key is what the table holds. -/
theorem replaced (hK : Separated d K) (h : Mirrors K t₀ b m t) (hk : k ∈ K)
    (hseg : segments k = dirs ++ [s]) (hdir : t.node? (b ++ dirs) = some .directory)
    {c : Option Bytes} (hr : t.Replaced (b ++ dirs ++ [s]) (c.map .file) t')
    (hm : ∀ k', m'.get? k' = if k = k' then c else m.get? k') : Mirrors K t₀ b m' t' where
  tidy := h.tidy.replaced hK hk (Or.inl hseg.symm) hdir (by cases c <;> simp) hr
  content k' hk' := by
    rw [hm]
    by_cases heq : k = k'
    · rw [if_pos heq, ← heq, hseg, ← List.append_assoc]
      exact hr.self
    · rw [if_neg heq, hr.other fun hplace => ?_]
      · exact h.content k' hk'
      · rw [List.append_assoc, ← hseg] at hplace
        exact heq (hK.apart k hk k' hk' (List.append_cancel_left hplace ▸ List.prefix_refl _))

variable (ht : Fresh d t₀ b) (hK : Separated d K) (h : Mirrors K t₀ b m t) (hk : k ∈ K)
include ht hK h hk

/-- A key leads to its blob, or to nothing. -/
theorem locate : t.locate (join d.base k) =
    if m.contains k then .ok (b ++ segments k) else .error .notFound := by
  obtain ⟨dirs, s, hseg⟩ := exists_segments k
  have hleads := (ht.leads (hK.valid k hk) (hK.taken k hk) hseg).1.kept ht.directory h.tidy.keeps
  rw [hleads.locate_eq (h.tidy.passable hK hk ht.directory hseg), ← hseg, h.content k hk,
    Option.isSome_map]
  rfl

/-! ### Requests that change nothing -/

theorem get_eq : d.get t k = m.get k := by
  have hvalid := hK.valid k hk
  have hlocate := h.locate ht hK hk
  have hcontent := h.content k hk
  rw [Directory.get, Memory.get, pathOf_of_isValid d hvalid, Key.check_of_isValid hvalid]
  rw [Table.contains] at hlocate
  cases hget : m.get? k with
  | none =>
    rw [hget] at hlocate
    simp only [bind, Except.bind, hlocate, Option.isSome_none, Bool.false_eq_true, if_false]
    rfl
  | some c =>
    rw [hget] at hlocate hcontent
    simp only [bind, Except.bind, hlocate, hcontent, Option.isSome_some, if_true, Option.map_some]
    rfl

theorem has_eq : d.has t k = m.has k := by
  have hvalid := hK.valid k hk
  rw [Directory.has, Memory.has, pathOf_of_isValid d hvalid, Key.check_of_isValid hvalid]
  simp only [bind, Except.bind, h.locate ht hK hk]
  cases m.contains k with
  | false => rfl
  | true =>
    have hno : t.isDirectoryAt (b ++ segments k) = false :=
      decide_eq_false (h.tidy.free hK hk)
    simp only [if_true, hno]
    rfl

/-! ### Requests that change the store -/

theorem delete_agrees :
    (step t (d.delete t k)).1 = (m.step (m.delete k)).1 ∧
      Mirrors K t₀ b (m.step (m.delete k)).2 (step t (d.delete t k)).2 := by
  have hvalid := hK.valid k hk
  have hlocate := h.locate ht hK hk
  rw [Directory.delete, Memory.delete, pathOf_of_isValid d hvalid, Key.check_of_isValid hvalid]
  simp only [canRemove, bind, Except.bind, hlocate]
  cases hcontains : m.contains k with
  | false =>
    simp only [Bool.false_eq_true, if_false]
    exact ⟨rfl, h⟩
  | true =>
    obtain ⟨dirs, s, hseg⟩ := exists_segments k
    have hno : t.isDirectoryAt (b ++ segments k) = false :=
      decide_eq_false (h.tidy.free hK hk)
    have hdir : t.node? (b ++ dirs) = some .directory := by
      refine h.tidy.closed dirs s ?_
      rw [List.append_assoc, ← hseg, h.content k hk, Option.isSome_map]
      exact hcontains
    simp only [if_true, hno]
    refine ⟨rfl, h.replaced (c := none) hK hk hseg hdir ?_ (m.get?_erase k)⟩
    rw [hseg, ← List.append_assoc]
    exact replaced_erase t (by simp)

/-- **A blob is written alike**, whether it arrives in one piece or breaks
off. -/
theorem put_agrees (data : Stream) :
    (step t (d.put t k data)).1 = (m.step (m.put k data)).1 ∧
      Mirrors K t₀ b (m.step (m.put k data)).2 (step t (d.put t k data)).2 := by
  have hvalid := hK.valid k hk
  obtain ⟨dirs, s, hseg⟩ := exists_segments k
  have hb := h.tidy.keeps.directory b ht.directory
  have hp := h.tidy.passable hK hk ht.directory hseg
  obtain ⟨hleads, hbeside⟩ := ht.leads hvalid (hK.taken k hk) hseg
  replace hleads := hleads.kept ht.directory h.tidy.keeps
  replace hbeside := hbeside.kept ht.directory h.tidy.keeps
  obtain ⟨above, hmade, hput⟩ := put_eq hvalid hleads hp data
  have h₁ : Mirrors K t₀ b m (t.performAll above) := h.made hK hk hseg hmade
  have hdir := hmade.directory dirs (List.prefix_refl dirs)
  have hready : Ready (t.performAll above) (join d.base k) b dirs s :=
    h₁.tidy.ready hK hk ht.directory hseg (hleads.kept hb hmade.kept)
      (hbeside.kept hb hmade.kept) hdir
  rw [hput, Memory.put, Key.check_of_isValid hvalid]
  simp only [step, performAll_append]
  cases hdata : data.failure with
  | some e =>
    obtain ⟨hverdict, hr⟩ := write_broken hready hdata
    have hcollect : data.collect = .error e := by rw [Stream.collect, hdata]
    rw [hverdict, hcollect]
    exact ⟨rfl, h₁.replaced_beside hK hk hseg hdir (by simp) hr⟩
  | none =>
    obtain ⟨hverdict, t₂, hbeside', hr⟩ := write_whole hready hdata
    have hcollect : data.collect = .ok data.chunks.flatten := by rw [Stream.collect, hdata]
    have h₂ : Mirrors K t₀ b m t₂ := h₁.replaced_beside hK hk hseg hdir (by simp) hbeside'
    have hdir₂ := (hbeside'.keeps hready.freeBeside).directory _ hdir
    rw [hverdict, hcollect]
    exact ⟨rfl, h₂.replaced (c := some _) hK hk hseg hdir₂ hr (m.get?_insert k · _)⟩

end Mirrors

/-! ## Answers -/

/-- **What is no key is refused alike**, and nothing changes. -/
theorem serve_of_not_isValid {r : Request} (h : Key.isValid r.key = false) :
    (d.store.serve t r).1 = (Memory.store.serve m r).1 ∧
      (d.store.serve t r).2 = t ∧ (Memory.store.serve m r).2 = m := by
  have hcheck := Key.check_of_not_isValid h
  have hpath := pathOf_of_not_isValid d h
  cases r with
  | fetch key =>
    simp only [Request.key] at hcheck hpath
    simp only [Store.serve, store, Memory.store, Directory.get, Memory.get, hcheck, hpath]
    exact ⟨rfl, trivial, trivial⟩
  | put key data contentType =>
    simp only [Request.key] at hcheck hpath
    simp only [Store.serve, store, Memory.store, Directory.put, Memory.put, hcheck, hpath]
    exact ⟨rfl, rfl, rfl⟩
  | delete key =>
    simp only [Request.key] at hcheck hpath
    simp only [Store.serve, store, Memory.store, Directory.delete, Memory.delete, hcheck, hpath]
    exact ⟨rfl, rfl, rfl⟩
  | has key =>
    simp only [Request.key] at hcheck hpath
    simp only [Store.serve, store, Memory.store, Directory.has, Memory.has, hcheck, hpath]
    exact ⟨rfl, trivial, trivial⟩

/-- **One request is answered alike**, and the picture stays. -/
theorem serve_agrees (ht : Fresh d t₀ b) (hK : Separated d K) (h : Mirrors K t₀ b m t)
    {r : Request} (hr : r.key ∈ K ∨ Key.isValid r.key = false) :
    (d.store.serve t r).1 = (Memory.store.serve m r).1 ∧
      Mirrors K t₀ b (Memory.store.serve m r).2 (d.store.serve t r).2 := by
  obtain hk | hinvalid := hr
  · cases r with
    | fetch key =>
      have hget : d.get t key = m.get key := h.get_eq ht hK hk
      exact ⟨congrArg (fun r => Reply.content (r >>= Stream.collect)) hget, h⟩
    | put key data contentType =>
      obtain ⟨hreply, hmirrors⟩ := h.put_agrees ht hK hk data
      exact ⟨congrArg Reply.done hreply, hmirrors⟩
    | delete key =>
      obtain ⟨hreply, hmirrors⟩ := h.delete_agrees ht hK hk
      exact ⟨congrArg Reply.done hreply, hmirrors⟩
    | has key =>
      exact ⟨congrArg Reply.found (h.has_eq ht hK hk), h⟩
  · obtain ⟨hreply, hdirectory, hmemory⟩ :=
      serve_of_not_isValid (d := d) (t := t) (m := m) hinvalid
    rw [hdirectory, hmemory]
    exact ⟨hreply, h⟩

theorem Mirrors.answers_eq (ht : Fresh d t₀ b) (hK : Separated d K) (h : Mirrors K t₀ b m t)
    {rs : List Request} (hrs : ∀ r ∈ rs, r.key ∈ K ∨ Key.isValid r.key = false) :
    d.store.answers t rs = Memory.store.answers m rs := by
  induction rs generalizing t m with
  | nil => rfl
  | cons r rs ih =>
    obtain ⟨hreply, hmirrors⟩ := serve_agrees ht hK h (hrs r List.mem_cons_self)
    rw [Store.answers, Store.answers, hreply,
      ih hmirrors fun r hr => hrs r (List.mem_cons_of_mem _ hr)]

/-- **A store in an empty directory and an empty table answer alike**, as
long as keys keep out of each other's way: every sequence of requests about
such keys, and about texts that are no keys, gets the same answers from
both. -/
theorem answers_agree (d : Directory) (t : Tree) (b : Place) (K : Set String) (ht : Fresh d t b)
    (hK : Separated d K) (rs : List Request)
    (hrs : ∀ r ∈ rs, r.key ∈ K ∨ Key.isValid r.key = false) :
    d.store.answers t rs = Memory.store.answers Table.empty rs :=
  (mirrors_empty ht).answers_eq ht hK hrs

end Directory

end Provision.Blob

/-! ## A rehearsal -/

namespace Provision.Rehearsal

open Blob Files

/-- A store in the directory that relative paths start from. -/
def depot : Directory := ⟨"/tmp/work"⟩

/-- Nothing is there yet. -/
def floor : Tree := Tree.emptyDirectory ["tmp", "work"]

theorem floor_fresh : depot.Fresh floor ["tmp", "work"] where
  walk := by decide +kernel
  directory := by decide +kernel
  empty p hp := by
    cases p with
    | nil => exact absurd rfl hp
    | cons s p => simp [floor, Tree.emptyDirectory, Tree.node?, Table.get?, Table.insert,
        Table.putInto, Table.find?, Table.empty, List.range, List.range.loop]

/-- Two keys, one of them with a directory on its way. -/
def labels : Set String := {"rg/store/graph", "note"}

theorem labels_separated : depot.Separated labels where
  valid := by rintro k (rfl | rfl) <;> decide +kernel
  taken := by rintro k (rfl | rfl) <;> decide +kernel
  short := by rintro k (rfl | rfl) <;> decide +kernel
  apart := by rintro k (rfl | rfl) k' (rfl | rfl) <;> decide +kernel
  beside := by rintro k (rfl | rfl) k' (rfl | rfl) <;> decide +kernel

/-- A stream that breaks off, then a whole one, questions, and a text that is
no key. -/
def errands : List Request :=
  [.put "rg/store/graph" ⟨[[1], [2, 3]], some (.io (.reported "reset"))⟩ "",
    .fetch "rg/store/graph", .put "rg/store/graph" ⟨[[4], [], [5]], none⟩ "",
    .fetch "rg/store/graph", .has "note", .delete "note", .has "../note",
    .delete "rg/store/graph", .has "rg/store/graph"]

theorem answers_agree_errands :
    depot.Fresh floor ["tmp", "work"] ∧ depot.Separated labels ∧
    (∀ r ∈ errands, r.key ∈ labels ∨ Key.isValid r.key = false) ∧
    depot.store.answers floor errands =
      [.done (.error (.io (.reported "reset"))),
        .content (.error (.notFound "rg/store/graph")), .done (.ok ()),
        .content (.ok [4, 5]), .found (.ok false), .done (.error (.notFound "note")),
        .found (.error (.invalidKey "../note")), .done (.ok ()), .found (.ok false)] := by
  have hkeys : ∀ r ∈ errands, r.key ∈ labels ∨ Key.isValid r.key = false := by
    intro r hr
    simp only [errands, List.mem_cons, List.not_mem_nil, or_false] at hr
    obtain rfl | rfl | rfl | rfl | rfl | rfl | rfl | rfl | rfl := hr
    all_goals first | exact Or.inl (Or.inl rfl) | exact Or.inl (Or.inr rfl) |
      exact Or.inr (by decide +kernel)
  refine ⟨floor_fresh, labels_separated, hkeys, ?_⟩
  rw [Directory.answers_agree depot floor ["tmp", "work"] labels floor_fresh labels_separated
    errands hkeys]
  decide +kernel

/-! ### Names and paths that are too long -/

/-- A name of `n` letters. -/
def letters (n : Nat) : String := String.ofList (List.replicate n 'a')

theorem size_letters (n : Nat) : Utf8.size (letters n) = n := by
  rw [Utf8.size, Utf8.encode, letters, String.toList_ofList]
  induction n with
  | zero => rfl
  | succ n ih =>
    rw [List.replicate_succ, List.flatMap_cons, List.length_append, ih]
    exact Nat.add_comm 1 n

theorem isComponent_letters {n : Nat} (h : 2 < n) : Key.IsComponent (letters n) := by
  have hsize : ∀ s : String, Utf8.size s ≤ 2 → letters n ≠ s := by
    rintro s hs rfl
    rw [size_letters] at hs
    omega
  have hletter : ∀ c ∈ (letters n).toList, c = 'a' := by
    intro c hc
    rw [letters, String.toList_ofList] at hc
    exact List.eq_of_mem_replicate hc
  exact ⟨hsize "" (by decide), hsize "." (by decide), hsize ".." (by decide),
    fun hc => absurd (hletter _ hc) (by decide), fun hc => absurd (hletter _ hc) (by decide)⟩

/-- A name that is short enough for a directory, if not by much. -/
def wide : String := letters 250

/-- A key of many names, all of them short. -/
def deep : String := "/".intercalate (List.replicate 25 (letters 200))

theorem isComponent_of_mem : ∀ s ∈ List.replicate 25 (letters 200), Key.IsComponent s :=
  fun _ hs => List.eq_of_mem_replicate hs ▸ isComponent_letters (by decide)

theorem segments_wide : Path.segments wide = [wide] := (isComponent_letters (by decide)).segments

theorem segments_deep : Path.segments deep = List.replicate 25 (letters 200) :=
  Path.segments_intercalate (by decide) fun s hs => (isComponent_of_mem s hs).noSlash

theorem isValid_wide : Key.isValid wide = true := by
  have hone : ∀ s ∈ [wide], Key.IsComponent s := fun s hs =>
    List.mem_singleton.1 hs ▸ isComponent_letters (by decide)
  have h := Key.isValid_intercalate (List.cons_ne_nil _ _) hone
  rwa [String.intercalate_singleton] at h

theorem isValid_deep : Key.isValid deep = true :=
  Key.isValid_intercalate (by decide) isComponent_of_mem

theorem nul_notMem_letters (n : Nat) : '\x00' ∉ (letters n).toList := by
  intro hc
  rw [letters, String.toList_ofList] at hc
  exact absurd (List.eq_of_mem_replicate hc) (by decide)

theorem nul_notMem_deep : '\x00' ∉ deep.toList := by
  intro hc
  obtain hslash | ⟨s, hs, hc⟩ := Path.mem_intercalate hc
  · exact absurd hslash (by decide)
  · exact nul_notMem_letters 200 (List.eq_of_mem_replicate hs ▸ hc)

theorem join_depot {k : String} (h : Key.isValid k = true) :
    Path.join depot.base k = "/tmp/work" ++ "/" ++ k := by
  rw [Path.join, if_neg (by rw [Key.not_isAbsolute_of_isValid h]; decide), if_neg (by decide),
    if_neg (by decide)]
  rfl

/-- A file cannot have the name with `.partial` behind it, so the blob
cannot be put. -/
theorem put_wide (data : Stream) :
    (depot.put floor wide data).verdict = .error (.io (.system .nameTooLong)) := by
  have htaken : Tree.check (Directory.partialPath (Path.join depot.base wide)) = .ok () := by
    rw [join_depot isValid_wide, Directory.partialPath]
    refine Tree.check_iff.2 ⟨fun hmem => ?_, fun hempty => ?_, ?_⟩
    · simp only [String.toList_append, List.mem_append] at hmem
      obtain ((hmem | hmem) | hmem) | hmem := hmem
      · exact absurd hmem (by decide)
      · exact absurd hmem (by decide)
      · exact nul_notMem_letters 250 hmem
      · exact absurd hmem (by decide)
    · have hsize := congrArg Utf8.size hempty
      simp only [Path.size_append, wide, size_letters] at hsize
      exact absurd hsize (by decide)
    · simp only [Path.size_append, wide, size_letters]
      decide
  have hfits : Tree.Fits wide :=
    ⟨Key.step?_of_mem_segments isValid_wide (segments_wide ▸ List.mem_singleton_self _),
      by rw [wide, size_letters]; decide⟩
  have hseg : Path.segments wide = [] ++ [wide] := segments_wide
  obtain ⟨hleads, hbeside⟩ := floor_fresh.leads isValid_wide htaken hseg
  refine Directory.put_of_long isValid_wide hleads hbeside
    (floor_fresh.passable fun s hs => List.mem_singleton.1 hs ▸ hfits) ?_ data
  rw [Directory.partialPath, Path.size_append, wide, size_letters]
  decide

/-- The path of the key is too long, so it cannot even be asked for. -/
theorem has_deep : depot.has floor deep = .error (.io (.system .nameTooLong)) := by
  refine Directory.has_of_long floor isValid_deep ?_ ?_ <;> rw [join_depot isValid_deep]
  · intro hmem
    simp only [String.toList_append, List.mem_append] at hmem
    obtain (hmem | hmem) | hmem := hmem
    · exact absurd hmem (by decide)
    · exact absurd hmem (by decide)
    · exact nul_notMem_deep hmem
  · have hle := Path.sum_size_le (List.replicate 25 (letters 200))
    rw [List.map_replicate, size_letters, List.sum_replicate_nat] at hle
    rw [Path.size_append, deep]
    have hlimit : Tree.pathLimit = 4096 := rfl
    omega

/-- A table takes every key. -/
theorem answers_empty {k : String} (h : Key.isValid k = true) :
    Memory.store.answers Table.empty [.put k (.once []) ""] = [.done (.ok ())] ∧
    Memory.store.answers Table.empty [.has k] = [.found (.ok false)] := by
  constructor <;>
    simp only [Store.answers, Store.serve, Memory.store, Memory.put, Memory.has,
      Key.check_of_isValid h] <;> rfl

theorem answers_put (t : Tree) (k : String) (data : Stream) :
    depot.store.answers t [.put k data ""] = [.done (depot.put t k data).verdict] := rfl

theorem answers_has (t : Tree) (k : String) :
    depot.store.answers t [.has k] = [.found (depot.has t k)] := rfl

/-- **Short names are not enough.** Either key is valid, all its names are
short enough for a directory, and it is not in its own way; still the store
in the directory refuses what the one in memory answers. -/
theorem answers_differ :
    (∀ k ∈ [wide, deep], Key.isValid k = true ∧ '\x00' ∉ k.toList ∧
      (∀ s ∈ Path.segments k, Utf8.size s ≤ Tree.nameLimit) ∧
      ¬ Path.segments (Directory.partialPath k) <+: Path.segments k) ∧
    depot.store.answers floor [.put wide (.once []) ""] =
      [.done (.error (.io (.system .nameTooLong)))] ∧
    Memory.store.answers Table.empty [.put wide (.once []) ""] = [.done (.ok ())] ∧
    depot.store.answers floor [.has deep] = [.found (.error (.io (.system .nameTooLong)))] ∧
    Memory.store.answers Table.empty [.has deep] = [.found (.ok false)] := by
  refine ⟨fun k hk => ?_, ?_, (answers_empty isValid_wide).1, ?_, (answers_empty isValid_deep).2⟩
  · simp only [List.mem_cons, List.not_mem_nil, or_false] at hk
    obtain rfl | rfl := hk
    · refine ⟨isValid_wide, nul_notMem_letters 250, fun s hs => ?_,
        Directory.not_isPrefix_partialPath _⟩
      rw [segments_wide, List.mem_singleton] at hs
      rw [hs, wide, size_letters]
      decide
    · refine ⟨isValid_deep, nul_notMem_deep, fun s hs => ?_, Directory.not_isPrefix_partialPath _⟩
      rw [segments_deep] at hs
      rw [List.eq_of_mem_replicate hs, size_letters]
      decide
  · rw [answers_put, put_wide]
  · rw [answers_has, has_deep]

end Provision.Rehearsal
