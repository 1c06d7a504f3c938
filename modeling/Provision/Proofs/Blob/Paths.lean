import Provision.Proofs.Blob.Atomicity
import Provision.Proofs.Blob.Laws
import Provision.Proofs.Files.Components
/-!
# Blobs — one path for each key

A text is a key if and only if it is put together from components
(`Key.isValid_iff`), and a key is told by its components. Its path has these
behind those of the base, so **keys and paths below the base are one to one**.
A text that is no key has no path; both stores refuse it before they look at
anything (`Store.Refuses`), and they refuse nothing else in this way
(`Store.Discerns`).
-/

namespace Provision.Blob

open Files Files.Path

variable {σ : Type} {k k' path path' s : String}

/-! ## Keys -/

namespace Key

/-- **Keys are components with slashes between them**, at least one. -/
theorem isValid_iff : isValid k = true ↔
    ∃ names, names ≠ [] ∧ (∀ s ∈ names, IsComponent s) ∧ k = "/".intercalate names := by
  constructor
  · intro h
    refine ⟨segments k, segments_ne_nil k, fun s hs => ?_, (intercalate_segments k).symm⟩
    simp only [isValid, Bool.and_eq_true, decide_eq_true_eq] at h
    obtain ⟨⟨-, hback⟩, hnames⟩ := h
    have hname := List.all_eq_true.1 hnames s hs
    simp only [isName, Bool.and_eq_true, decide_eq_true_eq] at hname
    obtain ⟨⟨hnonempty, hhere⟩, habove⟩ := hname
    exact ⟨hnonempty, hhere, habove, slash_notMem hs,
      fun hc => hback (mem_of_mem_segments hs hc)⟩
  · rintro ⟨names, hne, hnames, rfl⟩
    exact isValid_intercalate hne hnames

theorem check_eq_ok_iff : check k = .ok () ↔ isValid k = true := by
  cases h : isValid k with
  | true => simp [check_of_isValid h]
  | false => simp [check_of_not_isValid h]

/-- No key begins with a `.`. -/
theorem head?_ne_here (h : isValid k = true) : (segments k).head? ≠ some "." := by
  intro hhead
  exact absurd (step?_of_mem_segments h (List.mem_of_mem_head? hhead)) (by decide)

/-- The components of a key are its names. -/
theorem components_eq (h : isValid k = true) : components k = (segments k).map .named := by
  have hnamed : ∀ s ∈ segments k, step? s = some (.named s) := fun s hs =>
    step?_of_mem_segments h hs
  rw [components_of_head? (not_isAbsolute_of_isValid h) (head?_ne_here h),
    Directory.filterMap_named hnamed]

/-- **Keys with the same components are the same.** -/
theorem eq_of_components (h : isValid k = true) (h' : isValid k' = true)
    (heq : components k = components k') : k = k' := by
  rw [components_eq h, components_eq h'] at heq
  exact segments_injective ((List.map_inj_right fun _ _ => Component.named.inj).1 heq)

end Key

/-! ## What is no key -/

/-- **A store refuses a text**, and stays as it is. -/
structure Store.Refuses (store : Store σ) (k : String) : Prop where
  get : ∀ s, store.get k s = (.error (.invalidKey k), s)
  put : ∀ data contentType s, store.put k data contentType s = (.error (.invalidKey k), s)
  delete : ∀ s, store.delete k s = (.error (.invalidKey k), s)
  has : ∀ s, store.has k s = (.error (.invalidKey k), s)

theorem Memory.refuses (h : Key.isValid k = false) : Memory.store.Refuses k := by
  have hcheck := Key.check_of_not_isValid h
  constructor
  · intro m
    simp only [Memory.store, Memory.get, hcheck]
    rfl
  · intro data contentType m
    simp only [Memory.store, Memory.step_put, hcheck]
  · intro m
    simp only [Memory.store, Memory.step_delete, hcheck]
  · intro m
    simp only [Memory.store, Memory.has, hcheck]
    rfl

/-- **A store discerns keys**: it refuses what is no key, and a put is refused
in this way for no other reason, unless the stream broke off with that error. -/
structure Store.Discerns (store : Store σ) : Prop where
  refuses : ∀ {k : String}, Key.isValid k = false → store.Refuses k
  cause : ∀ {k data contentType s k'},
    (store.put k data contentType s).1 = .error (.invalidKey k') →
      Key.isValid k = false ∨ data.failure = some (.invalidKey k')

/-- **Under a key, what comes at once is not refused for the key.** -/
theorem Store.Discerns.put_once_ne {store : Store σ} (h : store.Discerns)
    (hkey : Key.check k = .ok ()) (content : Bytes) (contentType : String) (s s₁ : σ) :
    store.put k (.once content) contentType s ≠ (.error (.invalidKey k'), s₁) := by
  intro hput
  obtain hinvalid | hfailure := h.cause (congrArg Prod.fst hput)
  · rw [Key.check_eq_ok_iff, hinvalid] at hkey
    cases hkey
  · cases hfailure

theorem Memory.discerns : Memory.store.Discerns where
  refuses := Memory.refuses
  cause {k data contentType m k'} hput := by
    cases hvalid : Key.isValid k with
    | false => exact Or.inl rfl
    | true =>
      refine Or.inr ?_
      simp only [Memory.store, Memory.step_put, Key.check_of_isValid hvalid, Stream.collect] at hput
      cases hdata : data.failure with
      | none => simp [hdata] at hput
      | some e => simpa [hdata] using hput

namespace Directory

variable {d : Directory}

theorem refuses (d : Directory) (h : Key.isValid k = false) : d.store.Refuses k := by
  have hpath := pathOf_of_not_isValid d h
  constructor
  · intro t
    simp only [store, Directory.get, hpath]
    rfl
  · intro data contentType t
    simp only [store, Directory.put, hpath]
    rfl
  · intro t
    simp only [store, Directory.delete, hpath]
    rfl
  · intro t
    simp only [store, Directory.has, hpath]
    rfl

/-! ## What is a key -/

/-- A directory that cannot be made is a trouble of the medium. -/
theorem io_of_makeDirectories {t : Tree} {cs : List Component} {e : Error}
    (h : (makeDirectories t cs).verdict = .error e) : ∃ trouble, e = .io trouble := by
  have hsettled : ∀ {t : Tree} {path : String} {e' : Files.Error},
      settled t path e' = .error e → ∃ trouble, e = .io trouble := by
    intro t path e' h
    rw [settled] at h
    split at h
    · cases h
    · exact ⟨_, (Except.error.inj h).symm⟩
  induction cs with
  | nil => cases h
  | cons c cs ih =>
    rw [makeDirectories] at h
    dsimp only at h
    split at h
    · cases h
    · split at h
      · exact ih h
      · split at h
        · cases h
        · exact hsettled h
    · exact hsettled h

theorem discerns (d : Directory) : d.store.Discerns where
  refuses := refuses d
  cause {k data contentType t k'} hput := by
    have hverdict : (d.put t k data).verdict = .error (.invalidKey k') := hput
    cases hvalid : Key.isValid k with
    | false => exact Or.inl rfl
    | true =>
      refine Or.inr ?_
      rw [put, pathOf_of_isValid d hvalid] at hverdict
      dsimp only at hverdict
      split at hverdict
      · next hmade =>
        obtain ⟨trouble, he⟩ := io_of_makeDirectories hmade
        rw [hmade, he] at hverdict
        cases hverdict
      · have hwrites := writes_write (t.performAll (makeDirectories t
          (components (join d.base k)).reverse.tail).actions) (join d.base k) data
        generalize write _ (join d.base k) data = wrote at hwrites hverdict
        cases hwrites with
        | refused => cases hverdict
        | broken _ hdata => rw [hdata, Except.error.inj hverdict]
        | unmoved => cases hverdict
        | moved => cases hverdict

/-! ## The paths of keys -/

theorem pathOf_eq_ok_iff : d.pathOf k = .ok path ↔ Key.isValid k = true ∧ path = join d.base k := by
  cases h : Key.isValid k with
  | true => simp [pathOf_of_isValid d h, eq_comm]
  | false => simp [pathOf_of_not_isValid d h]

/-- **The path of a key** is that of the base and goes on by that of the
key. -/
theorem components_join (d : Directory) (h : Key.isValid k = true) :
    components (join d.base k) = components d.base ++ components k :=
  Path.components_join (Key.not_isAbsolute_of_isValid h) (Key.head?_ne_here h)

/-- **Keys and the paths below a base directory are one to one.** A text is a
key if and only if it is put together from one or more components. A key has
a path: its components are those of the base, and behind them those of the
key, of which there is at least one, and they are names; so in each tree its
place is below that of the base. Different keys have different paths, and
different places. A text that is no key is refused by both stores, whatever is
asked, and nothing changes. -/
theorem keys_one_to_one (d : Directory) :
    (∀ k, Key.check k = .ok () ↔
      ∃ names, names ≠ [] ∧ (∀ s ∈ names, Key.IsComponent s) ∧ k = "/".intercalate names) ∧
    (∀ k, Key.check k = .ok () → ∃ path names, d.pathOf k = .ok path ∧ names ≠ [] ∧
      components k = names.map .named ∧ components path = components d.base ++ components k ∧
      ∀ t : Tree, t.place path = t.place d.base ++ names) ∧
    (∀ k k' path path', d.pathOf k = .ok path → d.pathOf k' = .ok path' → k ≠ k' →
      same path path' = false ∧ ∀ t : Tree, t.place path ≠ t.place path') ∧
    ∀ k, Key.check k ≠ .ok () → Memory.store.Refuses k ∧ d.store.Refuses k := by
  refine ⟨fun k => Key.check_eq_ok_iff.trans Key.isValid_iff, fun k hk => ?_,
    fun k k' path path' h h' hne => ?_, fun k hk => ?_⟩
  · have hvalid := Key.check_eq_ok_iff.1 hk
    exact ⟨join d.base k, segments k, pathOf_of_isValid d hvalid, segments_ne_nil k,
      Key.components_eq hvalid, components_join d hvalid, fun t => place_join d t hvalid⟩
  · obtain ⟨hvalid, rfl⟩ := pathOf_eq_ok_iff.1 h
    obtain ⟨hvalid', rfl⟩ := pathOf_eq_ok_iff.1 h'
    refine ⟨decide_eq_false fun heq => hne ?_, fun t => place_join_ne d t hvalid hvalid' hne⟩
    rw [components_join d hvalid, components_join d hvalid'] at heq
    exact Key.eq_of_components hvalid hvalid' (List.append_cancel_left heq)
  · have hinvalid : Key.isValid k = false := by
      rw [Bool.eq_false_iff]
      exact fun h => hk (Key.check_eq_ok_iff.2 h)
    exact ⟨Memory.refuses hinvalid, refuses d hinvalid⟩

end Directory

end Provision.Blob

/-! ## A rehearsal -/

namespace Provision.Rehearsal

open Blob Files.Path

/-- A base directory, spelled with more than it takes. -/
def lodge : Directory := ⟨"./stores//rg/."⟩

/-- Of two keys that differ in a slash the paths begin alike, and are not the
same; a text with two slashes in a row is refused. -/
theorem keys_one_to_one_lodge :
    lodge.pathOf "one/graph" = .ok "./stores//rg/./one/graph" ∧
      components "./stores//rg/./one/graph" = components lodge.base ++ components "one/graph" ∧
      components lodge.base = [.here, .named "stores", .named "rg"] ∧
      same "./stores//rg/./one/graph" "./stores//rg/./one.graph" = false ∧
      Memory.store.Refuses "one//graph" ∧ lodge.store.Refuses "one//graph" := by
  obtain ⟨-, hplaced, happart, hrefused⟩ := Directory.keys_one_to_one lodge
  have hpath : lodge.pathOf "one/graph" = .ok "./stores//rg/./one/graph" := by decide +kernel
  have hother : lodge.pathOf "one.graph" = .ok "./stores//rg/./one.graph" := by decide +kernel
  obtain ⟨path, -, hok, -, -, hcomponents, -⟩ := hplaced "one/graph" (by decide +kernel)
  obtain rfl : "./stores//rg/./one/graph" = path := Except.ok.inj (hpath.symm.trans hok)
  exact ⟨hpath, hcomponents, by decide +kernel, (happart _ _ _ _ hpath hother (by decide)).1,
    hrefused "one//graph" (by decide +kernel)⟩

end Provision.Rehearsal
