import Provision.Settings
import Provision.Proofs.Json.Mixing
import Provision.Proofs.Json.Natural
/-!
# Settings — a document overlays the defaults

A document says as much of some settings as its author likes: any of the
leaves, in any order, in any spelling, and among members of other names
that nobody reads (`Tells`). Sections and leaves default apart from each
other. In the end **every leaf that the document says is as it says, and
every other one stays as it was** (`ofDocument_tells`), and settings that are
written say all of themselves (`tells_write`).
-/

namespace Provision.Settings

open Json

/-! ## Leaves -/

/-- The leaves of settings. -/
inductive Leaf where
  | root
  | keyEnv
  | conditionPoll
  | authorizationPoll
  | authorizationRetry
  deriving DecidableEq

/-- The sections that they stand in. -/
inductive Section where
  | storage
  | encryption
  | steps
  deriving DecidableEq

/-- What a leaf holds. -/
inductive Value where
  | text (s : String)
  | milliseconds (n : Nat)

namespace Leaf

/-- The section of a leaf. -/
def owner : Leaf → Section
  | .root => .storage
  | .keyEnv => .encryption
  | _ => .steps

/-- The name of a leaf. -/
def name : Leaf → String
  | .root => "root"
  | .keyEnv => "key_env"
  | .conditionPoll => "condition_poll_interval_ms"
  | .authorizationPoll => "authorization_poll_interval_ms"
  | .authorizationRetry => "authorization_retry_timeout_ms"

theorem name_injective : Function.Injective name := by
  intro l l' h
  cases l <;> cases l' <;> first | rfl | exact absurd h (by decide)

/-- What a leaf of settings holds. -/
def get (c : Settings) : Leaf → Value
  | .root => .text c.storage.root
  | .keyEnv => .text c.encryption.keyEnv
  | .conditionPoll => .milliseconds c.steps.conditionPoll
  | .authorizationPoll => .milliseconds c.steps.authorizationPoll
  | .authorizationRetry => .milliseconds c.steps.authorizationRetry

end Leaf

namespace Section

/-- The leaves of a section. -/
def leaves : Section → List Leaf
  | .storage => [.root]
  | .encryption => [.keyEnv]
  | .steps => [.conditionPoll, .authorizationPoll, .authorizationRetry]

/-- All sections. -/
def all : List Section := [.storage, .encryption, .steps]

/-- The name of a section. -/
def name : Section → String
  | .storage => "storage"
  | .encryption => "encryption"
  | .steps => "steps"

theorem name_injective : Function.Injective name := by
  intro p p' h
  cases p <;> cases p' <;> first | rfl | exact absurd h (by decide)

end Section

theorem owner_of_mem {l : Leaf} {p : Section} (h : l ∈ p.leaves) : l.owner = p := by
  cases p <;> cases l <;> first | rfl | simp [Section.leaves] at h

/-- Every number of milliseconds fits a word. -/
def Fits (c : Settings) : Prop :=
  ∀ l n, Leaf.get c l = .milliseconds n → n < Numeral.wordLimit

/-- `c` on the leaves of `S`, and `d` on all others. -/
def patch (S : Leaf → Bool) (c d : Settings) : Settings where
  storage := ⟨if S .root then c.storage.root else d.storage.root⟩
  encryption := ⟨if S .keyEnv then c.encryption.keyEnv else d.encryption.keyEnv⟩
  steps :=
    ⟨if S .conditionPoll then c.steps.conditionPoll else d.steps.conditionPoll,
      if S .authorizationPoll then c.steps.authorizationPoll else d.steps.authorizationPoll,
      if S .authorizationRetry then c.steps.authorizationRetry else d.steps.authorizationRetry⟩

theorem get_patch (S : Leaf → Bool) (c d : Settings) (l : Leaf) :
    l.get (patch S c d) = l.get (if S l then c else d) := by
  cases l <;> simp only [Leaf.get, patch] <;> split <;> rfl

/-- Settings are what their leaves hold. -/
theorem ext_leaves {c d : Settings} (h : ∀ l : Leaf, l.get c = l.get d) : c = d := by
  obtain ⟨⟨_⟩, ⟨_⟩, ⟨_, _, _⟩⟩ := c
  obtain ⟨⟨_⟩, ⟨_⟩, ⟨_, _, _⟩⟩ := d
  have hroot := h .root
  have hkey := h .keyEnv
  have hcond := h .conditionPoll
  have hpoll := h .authorizationPoll
  have hretry := h .authorizationRetry
  simp only [Leaf.get, Value.text.injEq, Value.milliseconds.injEq] at hroot hkey hcond hpoll hretry
  subst hroot hkey hcond hpoll hretry
  rfl

/-! ## Documents that say some of it -/

/-- A text stands for what a leaf holds: any spelling of a string, and the
digits of a number. -/
def Value.Stands : Value → String → Prop
  | .text s, written => Quotes written s
  | .milliseconds n, written => written = Writer.natural n

/-- A text says as much of a section as `S` has of it: an object with these
leaves and any members of other names. -/
def Section.Tells (c : Settings) (S : Leaf → Bool) (p : Section) (text : String) : Prop :=
  ∃ (leafText : Leaf → String) (ms : List (String × String)),
    Object ms (Utf8.encode text) ∧
    (∀ l, S l = true → l.owner = p → (l.get c).Stands (leafText l)) ∧
    Mixes ((p.leaves.filter S).map fun l => (l.name, leafText l)) (p.leaves.map Leaf.name) ms

/-- **A document says `S` of some settings**: it is an object with at least
the sections in which `S` has leaves, and any members of other names. -/
def Tells (c : Settings) (S : Leaf → Bool) (document : Bytes) : Prop :=
  ∃ (present : Section → Bool) (sectionText : Section → String) (ms : List (String × String)),
    ObjectDocument ms document ∧
    (∀ l, S l = true → present l.owner = true) ∧
    (∀ p, present p = true → p.Tells c S (sectionText p)) ∧
    Mixes ((Section.all.filter present).map fun p => (p.name, sectionText p))
      (Section.all.map Section.name) ms

/-! ## Sections -/

variable {c d : Settings} {S : Leaf → Bool} {home text : String}

theorem nodup_leaves (p : Section) : (p.leaves.map Leaf.name).Nodup := by
  cases p <;> decide

/-- **A section is read as its leaves make it**, if each leaf that it says is
read as what it holds, and changes nothing else. -/
theorem Section.Tells.takes {σ : Type} {r : Record σ σ} {p : Section} (h : p.Tells c S text)
    (val : (Leaf → Bool) → σ) (hr : r.extensible = true) (hnames : r.names = p.leaves.map Leaf.name)
    (hstart : r.start = val fun _ => false) (hfinish : ∀ s, r.finish s = .ok s)
    (hval : ∀ S S' : Leaf → Bool, (∀ l ∈ p.leaves, S l = S' l) → val S = val S')
    (hleaf : ∀ l ∈ p.leaves, ∀ written, (l.get c).Stands written → ∃ f change,
      r.fields.find? (fun f => f.name = l.name) = some f ∧ Takes f.read written change ∧
        ∀ S', change (val S') = val fun j => j = l || S' j) :
    Takes r.read text (val S) := by
  obtain ⟨leafText, ms, hobject, htells, hmix⟩ := h
  rw [← hnames] at hmix
  obtain ⟨names, hfolds⟩ := Folds.chosen val hr hnames (nodup_leaves p) Leaf.name_injective hstart
    hval (fun l hl hS => hleaf l hl _ (htells l hS (owner_of_mem hl))) hmix
  exact fun ws rest hws _ => record_spelled hobject hfolds (hfinish _) hws

/-- The section on storage is read. -/
theorem takes_storage (h : Section.storage.Tells c S text) :
    Takes (Storage.record home).read text (patch S c (standard home)).storage := by
  refine h.takes (fun S => (patch S c (standard home)).storage) rfl rfl rfl (fun _ => rfl)
    (fun S S' hS => by simp only [patch, hS .root (by decide)]) fun l hl written hstands => ?_
  obtain rfl : l = .root := List.mem_singleton.1 hl
  have htext : Takes (Reader.text "path string") written c.storage.root := takes_text _ hstands
  exact ⟨_, _, rfl, htext.map fun s (_ : Storage) => Storage.mk s, fun S' => by simp [patch]⟩

/-- The section on encryption is read. -/
theorem takes_encryption (h : Section.encryption.Tells c S text) :
    Takes Encryption.record.read text (patch S c (standard home)).encryption := by
  refine h.takes (fun S => (patch S c (standard home)).encryption) rfl rfl rfl (fun _ => rfl)
    (fun S S' hS => by simp only [patch, hS .keyEnv (by decide)]) fun l hl written hstands => ?_
  obtain rfl : l = .keyEnv := List.mem_singleton.1 hl
  have htext : Takes (Reader.text "a string") written c.encryption.keyEnv := takes_text _ hstands
  exact ⟨_, _, rfl, htext.map fun s (_ : Encryption) => Encryption.mk s, fun S' => by simp [patch]⟩

/-- A number of milliseconds is read into a record. -/
theorem takes_milliseconds {σ : Type} {n : Nat} (hn : n < Numeral.wordLimit) (name : String)
    (put : Nat → σ → σ) (h : (Value.milliseconds n).Stands text) :
    Takes (milliseconds name put).read text (put n) := by
  obtain rfl : text = Writer.natural n := h
  exact (takes_natural "u64" hn (Nat.le_refl _)).map put

/-- The section on steps is read. -/
theorem takes_steps (hc : c.Fits) (h : Section.steps.Tells c S text) :
    Takes StepDefaults.record.read text (patch S c (standard home)).steps := by
  refine h.takes (fun S => (patch S c (standard home)).steps) rfl rfl rfl (fun _ => rfl)
    (fun S S' hS => ?_) fun l hl written hstands => ?_
  · simp only [patch, hS .conditionPoll (by decide), hS .authorizationPoll (by decide),
      hS .authorizationRetry (by decide)]
  · have hleaf {n : Nat} (name : String) (put : Nat → StepDefaults → StepDefaults)
        (hn : l.get c = .milliseconds n) : Takes (milliseconds name put).read written (put n) :=
      takes_milliseconds (hc l n hn) name put (hn ▸ hstands)
    have hl' : l = .conditionPoll ∨ l = .authorizationPoll ∨ l = .authorizationRetry := by
      simpa [Section.leaves] using hl
    rcases hl' with rfl | rfl | rfl <;>
      exact ⟨_, _, rfl, hleaf _ _ rfl, fun S' => by simp [patch]⟩

/-! ## Documents -/

/-- `c` in the sections that are present, and `d` in all others. -/
def pick (present : Section → Bool) (c d : Settings) : Settings where
  storage := if present .storage then c.storage else d.storage
  encryption := if present .encryption then c.encryption else d.encryption
  steps := if present .steps then c.steps else d.steps

theorem get_pick (present : Section → Bool) (c d : Settings) (l : Leaf) :
    l.get (pick present c d) = l.get (if present l.owner then c else d) := by
  cases l <;> simp only [Leaf.get, Leaf.owner, pick] <;> split <;> simp [*]

/-- A section that is not there has no leaf to say. -/
theorem pick_patch {present : Section → Bool} (h : ∀ l, S l = true → present l.owner = true) :
    pick present (patch S c d) d = patch S c d := by
  refine ext_leaves fun l => ?_
  rw [get_pick]
  cases hp : present l.owner with
  | true => rfl
  | false =>
    have hS : S l = false := Bool.eq_false_iff.2 fun hS => by
      rw [h l hS] at hp
      cases hp
    rw [get_patch, hS]
    rfl

/-- **What a document says overlays the defaults.** -/
theorem ofDocument_tells {document : String} (hc : c.Fits) (h : Tells c S (Utf8.encode document)) :
    ofDocument home document = .ok (patch S c (standard home)) := by
  obtain ⟨present, sectionText, ms, hdocument, hpresent, hsections, hmix⟩ := h
  obtain ⟨ws, object, ws', hws, hws', hdoc, hobject⟩ := hdocument
  have hnames : (record home).names = Section.all.map Section.name := rfl
  obtain ⟨names, hfolds⟩ := Folds.chosen
    (fun present => pick present (patch S c (standard home)) (standard home)) rfl hnames
    (by decide) Section.name_injective rfl
    (fun S S' hS => by
      simp only [pick, hS .storage (by decide), hS .encryption (by decide), hS .steps (by decide)])
    (fun p hp hS => by
      cases p with
      | storage =>
        have htext : Takes _ _ (patch S c (standard home)).storage := takes_storage (hsections _ hS)
        exact ⟨_, _, rfl, htext.map fun a (s : Settings) => { s with storage := a },
          fun S' => by simp [pick]⟩
      | encryption =>
        have htext : Takes _ _ (patch S c (standard home)).encryption :=
          takes_encryption (hsections _ hS)
        exact ⟨_, _, rfl, htext.map fun a (s : Settings) => { s with encryption := a },
          fun S' => by simp [pick]⟩
      | steps =>
        have htext : Takes _ _ (patch S c (standard home)).steps := takes_steps hc (hsections _ hS)
        exact ⟨_, _, rfl, htext.map fun a (s : Settings) => { s with steps := a },
          fun S' => by simp [pick]⟩) hmix
  rw [pick_patch hpresent] at hfolds
  have hread : Json.document (record home).read (Utf8.encode document) =
      .ok (patch S c (standard home)) := by
    rw [hdoc]
    exact document_eq_ok_iff.2 ⟨ws', hws', record_spelled hobject hfolds rfl hws⟩
  rw [ofDocument, hread]
  rfl

/-! ## What is written -/

/-- How what a leaf holds is written. -/
def Value.write : Value → String
  | .text s => Writer.text s
  | .milliseconds n => Writer.natural n

theorem stands_write (v : Value) : v.Stands v.write := by
  cases v with
  | text s => exact quotes_text s
  | milliseconds n => rfl

/-- How a section is written. -/
def Section.write (c : Settings) (p : Section) : String :=
  Writer.object (p.leaves.map fun l => (l.name, (l.get c).write))

theorem mixes_refl (fields : List (String × String)) (known : List String) :
    Mixes fields known fields :=
  ⟨[], by rw [List.append_nil], fun _ h => by cases h⟩

/-- **What is written says everything.** -/
theorem tells_write (c : Settings) : Tells c (fun _ => true) (Utf8.encode c.write) := by
  have hsections : ∀ p, Section.Tells c (fun _ => true) p (p.write c) := fun p => by
    refine ⟨fun l => (l.get c).write, _, object_written _, fun l _ _ => stands_write _, ?_⟩
    rw [List.filter_eq_self.2 fun _ _ => rfl]
    exact mixes_refl _ _
  refine ⟨fun _ => true, fun p => p.write c, _, objectDocument_written _, fun _ _ => rfl,
    fun p _ => hsections p, ?_⟩
  exact mixes_refl _ _

theorem patch_all (c d : Settings) : patch (fun _ => true) c d = c :=
  ext_leaves fun l => get_patch _ c d l

/-- **A document overlays exactly what it says.** Whatever it says of some
settings, in whatever order and spelling and among whatever other members,
it is read as the settings that have these leaves from there and all others
from the defaults; and what is written is read as it was. -/
theorem document_overlays (home : String) (c : Settings) (hc : c.Fits) :
    (∀ (S : Leaf → Bool) (document : String), Tells c S (Utf8.encode document) →
      ∃ s, ofDocument home document = .ok s ∧
        ∀ l : Leaf, l.get s = l.get (if S l then c else standard home)) ∧
    ofDocument home c.write = .ok c := by
  refine ⟨fun S document h => ⟨_, ofDocument_tells hc h, get_patch S c _⟩, ?_⟩
  rw [ofDocument_tells hc (tells_write c), patch_all]

end Provision.Settings

/-! ## A rehearsal -/

namespace Provision.Rehearsal

open Json Settings

/-- Settings of which a document is to say two leaves. -/
def farSettings : Settings :=
  ⟨⟨"a😀"⟩, ⟨"KEY"⟩, ⟨18446744073709551615, 1, 2⟩⟩

/-- The two leaves. -/
def twoLeaves : Leaf → Bool
  | .root => true
  | .conditionPoll => true
  | _ => false

/-- How their sections are spelled. -/
def farSection : Section → String
  | .storage => "\x7b\"root\":\"\\u0061\\ud83d\\ude00\"\x7d"
  | .encryption => ""
  | .steps =>
    "\x7b \"unknown\" : null, \"condition_poll_interval_ms\" : 18446744073709551615 ," ++
      " \"x\":\"y\"\x7d"

/-- The document: sections in another order, and a member of no section. -/
def farDocument : String :=
  " \x7b\"extra\":[1,\x7b\"root\":2\x7d], \"steps\":" ++ farSection .steps ++
    " , \"sto\\u0072age\":" ++ farSection .storage ++ "\x7d\n"

/-- How the leaves are spelled. -/
def farLeaf : Leaf → String
  | .root => "\"\\u0061\\ud83d\\ude00\""
  | _ => "18446744073709551615"

theorem farSettings_fits : farSettings.Fits := by
  intro l n h
  cases l with
  | root => cases h
  | keyEnv => cases h
  | _ =>
    cases h
    decide

theorem farDocument_tells : Tells farSettings twoLeaves (Utf8.encode farDocument) := by
  have hdocument : (members? (Utf8.encode farDocument)).toOption =
      some [("extra", "[1,\x7b\"root\":2\x7d]"), ("steps", farSection .steps),
        ("storage", farSection .storage)] := by decide +kernel
  have hstorage : (members? (Utf8.encode (farSection .storage))).toOption =
      some [("root", farLeaf .root)] := by decide +kernel
  have hsteps : (members? (Utf8.encode (farSection .steps))).toOption =
      some [("unknown", "null"), ("condition_poll_interval_ms", farLeaf .conditionPoll),
        ("x", "\"y\"")] := by decide +kernel
  obtain ⟨hobject, hvalues⟩ := members?_eq_ok_iff.1 (ok_of_toOption hdocument)
  obtain ⟨hstorage, -⟩ := members?_eq_ok_iff.1 (ok_of_toOption hstorage)
  obtain ⟨hsteps, hothers⟩ := members?_eq_ok_iff.1 (ok_of_toOption hsteps)
  have hstands : ∀ l, twoLeaves l = true → (l.get farSettings).Stands (farLeaf l) := by
    intro l hl
    cases l with
    | root =>
      have hread : (Json.text (Utf8.encode (farLeaf .root)).tail).toOption = some ("a😀", []) := by
        decide +kernel
      exact quotes_of_text rfl (ok_of_toOption hread)
    | conditionPoll =>
      have hnumber : farLeaf .conditionPoll = Writer.natural 18446744073709551615 := by
        decide +kernel
      exact hnumber
    | _ => cases hl
  -- a section stands in the document without white space around it
  have hsection : ∀ p ms, ObjectDocument ms (Utf8.encode (farSection p)) →
      (p.name, farSection p) ∈ [("extra", "[1,\x7b\"root\":2\x7d]"), ("steps", farSection .steps),
        ("storage", farSection .storage)] → Object ms (Utf8.encode (farSection p)) :=
    fun p ms h hm => h.object (hvalues _ hm).trimmed
  refine ⟨fun p => p ≠ .encryption, farSection, _, hobject, fun l hl => ?_, fun p hp => ?_,
    [("extra", "[1,\x7b\"root\":2\x7d]")], by decide +kernel, ?_⟩
  · cases l with
    | keyEnv => cases hl
    | _ => rfl
  · cases p with
    | storage =>
      exact ⟨farLeaf, _, hsection _ _ hstorage (by simp [Section.name]), fun l hl _ => hstands l hl,
        mixes_refl _ _⟩
    | encryption => cases hp
    | steps =>
      refine ⟨farLeaf, _, hsection _ _ hsteps (by simp [Section.name]), fun l hl _ => hstands l hl,
        [("unknown", "null"), ("x", "\"y\"")], by decide +kernel, ?_⟩
      intro m hm
      simp only [List.mem_cons, List.not_mem_nil, or_false] at hm
      rcases hm with rfl | rfl
      · exact ⟨by decide, hothers _ (by simp)⟩
      · exact ⟨by decide, hothers _ (by simp)⟩
  · intro m hm
    obtain rfl := List.mem_singleton.1 hm
    exact ⟨by decide, hvalues _ List.mem_cons_self⟩

/-- The two leaves are as the document says, and the others as one who says
nothing has them; and all come back from what is written. -/
theorem document_overlays_two :
    ∃ s, Settings.ofDocument "/home/a" farDocument = .ok s ∧
      s = ⟨⟨"a😀"⟩, ⟨"STRATUS_GRAPH_KEY"⟩, ⟨18446744073709551615, 30000, 600000⟩⟩ ∧
      Settings.ofDocument "/home/a" farSettings.write = .ok farSettings := by
  obtain ⟨htells, hwritten⟩ := document_overlays "/home/a" farSettings farSettings_fits
  obtain ⟨s, hs, hleaves⟩ := htells twoLeaves farDocument farDocument_tells
  refine ⟨s, hs, ext_leaves fun l => (hleaves l).trans ?_, hwritten⟩
  cases l <;> rfl

end Provision.Rehearsal
