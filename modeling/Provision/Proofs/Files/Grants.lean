import Provision.Proofs.Files.Change
/-!
# Files — actions that are granted

An action comes after a question, and the question has found all that the
action relies on (`Grants`): a directory around, no directory in the place, a
file to be taken along. What is granted **takes no directory away, leaves the
tree in order, and touches no file but its own** (`keeps`, `closed`,
`file?_eq`), and so does any number of granted actions, one after the other
(`Granted`).
-/

namespace Provision.Files.Tree

variable {t t' : Tree} {p q b : Place} {a : Action} {as as' : List Action}

/-- The places whose files an action may change. -/
def Action.files : Action → List Place
  | .makeDirectory _ => []
  | .create p => [p]
  | .append p _ => [p]
  | .sync _ => []
  | .rename p q => [p, q]
  | .remove p => [p]

/-- Whether an action moves a file. -/
def Action.isRename : Action → Bool
  | .rename _ _ => true
  | _ => false

/-! ## One action -/

/-- **The tree grants an action.** -/
inductive Grants (t : Tree) : Action → Prop
  /-- A directory is made in a directory, where nothing stands. -/
  | makeDirectory {p : Place} (hin : t.InDirectory p) (hfree : t.node? p = none) :
      Grants t (.makeDirectory p)
  /-- A file is written in a directory, where no directory stands. -/
  | create {p : Place} (hin : t.InDirectory p) (hno : t.node? p ≠ some .directory) :
      Grants t (.create p)
  /-- What is written to is a file. -/
  | append {p : Place} {content : Bytes} (bs : Bytes) (hfile : t.node? p = some (.file content)) :
      Grants t (.append p bs)
  | sync {p : Place} : Grants t (.sync p)
  /-- A file gets another place in a directory, where no directory stands. -/
  | rename {p q : Place} {content : Bytes} (hfile : t.node? p = some (.file content))
      (hne : p ≠ q) (hin : t.InDirectory q) (hno : t.node? q ≠ some .directory) :
      Grants t (.rename p q)
  /-- What is removed is a file. -/
  | remove {p : Place} {content : Bytes} (hfile : t.node? p = some (.file content)) :
      Grants t (.remove p)

theorem ne_nil_of_file {content : Bytes} (h : t.node? p = some (.file content)) : p ≠ [] := by
  rintro rfl
  cases h

theorem not_directory_of_file {content : Bytes} (h : t.node? p = some (.file content)) :
    t.node? p ≠ some .directory := by
  rw [h]
  simp

theorem file?_of_node? {content : Bytes} (h : t.node? p = some (.file content)) :
    t.file? p = some content := by
  rw [file?, h]

theorem node?_of_file? {content : Bytes} (h : t.file? p = some content) :
    t.node? p = some (.file content) := by
  rw [file?] at h
  split at h
  · next hfile =>
    obtain rfl := Option.some.inj h
    exact hfile
  · cases h

theorem Replaced.file?_eq {n : Option Node} (h : t.Replaced q n t') (hne : q ≠ p) :
    t'.file? p = t.file? p := by
  rw [file?, file?, h.other hne]

/-- A file that is written to is longer by what was written. -/
theorem replaced_append {content : Bytes} (bs : Bytes) (hfile : t.node? p = some (.file content)) :
    t.Replaced p (some (.file (content ++ bs))) (t.perform (.append p bs)) :=
  perform_append_of_file (ne_nil_of_file hfile) hfile

/-- A move is a file less in the one place, and then a file in the other. -/
theorem replaced_rename {content : Bytes} (hfile : t.node? p = some (.file content)) (hne : p ≠ q)
    (hin : t.InDirectory q) (hno : t.node? q ≠ some .directory) :
    ∃ t₁, t.Replaced p none t₁ ∧ t₁.InDirectory q ∧ t₁.node? q ≠ some .directory ∧
      t₁.Replaced q (some (.file content)) (t.perform (.rename p q)) := by
  obtain ⟨t₁, htaken, hput⟩ := perform_rename (ne_nil_of_file hfile) hin.ne_nil hfile
  have hkeeps : t.Keeps t₁ := htaken.keeps (not_directory_of_file hfile)
  obtain ⟨dir, s, rfl, hdir⟩ := hin
  refine ⟨t₁, htaken, ⟨dir, s, rfl, hkeeps.directory dir hdir⟩, ?_, hput⟩
  rw [htaken.other hne]
  exact hno

namespace Grants

/-- **No directory is taken away.** -/
theorem keeps (h : t.Grants a) : t.Keeps (t.perform a) := by
  cases h with
  | makeDirectory hin hfree =>
    have hr := replaced_insert t hin.ne_nil .directory
    exact hr.keeps (by rw [hfree]; simp)
  | create hin hno => exact (replaced_insert t hin.ne_nil (.file [])).keeps hno
  | append bs hfile => exact (replaced_append bs hfile).keeps (not_directory_of_file hfile)
  | sync => exact .refl t
  | rename hfile hne hin hno =>
    obtain ⟨t₁, htaken, -, hno₁, hput⟩ := replaced_rename hfile hne hin hno
    exact (htaken.keeps (not_directory_of_file hfile)).trans (hput.keeps hno₁)
  | remove hfile =>
    exact (replaced_erase t (ne_nil_of_file hfile)).keeps (not_directory_of_file hfile)

/-- **Whatever stands in a directory still does.** -/
theorem closed (h : t.Grants a) (hb : t.ClosedBelow b) : (t.perform a).ClosedBelow b := by
  cases h with
  | makeDirectory hin hfree =>
    have hr := replaced_insert t hin.ne_nil .directory
    exact hb.of_replaced hr (by rw [hfree]; simp) fun _ => Or.inr hin
  | create hin hno =>
    exact hb.of_replaced (replaced_insert t hin.ne_nil (.file [])) hno fun _ => Or.inr hin
  | append bs hfile =>
    have hr := replaced_append bs hfile
    exact hb.of_replaced hr (not_directory_of_file hfile) fun _ => Or.inl (by rw [hfile]; rfl)
  | sync => exact hb
  | rename hfile hne hin hno =>
    obtain ⟨t₁, htaken, hin₁, hno₁, hput⟩ := replaced_rename hfile hne hin hno
    have hb₁ : t₁.ClosedBelow b :=
      hb.of_replaced htaken (not_directory_of_file hfile) fun hsome => (by cases hsome)
    exact hb₁.of_replaced hput hno₁ fun _ => Or.inr hin₁
  | remove hfile =>
    have hr := replaced_erase t (ne_nil_of_file hfile)
    exact hb.of_replaced hr (not_directory_of_file hfile) fun hsome => (by cases hsome)

/-- **No file changes but those of the action.** -/
theorem file?_eq (h : t.Grants a) (hp : p ∉ a.files) : (t.perform a).file? p = t.file? p := by
  cases h with
  | @makeDirectory q hin hfree =>
    have hr := replaced_insert t hin.ne_nil .directory
    by_cases heq : q = p
    · -- there was nothing, and a directory is no file
      subst heq
      change Tree.file? { t with nodes := _ } q = _
      rw [file?, file?, hr.self, hfree]
    · exact hr.file?_eq heq
  | create hin hno =>
    have hr := replaced_insert t hin.ne_nil (.file [])
    exact hr.file?_eq fun heq => hp (heq ▸ List.mem_singleton_self _)
  | append bs hfile =>
    have hr := replaced_append bs hfile
    exact hr.file?_eq fun heq => hp (heq ▸ List.mem_singleton_self _)
  | sync => rfl
  | rename hfile hne hin hno =>
    obtain ⟨t₁, htaken, -, -, hput⟩ := replaced_rename hfile hne hin hno
    rw [hput.file?_eq fun heq => hp (by simp [Action.files, heq]),
      htaken.file?_eq fun heq => hp (by simp [Action.files, heq])]
  | remove hfile =>
    have hr := replaced_erase t (ne_nil_of_file hfile)
    exact hr.file?_eq fun heq => hp (heq ▸ List.mem_singleton_self _)

end Grants

/-! ## Any number of actions -/

/-- **Each action is granted when its turn comes.** -/
def Granted (t : Tree) : List Action → Prop
  | [] => True
  | a :: as => t.Grants a ∧ (t.perform a).Granted as

theorem granted_append :
    t.Granted (as ++ as') ↔ t.Granted as ∧ (t.performAll as).Granted as' := by
  induction as generalizing t with
  | nil => exact ⟨fun h => ⟨trivial, h⟩, fun h => h.2⟩
  | cons a as ih =>
    rw [List.cons_append, Granted, Granted, ih, and_assoc]
    rfl

namespace Granted

theorem of_isPrefix (h : t.Granted as) (hpre : as' <+: as) : t.Granted as' := by
  obtain ⟨rest, rfl⟩ := hpre
  exact (granted_append.1 h).1

theorem keeps (h : t.Granted as) : t.Keeps (t.performAll as) := by
  induction as generalizing t with
  | nil => exact .refl t
  | cons a as ih => exact h.1.keeps.trans (ih h.2)

theorem closed (h : t.Granted as) (hb : t.ClosedBelow b) : (t.performAll as).ClosedBelow b := by
  induction as generalizing t with
  | nil => exact hb
  | cons a as ih => exact ih h.2 (h.1.closed hb)

theorem file?_eq (h : t.Granted as) (hp : ∀ a ∈ as, p ∉ a.files) :
    (t.performAll as).file? p = t.file? p := by
  induction as generalizing t with
  | nil => rfl
  | cons a as ih =>
    have hfirst : (t.perform a).file? p = t.file? p := h.1.file?_eq (hp a List.mem_cons_self)
    have hrest : ((t.perform a).performAll as).file? p = (t.perform a).file? p :=
      ih h.2 fun a' ha' => hp a' (List.mem_cons_of_mem _ ha')
    exact hrest.trans hfirst

/-- Chunks may be written to a file. -/
theorem appends (chunks : List Bytes) {content : Bytes} (h : t.node? q = some (.file content)) :
    t.Granted (chunks.map (.append q)) := by
  induction chunks generalizing t content with
  | nil => exact trivial
  | cons bs chunks ih =>
    exact ⟨.append bs h, ih (replaced_append bs h).self⟩

/-- **A file may be written**, and chunks to it, in a directory where no
directory stands. -/
theorem filling (chunks : List Bytes) (hin : t.InDirectory q)
    (hno : t.node? q ≠ some .directory) :
    t.Granted (.create q :: chunks.map (.append q)) := by
  have hr : t.Replaced q (some (.file [])) (t.perform (.create q)) :=
    replaced_insert t hin.ne_nil _
  exact ⟨.create hin hno, appends chunks hr.self⟩

end Granted

end Provision.Files.Tree
