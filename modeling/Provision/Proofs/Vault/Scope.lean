import Provision.Proofs.Blob.Key
import Provision.Vault.Scope
/-!
# The vault — keys of scopes

The keys of a scope are its two names and the name of a blob, with slashes
between them. Whatever the names are, the graphs of two scopes stand in one
place just when their payloads do, both keys of a scope are valid or neither
is, and no graph stands in the place of a payload.

Where no name has a slash in it, `Slashless`, **the scope can be read off
either of its keys**. Where both are single components, `Plain`, the keys are
valid, too.
-/

namespace Provision

open Files

/-- No name of the scope has a slash in it. -/
structure Vault.Scope.Slashless (s : Vault.Scope) : Prop where
  group : '/' ∉ s.group.toList
  account : '/' ∉ s.account.toList

/-- Both names of the scope are single components. -/
structure Vault.Scope.Plain (s : Vault.Scope) : Prop where
  group : Blob.Key.IsComponent s.group
  account : Blob.Key.IsComponent s.account

/-- Both keys of the scope are keys of a store. -/
structure Vault.Scope.Accepted (s : Vault.Scope) : Prop where
  payload : Blob.Key.check s.bootstrapKey = .ok ()
  graph : Blob.Key.check s.graphKey = .ok ()

namespace Vault.Scope

open Blob

variable {s s' : Scope} {blob : String}

/-! ## Whatever the names -/

theorem key_eq (s : Scope) (blob : String) : s.key blob = s.display ++ "/" ++ blob := rfl

/-- **The keys of two scopes meet just when the scopes read the same.** -/
theorem key_eq_iff : s.key blob = s'.key blob ↔ s.display = s'.display := by
  rw [key_eq, key_eq, String.append_left_inj, String.append_left_inj]

/-- So their graphs stand in one place just when their payloads do. -/
theorem graphKey_eq_iff : s.graphKey = s'.graphKey ↔ s.bootstrapKey = s'.bootstrapKey :=
  key_eq_iff.trans key_eq_iff.symm

/-- **Whether a key is valid is a matter of the scope**, if the names of the
blob are such names. -/
theorem isValid_key (hblob : (Path.segments blob).all Key.isName = true)
    (hback : '\\' ∉ blob.toList) :
    Key.isValid (s.key blob) =
      (!Path.isAbsolute s.display && '\\' ∉ s.display.toList &&
        (Path.segments s.display).all Key.isName) := by
  have hchars : (s.key blob).toList = s.display.toList ++ '/' :: blob.toList := by
    simp [key_eq]
  have hne : s.display.toList ≠ [] := by simp [display]
  have habs : Path.isAbsolute (s.key blob) = Path.isAbsolute s.display := by
    obtain ⟨c, cs, hcs⟩ := List.exists_cons_of_ne_nil hne
    rw [Path.isAbsolute, Path.isAbsolute, hchars, hcs, List.cons_append, List.head?_cons,
      List.head?_cons]
  have hback' : '\\' ∈ (s.key blob).toList ↔ '\\' ∈ s.display.toList := by
    rw [hchars]
    simp [hback]
  have hne' : s.key blob ≠ "" := by
    intro he
    have := congrArg String.toList he
    simp [key] at this
  rw [Key.isValid, habs, key_eq, Path.segments_slash, List.all_append, hblob, Bool.and_true,
    ← key_eq, decide_eq_true hne', Bool.true_and]
  simp only [hback']

/-- **Both keys are accepted or neither is.** -/
theorem check_graphKey_iff :
    Key.check s.graphKey = .ok () ↔ Key.check s.bootstrapKey = .ok () := by
  have hsame : Key.isValid s.graphKey = Key.isValid s.bootstrapKey :=
    (isValid_key (by decide) (by decide)).trans (isValid_key (by decide) (by decide)).symm
  simp only [Key.check, hsame]
  split <;> simp

/-- So the first tells. -/
theorem accepted_iff : s.Accepted ↔ Key.check s.bootstrapKey = .ok () :=
  ⟨Accepted.payload, fun h => ⟨h, check_graphKey_iff.2 h⟩⟩

theorem getLast?_key {c : Char} (h : blob.toList.getLast? = some c) :
    (s.key blob).toList.getLast? = some c := by
  rw [key, String.toList_append, List.getLast?_append, h]
  rfl

theorem getLast?_graphKey (s : Scope) : s.graphKey.toList.getLast? = some 'h' :=
  getLast?_key (by decide)

/-- **No graph stands in the place of a payload**: the two kinds of keys end
in different letters. -/
theorem graphKey_ne_bootstrapKey (s s' : Scope) : s.graphKey ≠ s'.bootstrapKey := by
  intro heq
  have hpayload : s'.bootstrapKey.toList.getLast? = some 'n' := getLast?_key (by decide)
  rw [← heq, getLast?_graphKey] at hpayload
  exact absurd hpayload (by decide)

/-! ## Names without slashes -/

theorem segments_display (h : s.Slashless) :
    Path.segments s.display = [s.group, s.account] := by
  rw [display, Path.segments_slash, Path.segments_of_notMem h.group,
    Path.segments_of_notMem h.account]
  rfl

/-- **A scope is how it reads**, if its names have no slash in them. -/
theorem display_inj (h : s.Slashless) (h' : s'.Slashless) : s.display = s'.display ↔ s = s' := by
  refine ⟨fun heq => ?_, congrArg display⟩
  have hseg := congrArg Path.segments heq
  rw [segments_display h, segments_display h'] at hseg
  obtain ⟨hgroup, haccount⟩ : s.group = s'.group ∧ s.account = s'.account := by
    simpa using hseg
  cases s
  cases s'
  simp_all

/-- So either key tells whose it is. -/
theorem graphKey_inj_of_slashless (h : s.Slashless) (h' : s'.Slashless) :
    s.graphKey = s'.graphKey ↔ s = s' :=
  key_eq_iff.trans (display_inj h h')

/-! ## Names that are components -/

theorem Plain.slashless (h : s.Plain) : s.Slashless := ⟨h.group.noSlash, h.account.noSlash⟩

theorem graphKey_inj (h : s.Plain) (h' : s'.Plain) : s.graphKey = s'.graphKey ↔ s = s' :=
  graphKey_inj_of_slashless h.slashless h'.slashless

theorem bootstrapKey_inj (h : s.Plain) (h' : s'.Plain) :
    s.bootstrapKey = s'.bootstrapKey ↔ s = s' :=
  graphKey_eq_iff.symm.trans (graphKey_inj h h')

/-- **The keys of plain scopes are valid.** -/
theorem Plain.accepted (h : s.Plain) : s.Accepted := by
  have habs : Path.isAbsolute s.display = false := by
    rw [display, String.append_assoc]
    exact h.group.not_isAbsolute _
  have hback : '\\' ∉ s.display.toList := by
    simp only [display, String.toList_append, List.mem_append, not_or]
    exact ⟨⟨h.group.noBackslash, by decide⟩, h.account.noBackslash⟩
  have hvalid : Key.isValid s.bootstrapKey = true := by
    rw [bootstrapKey, isValid_key (by decide) (by decide), segments_display h.slashless]
    simp [habs, hback, h.group.isName, h.account.isName]
  exact accepted_iff.2 (Key.check_of_isValid hvalid)

end Vault.Scope

end Provision
