import Provision.Asset.Folder
import Provision.Proofs.Files.Below
import Provision.Proofs.Files.Components
import Provision.Proofs.Text.Split
/-!
# Assets — nothing outside the folder is fetched

A name is refused if it is absolute or leads up, with slashes of either kind
(`refused_iff`). All others go down from the root of the folder, so the file
that is fetched lies there, and **what lies elsewhere has a say in nothing but
where the root itself is found** (`fetch_confined`). It has that say: where the
path of the root goes up again, or where nothing stands there, a change outside
can change the answer.
-/

namespace Provision.Asset.Folder

open Files Files.Path

variable {f : Folder} {t t' : Tree} {name : String} {file : File} {e : Files.Error}

/-! ## Names that are refused -/

/-- **A name leads up**: there is a `..` in it between slashes of either kind,
or the ends of the name. -/
def LeadsUp (name : String) : Prop :=
  ∃ before after : String, name = before ++ ".." ++ after ∧
    (∀ c ∈ before.toList.getLast?, c = '/' ∨ c = '\\') ∧
    ∀ c ∈ after.toList.head?, c = '/' ∨ c = '\\'

theorem isSeparator_iff (c : Char) : isSeparator c = true ↔ c = '/' ∨ c = '\\' := by
  simp [isSeparator]

/-- No point is a separator. -/
theorem isSeparator_of_mem_up : ∀ c ∈ "..".toList, isSeparator c = false := by
  simp [isSeparator]

theorem leadsUp_iff : LeadsUp name ↔ ".." ∈ Split.texts isSeparator name := by
  rw [Split.mem_texts_iff, Split.mem_parts_iff, and_iff_right isSeparator_of_mem_up]
  constructor
  · rintro ⟨before, after, rfl, hleft, hright⟩
    exact ⟨before.toList, after.toList, by simp [String.toList_append],
      fun c hc => (isSeparator_iff c).2 (hleft c hc),
      fun c hc => (isSeparator_iff c).2 (hright c hc)⟩
  · rintro ⟨before, after, heq, hleft, hright⟩
    refine ⟨String.ofList before, String.ofList after, ?_, ?_, ?_⟩
    · rw [← String.toList_inj, heq]
      simp
    · rw [String.toList_ofList]
      exact fun c hc => (isSeparator_iff c).1 (hleft c hc)
    · rw [String.toList_ofList]
      exact fun c hc => (isSeparator_iff c).1 (hright c hc)

theorem escapes_iff : escapes name = true ↔ isAbsolute name = true ∨ LeadsUp name := by
  simp [escapes, leadsUp_iff]

/-- A name that is not refused goes down, and nowhere else. -/
theorem goesDown_of_not_escapes (h : escapes name = false) :
    isAbsolute name = false ∧ ".." ∉ segments name := by
  rw [Bool.eq_false_iff, Ne, escapes_iff, not_or] at h
  refine ⟨Bool.eq_false_iff.2 h.1, fun hup => h.2 (leadsUp_iff.2 ?_)⟩
  have hslash : ∀ c, isSlash c = true → isSeparator c = true := by
    intro c hc
    exact (isSeparator_iff c).2 (Or.inl (of_decide_eq_true hc))
  exact Split.mem_texts_of_imp hslash isSeparator_of_mem_up hup

/-! ## Answers -/

theorem fetch_of_escapes (t : Tree) (h : escapes name = true) :
    f.fetch t name = .error (.ofText (refusal name)) := by
  rw [fetch, if_pos h]

theorem fetch_of_not_escapes (t : Tree) (h : escapes name = false) :
    f.fetch t name =
      match t.read (join f.root name) with
      | .ok data => .ok (some ⟨name, data⟩)
      | .error .notFound => .ok none
      | .error e => .error (.ofText e.message) := by
  have hkept : ¬ escapes name = true := by
    rw [h]
    exact Bool.false_ne_true
  exact if_neg hkept

/-- What is said of a refused name begins otherwise than all that the system
says. -/
theorem message_ne_refusal (e : Files.Error) (name : String) : e.message ≠ refusal name := by
  intro heq
  have hbegin : (refusal name).toList.take 11 = "file name '".toList := by
    rw [refusal, String.toList_append, String.toList_append, List.append_assoc]
    exact List.take_left' (by decide)
  rw [← heq] at hbegin
  cases e <;> exact absurd hbegin (by decide)

/-- **The names that are refused**: no failure to read looks like it. -/
theorem refused_iff (t : Tree) :
    f.fetch t name = .error (.ofText (refusal name)) ↔
      isAbsolute name = true ∨ LeadsUp name := by
  rw [← escapes_iff]
  refine ⟨fun h => ?_, fetch_of_escapes t⟩
  cases hesc : escapes name with
  | true => rfl
  | false =>
    rw [fetch_of_not_escapes t hesc] at h
    split at h
    · cases h
    · cases h
    · next e _ _ =>
      have hmessage : e.message = refusal name :=
        congrArg Cause.message (Except.error.inj h)
      exact absurd hmessage (message_ne_refusal e name)

theorem fetch_eq_some_iff (hesc : escapes name = false) :
    f.fetch t name = .ok (some file) ↔
      file.name = name ∧ t.read (join f.root name) = .ok file.data := by
  rw [fetch_of_not_escapes t hesc]
  cases t.read (join f.root name) with
  | ok data =>
    constructor
    · intro h
      obtain rfl := Option.some.inj (Except.ok.inj h)
      exact ⟨rfl, rfl⟩
    · rintro ⟨rfl, hdata⟩
      obtain rfl := Except.ok.inj hdata
      rfl
  | error e => cases e <;> simp

theorem fetch_eq_none_iff (hesc : escapes name = false) :
    f.fetch t name = .ok none ↔ t.read (join f.root name) = .error .notFound := by
  rw [fetch_of_not_escapes t hesc]
  cases t.read (join f.root name) with
  | ok data => simp
  | error e => cases e <;> simp

/-- Other failures to read are reported in their own words. -/
theorem fetch_of_error (hesc : escapes name = false)
    (hread : t.read (join f.root name) = .error e) (he : e ≠ .notFound) :
    f.fetch t name = .error (.ofText e.message) := by
  rw [fetch_of_not_escapes t hesc, hread]
  cases e with
  | notFound => exact absurd rfl he
  | _ => rfl

/-! ## What lies outside -/

/-- **Trees that agree in the root give the same answers.** -/
theorem fetch_congr (h : t.AgreeIn t' f.root) : f.fetch t name = f.fetch t' name := by
  cases hesc : escapes name with
  | true => rw [fetch_of_escapes t hesc, fetch_of_escapes t' hesc]
  | false =>
    obtain ⟨hrel, hup⟩ := goesDown_of_not_escapes hesc
    rw [fetch_of_not_escapes t hesc, fetch_of_not_escapes t' hesc, h.read_join hrel hup]

/-- **Nothing outside its root is fetched from a folder.** Refused are the
names that are absolute or lead up, and no others. Any other name stands for
one path: it means what the root means, and then the names that are the steps
of the name, so in each tree its place lies in that of the root. A file is
fetched if and only if it is read there, under the name that was asked for, and
there is none if and only if nothing is found; all other failures to read are
reported. Trees that agree in the root give the same answers. If something
stands at the root, whose path does not go up, those are all trees that agree
below its place, whatever else is changed, added or removed. -/
theorem fetch_confined (f : Folder) (name : String) :
    (∀ t, f.fetch t name = .error (.ofText (refusal name)) ↔
      isAbsolute name = true ∨ LeadsUp name) ∧
    (¬ (isAbsolute name = true ∨ LeadsUp name) →
      normal (join f.root name) = normal f.root ++ normal name ∧
      ∃ names, normal name = names.map .named ∧ ∀ t : Tree,
        t.place (join f.root name) = t.place f.root ++ names ∧
        (∀ file, f.fetch t name = .ok (some file) ↔
          file.name = name ∧ t.read (join f.root name) = .ok file.data) ∧
        (∀ data, t.read (join f.root name) = .ok data →
          t.file? (t.place f.root ++ names) = some data) ∧
        (f.fetch t name = .ok none ↔ t.read (join f.root name) = .error .notFound) ∧
        ∀ e, e ≠ .notFound → t.read (join f.root name) = .error e →
          f.fetch t name = .error (.ofText e.message)) ∧
    (∀ t t' : Tree, t.AgreeIn t' f.root → f.fetch t name = f.fetch t' name) ∧
    ∀ t t' : Tree, t.ClosedBelow [] → t'.ClosedBelow [] → t'.here = t.here →
      ".." ∉ segments f.root → (t.node? (t.place f.root)).isSome →
        t.AgreeBelow t' (t.place f.root) → f.fetch t name = f.fetch t' name := by
  refine ⟨fun t => refused_iff t, fun h => ?_, fun t t' => fetch_congr,
    fun t t' hclosed hclosed' hhere hup hsome h =>
      fetch_congr (h.agreeIn hclosed hclosed' hhere hup hsome)⟩
  have hesc : escapes name = false := by
    rw [Bool.eq_false_iff, Ne, escapes_iff]
    exact h
  obtain ⟨hrel, hup⟩ := goesDown_of_not_escapes hesc
  refine ⟨normal_join hrel, steps (segments name), ?_, fun t => ?_⟩
  · rw [normal_of_relative hrel, filterMap_of_notMem hup]
  have hplace := t.place_join_of_notMem f.root hrel hup
  refine ⟨hplace, fun file => fetch_eq_some_iff hesc, fun data hdata => ?_,
    fetch_eq_none_iff hesc, fun e he hread => fetch_of_error hesc hread he⟩
  rw [← hplace]
  exact Tree.file?_of_read hdata

end Provision.Asset.Folder

/-! ## A rehearsal -/

namespace Provision.Rehearsal

open Asset Files

/-- A directory to work in, with a file in a directory. -/
def shed : Tree := (Tree.emptyDirectory ["tmp", "work"]).plant ["tmp", "work", "b", "n"] [118]

/-- The same with one more directory beside. -/
def annex : Tree := shed.perform (.makeDirectory ["tmp", "work", "a"])

theorem shed_closed : shed.ClosedBelow [] := Tree.closedBelow_of_forall (by decide +kernel)

theorem annex_closed : annex.ClosedBelow [] := Tree.closedBelow_of_forall (by decide +kernel)

theorem annex_replaced : shed.Replaced ["tmp", "work", "a"] (some .directory) annex :=
  Tree.replaced_insert shed (by decide) .directory

/-- The file is fetched, whether or not the other directory is there; names
that are absolute or lead up are refused. -/
theorem fetch_confined_shed :
    shed.read "./b/.//n" = .ok [118] ∧
      (⟨"./b/"⟩ : Folder).fetch annex ".//n" = .ok (some ⟨".//n", [118]⟩) ∧
      shed.place "./b/.//n" = ["tmp", "work", "b", "n"] ∧
      (⟨"./b/"⟩ : Folder).fetch shed "/tmp/work/b/n" =
        .error (.ofText "file name '/tmp/work/b/n' escapes the asset directory") ∧
      (⟨"./b/"⟩ : Folder).fetch shed "n\\.." =
        .error (.ofText "file name 'n\\..' escapes the asset directory") := by
  have hread : shed.read "./b/.//n" = .ok [118] := by decide +kernel
  obtain ⟨-, hfound, -, hsame⟩ := Folder.fetch_confined ⟨"./b/"⟩ ".//n"
  have hkept : ¬ (Path.isAbsolute ".//n" = true ∨ Folder.LeadsUp ".//n") := by
    rw [← Folder.escapes_iff]
    decide +kernel
  obtain ⟨-, names, hnames, hfound⟩ := hfound hkept
  obtain ⟨-, hfile, -⟩ := hfound shed
  have hagree : shed.AgreeBelow annex (shed.place "./b/") :=
    .of_replaced annex_replaced (by decide +kernel)
  refine ⟨hread, ?_, by decide +kernel, ?_, ?_⟩
  · rw [← hsame shed annex shed_closed annex_closed rfl (by decide +kernel) (by decide +kernel)
      hagree]
    exact (hfile _).2 ⟨rfl, hread⟩
  · exact ((Folder.fetch_confined ⟨"./b/"⟩ "/tmp/work/b/n").1 shed).2 (Or.inl (by decide +kernel))
  · exact ((Folder.fetch_confined ⟨"./b/"⟩ "n\\..").1 shed).2
      (Or.inr (Folder.leadsUp_iff.2 (by decide +kernel)))

/-- The first again, with one more file beside. -/
def fenced : Tree := shed.perform (.create ["tmp", "work", "x"])

theorem fenced_closed : fenced.ClosedBelow [] := Tree.closedBelow_of_forall (by decide +kernel)

theorem fenced_replaced : shed.Replaced ["tmp", "work", "x"] (some (.file [])) fenced :=
  Tree.replaced_insert shed (by decide) (.file [])

/-- **What lies outside the root can change the answer.** A directory that the
path of the root goes into and out of again decides whether the file is found.
A file where the path of the root needs a directory turns a file that is missing
into a failure. -/
theorem outside_changes_answer :
    (shed.ClosedBelow [] ∧ annex.ClosedBelow [] ∧ annex.here = shed.here ∧
      shed.AgreeBelow annex (shed.place "a/../b") ∧
      (⟨"a/../b"⟩ : Folder).fetch shed "n" = .ok none ∧
      (⟨"a/../b"⟩ : Folder).fetch annex "n" = .ok (some ⟨"n", [118]⟩)) ∧
    (fenced.ClosedBelow [] ∧ fenced.here = shed.here ∧
      shed.AgreeBelow fenced (shed.place "x/y") ∧
      (⟨"x/y"⟩ : Folder).fetch shed "n" = .ok none ∧
      (⟨"x/y"⟩ : Folder).fetch fenced "n" =
        .error (.ofText "Not a directory (os error 20)")) := by
  have hannex : shed.AgreeBelow annex (shed.place "a/../b") :=
    .of_replaced annex_replaced (by decide +kernel)
  have hfenced : shed.AgreeBelow fenced (shed.place "x/y") :=
    .of_replaced fenced_replaced (by decide +kernel)
  refine ⟨⟨shed_closed, annex_closed, rfl, hannex, ?_, ?_⟩, fenced_closed, rfl, hfenced, ?_, ?_⟩
  · decide +kernel
  · decide +kernel
  · decide +kernel
  · decide +kernel

end Provision.Rehearsal
