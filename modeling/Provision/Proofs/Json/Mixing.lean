import Provision.Proofs.Json.Reading
import Mathlib.Data.List.Nodup
import Mathlib.Logic.Function.Basic
/-!
# JSON — members in any order

A record that passes over what it does not know reads its fields in any
order and among any other members (`Mixes`). Its state then depends on **the
names that have been read**, and on nothing else: not on their order, and
not on what stands between them (`Folds.mixed`). Where a choice decides
which fields are there, the record is what the choice makes of it
(`Folds.chosen`).
-/

namespace Provision.Json

/-- **Some fields, and others that are not known**, in any order. -/
def Mixes (fields : List (String × String)) (known : List String)
    (ms : List (String × String)) : Prop :=
  ∃ others, ms.Perm (fields ++ others) ∧ ∀ m ∈ others, m.1 ∉ known ∧ IsValue m.2

variable {σ α : Type} {r : Record σ α} {val : List String → σ}
variable {fields ms : List (String × String)} {names : List String}

/-- A member that is a field, and changes the record as if its name were
added to those that have been read. -/
def Adds (r : Record σ α) (val : List String → σ) (m : String × String) : Prop :=
  ∃ f change, r.fields.find? (fun f => f.name = m.1) = some f ∧ Takes f.read m.2 change ∧
    ∀ names, change (val names) = val (m.1 :: names)

theorem find?_eq_none_of_notMem {key : String} (h : key ∉ r.names) :
    r.fields.find? (fun f => f.name = key) = none := by
  refine List.find?_eq_none.2 fun f hf hname => h ?_
  exact List.mem_map.2 ⟨f, hf, of_decide_eq_true hname⟩

/-- No field comes twice. -/
def Apart (known : List String) (a b : String × String) : Prop := a.1 = b.1 → a.1 ∉ known

theorem Mixes.apart {known : List String} (h : Mixes fields known ms)
    (hnodup : (fields.map Prod.fst).Nodup) : ms.Pairwise (Apart known) := by
  obtain ⟨others, hperm, hothers⟩ := h
  have hsymm : ∀ {a b : String × String}, Apart known a b → Apart known b a :=
    fun hab heq => heq ▸ hab heq.symm
  refine (hperm.pairwise_iff hsymm).2 (List.pairwise_append.2 ⟨?_, ?_, ?_⟩)
  · exact (List.pairwise_map.1 hnodup).imp fun hne heq => absurd heq hne
  · exact List.pairwise_of_forall_mem_list fun a ha _ _ _ => (hothers a ha).1
  · exact fun a _ b hb heq => heq ▸ (hothers b hb).1

/-- **What has been read of a record is told by the names**: those that were
read before, and those of the fields among the members. -/
theorem folds_of_apart (hr : r.extensible = true) (hms : ms.Pairwise (Apart r.names))
    (hnew : ∀ m ∈ ms, m.1 ∈ r.names → m.1 ∉ names)
    (hkind : ∀ m ∈ ms, m.1 ∈ r.names ∧ Adds r val m ∨ m.1 ∉ r.names ∧ IsValue m.2) :
    ∃ names', (∀ n, n ∈ names' ↔ n ∈ names ∨ n ∈ r.names ∧ n ∈ ms.map Prod.fst) ∧
      Folds r.member ms (names, val names) (names', val names') := by
  induction ms generalizing names with
  | nil => exact ⟨names, by simp, .nil _⟩
  | cons m ms ih =>
    rw [List.pairwise_cons] at hms
    rw [List.forall_mem_cons] at hnew hkind
    obtain ⟨hknown, f, change, hfind, htext, hchange⟩ | ⟨hother, htext⟩ := hkind.1
    · -- no later member has the name of this one
      have hnew' : ∀ m' ∈ ms, m'.1 ∈ r.names → m'.1 ∉ m.1 :: names := by
        intro m' hm' hm'known hmem
        rcases List.mem_cons.1 hmem with heq | hmem
        · exact hms.1 m' hm' heq.symm hknown
        · exact hnew.2 m' hm' hm'known hmem
      obtain ⟨names', hnames', hfolds⟩ := ih hms.2 hnew' hkind.2
      refine ⟨names', fun n => ?_, .field hfind (hnew.1 hknown) htext (hchange names ▸ hfolds)⟩
      rw [hnames', List.map_cons, List.mem_cons, List.mem_cons]
      grind
    · obtain ⟨names', hnames', hfolds⟩ := ih hms.2 hnew.2 hkind.2
      refine ⟨names', fun n => ?_, .other hr (find?_eq_none_of_notMem hother) htext hfolds⟩
      rw [hnames', List.map_cons, List.mem_cons]
      grind

/-- **Fields are read in any order and among any others**, and in the end
the names that have been read are theirs. -/
theorem Folds.mixed (hr : r.extensible = true) (hms : Mixes fields r.names ms)
    (hnodup : (fields.map Prod.fst).Nodup) (hfields : ∀ m ∈ fields, m.1 ∈ r.names ∧ Adds r val m) :
    ∃ names, (∀ n, n ∈ names ↔ n ∈ fields.map Prod.fst) ∧
      Folds r.member ms ([], val []) (names, val names) := by
  have hapart := hms.apart hnodup
  obtain ⟨others, hperm, hothers⟩ := hms
  have hmem : ∀ m, m ∈ ms ↔ m ∈ fields ∨ m ∈ others := fun m => by
    rw [hperm.mem_iff, List.mem_append]
  have hnew : ∀ m ∈ ms, m.1 ∈ r.names → m.1 ∉ [] := fun _ _ _ => List.not_mem_nil
  obtain ⟨names, hnames, hfolds⟩ := folds_of_apart hr hapart hnew
    fun m hm => ((hmem m).1 hm).imp (hfields m) (hothers m)
  refine ⟨names, fun n => ?_, hfolds⟩
  rw [hnames, List.mem_map, List.mem_map]
  constructor
  · rintro (h | ⟨hn, m, hm, rfl⟩)
    · cases h
    · exact ⟨m, ((hmem m).1 hm).resolve_right fun ho => (hothers m ho).1 hn, rfl⟩
  · rintro ⟨m, hm, rfl⟩
    exact .inr ⟨(hfields m hm).1, m, (hmem m).2 (.inl hm), rfl⟩

/-- **The chosen fields of a record are read**, each of them once, and the
record is what the choice makes of it. -/
theorem Folds.chosen {ι : Type} [DecidableEq ι] {all : List ι} {name text : ι → String}
    {S : ι → Bool} (val : (ι → Bool) → σ) (hr : r.extensible = true)
    (hnames : r.names = all.map name) (hnodup : (all.map name).Nodup)
    (hname : Function.Injective name) (hstart : r.start = val fun _ => false)
    (hval : ∀ S S' : ι → Bool, (∀ i ∈ all, S i = S' i) → val S = val S')
    (hfield : ∀ i ∈ all, S i = true → ∃ f change,
      r.fields.find? (fun f => f.name = name i) = some f ∧ Takes f.read (text i) change ∧
        ∀ S', change (val S') = val fun j => j = i || S' j)
    (hms : Mixes ((all.filter S).map fun i => (name i, text i)) r.names ms) :
    ∃ names, Folds r.member ms ([], r.start) (names, val S) := by
  -- the record by the names that have been read
  let vals : List String → σ := fun names => val fun i => name i ∈ names
  have hfields : ∀ m ∈ (all.filter S).map fun i => (name i, text i),
      m.1 ∈ r.names ∧ Adds r vals m := by
    intro m hm
    obtain ⟨i, hi, rfl⟩ := List.mem_map.1 hm
    obtain ⟨hall, hS⟩ := List.mem_filter.1 hi
    obtain ⟨f, change, hfind, htext, hchange⟩ := hfield i hall hS
    refine ⟨hnames ▸ List.mem_map_of_mem hall, f, change, hfind, htext, fun names => ?_⟩
    rw [hchange]
    refine congrArg val (funext fun j => ?_)
    simp [hname.eq_iff]
  have hfieldnames : (((all.filter S).map fun i => (name i, text i)).map Prod.fst).Nodup := by
    rw [List.map_map]
    exact hnodup.sublist (List.filter_sublist.map _)
  obtain ⟨names, hread, hfolds⟩ := Folds.mixed hr hms hfieldnames hfields
  have hend : vals names = val S := hval _ _ fun i hi => by
    have hmem : name i ∈ names ↔ S i = true := by
      rw [hread, List.map_map, List.mem_map]
      constructor
      · rintro ⟨j, hj, hji⟩
        exact hname hji ▸ (List.mem_filter.1 hj).2
      · exact fun hS => ⟨i, List.mem_filter.2 ⟨hi, hS⟩, rfl⟩
    rw [Bool.eq_iff_iff, decide_eq_true_iff, hmem]
  have hbegin : r.start = vals [] := by
    rw [hstart]
    exact congrArg val (funext fun i => by simp)
  rw [← hbegin, hend] at hfolds
  exact ⟨names, hfolds⟩

end Provision.Json
