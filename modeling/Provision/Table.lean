/-!
# Tables

A finite map from keys to values as the list of its entries, no key twice.
Order is no part of what a table means: `get?` and membership of `keys` are
its view, and each operation is described by what it does to that view.
-/

namespace Provision

/-- A finite map, given by its entries. -/
structure Table (κ α : Type) where
  entries : List (κ × α)
  /-- No key occurs twice. -/
  nodup : (entries.map Prod.fst).Nodup

namespace Table

variable {κ α : Type}

/-- The table without entries. -/
def empty : Table κ α := ⟨[], List.nodup_nil⟩

/-- The keys, in the order of the entries. -/
def keys (t : Table κ α) : List κ := t.entries.map Prod.fst

/-- The number of entries. -/
def size (t : Table κ α) : Nat := t.entries.length

variable [DecidableEq κ]

/-- The value of the first entry under a key. -/
def find? (k : κ) : List (κ × α) → Option α
  | [] => none
  | e :: es => if e.1 = k then some e.2 else find? k es

/-- The value under a key. -/
def get? (t : Table κ α) (k : κ) : Option α := find? k t.entries

/-- Whether a key has a value. -/
def contains (t : Table κ α) (k : κ) : Bool := (t.get? k).isSome

/-- The entries with `a` under `k`: in the place of the old value, or at
the end. -/
def putInto (k : κ) (a : α) : List (κ × α) → List (κ × α)
  | [] => [(k, a)]
  | e :: es => if e.1 = k then (k, a) :: es else e :: putInto k a es

theorem mem_keys_putInto {k k' : κ} {a : α} {es : List (κ × α)} :
    k' ∈ (putInto k a es).map Prod.fst ↔ k' = k ∨ k' ∈ es.map Prod.fst := by
  induction es with
  | nil => simp [putInto]
  | cons e es ih => by_cases h : e.1 = k <;> grind [putInto]

theorem nodup_putInto {k : κ} {a : α} {es : List (κ × α)} (h : (es.map Prod.fst).Nodup) :
    ((putInto k a es).map Prod.fst).Nodup := by
  induction es with
  | nil => simp [putInto]
  | cons e es ih =>
    rw [List.map_cons, List.nodup_cons] at h
    by_cases hk : e.1 = k
    · rw [putInto, if_pos hk, List.map_cons, List.nodup_cons]
      exact hk ▸ h
    · rw [putInto, if_neg hk, List.map_cons, List.nodup_cons, mem_keys_putInto]
      exact ⟨fun hm => hm.elim hk h.1, ih h.2⟩

/-- The table with `a` under `k`, whatever was there before. -/
def insert (t : Table κ α) (k : κ) (a : α) : Table κ α :=
  ⟨putInto k a t.entries, nodup_putInto t.nodup⟩

/-- The table without the key `k`. -/
def erase (t : Table κ α) (k : κ) : Table κ α :=
  ⟨t.entries.filter fun e => e.1 ≠ k,
    t.nodup.sublist (List.filter_sublist.map Prod.fst)⟩

/-! ## What the operations do to the view -/

theorem find?_putInto {k k' : κ} {a : α} {es : List (κ × α)} :
    find? k' (putInto k a es) = if k = k' then some a else find? k' es := by
  induction es with
  | nil => simp [putInto, find?]
  | cons e es ih =>
    by_cases h : e.1 = k
    · by_cases h' : k = k' <;> grind [putInto, find?]
    · grind [putInto, find?]

@[simp] theorem get?_empty (k : κ) : (empty : Table κ α).get? k = none := rfl

/-- **A key holds what was last put under it.** -/
theorem get?_insert (t : Table κ α) (k k' : κ) (a : α) :
    (t.insert k a).get? k' = if k = k' then some a else t.get? k' :=
  find?_putInto

@[simp] theorem get?_insert_self (t : Table κ α) (k : κ) (a : α) :
    (t.insert k a).get? k = some a := by simp [get?_insert]

theorem find?_filter {k k' : κ} {es : List (κ × α)} :
    find? k' (es.filter fun e => e.1 ≠ k) = if k = k' then none else find? k' es := by
  induction es with
  | nil => simp [find?]
  | cons e es ih => by_cases h : e.1 = k <;> grind [find?]

theorem get?_erase (t : Table κ α) (k k' : κ) :
    (t.erase k).get? k' = if k = k' then none else t.get? k' :=
  find?_filter

theorem find?_isSome {k : κ} {es : List (κ × α)} :
    (find? k es).isSome ↔ k ∈ es.map Prod.fst := by
  induction es with
  | nil => simp [find?]
  | cons e es ih => grind [find?]

/-- A key has a value exactly when it is among the keys. -/
theorem mem_keys_iff {t : Table κ α} {k : κ} : k ∈ t.keys ↔ (t.get? k).isSome :=
  find?_isSome.symm

/-- No key occurs twice, so an entry is what its key holds. -/
theorem mem_entries_iff {t : Table κ α} {k : κ} {a : α} :
    (k, a) ∈ t.entries ↔ t.get? k = some a := by
  have key : ∀ es : List (κ × α), (es.map Prod.fst).Nodup →
      ((k, a) ∈ es ↔ find? k es = some a) := by
    intro es hes
    induction es with
    | nil => simp [find?]
    | cons e es ih =>
      rw [List.map_cons, List.nodup_cons] at hes
      rw [find?, List.mem_cons]
      split
      · next hk =>
        subst hk
        have hno : (e.1, a) ∉ es := fun hm => hes.1 (List.mem_map.2 ⟨_, hm, rfl⟩)
        simp [hno, Prod.ext_iff, eq_comm]
      · next hk => simp [ih hes.2, Prod.ext_iff, Ne.symm hk]
  exact key t.entries t.nodup

end Table

end Provision
