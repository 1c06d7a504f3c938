import Provision.Proofs.Blob.Laws
/-!
# Blobs — sessions by turns

Several clients of one store take turns, each making one request of its
session at a time. Over a confined store, **sessions that keep to keys of
their own do not notice each other** (`interleave_apart`): whatever the order
of the turns, each of them is where it would be by itself after as many
turns, and so are the blobs under its keys.
-/

namespace Provision.Blob

variable {σ α β ι : Type}

/-! ## Turns -/

namespace Session

/-- One session and then, with its result, the next. -/
def andThen : Session α → (α → Session β) → Session β
  | .done a, next => next a
  | .log e rest, next => .log e (rest.andThen next)
  | .get key rest, next => .get key fun r => (rest r).andThen next
  | .put key data contentType rest, next =>
    .put key data contentType fun r => (rest r).andThen next
  | .delete key rest, next => .delete key fun r => (rest r).andThen next
  | .has key rest, next => .has key fun r => (rest r).andThen next

/-- **One turn** of a session: its next request, or its next message. -/
def turn (store : Store σ) : Session α → σ → Session α × σ
  | .done a, s => (.done a, s)
  | .log _ next, s => (next, s)
  | .get key next, s => (next (store.get key s).1, (store.get key s).2)
  | .put key data contentType next, s =>
    (next (store.put key data contentType s).1, (store.put key data contentType s).2)
  | .delete key next, s => (next (store.delete key s).1, (store.delete key s).2)
  | .has key next, s => (next (store.has key s).1, (store.has key s).2)

/-- Some turns of a session that has the store to itself. -/
def turns (store : Store σ) : Nat → Session α → σ → Session α × σ
  | 0, p, s => (p, s)
  | n + 1, p, s => turns store n (p.turn store s).1 (p.turn store s).2

/-- **Sessions by turns**: what is left of each, and of the store. -/
def interleave [DecidableEq ι] (store : Store σ) :
    List ι → (ι → Session α) → σ → (ι → Session α) × σ
  | [], ps, s => (ps, s)
  | i :: is, ps, s =>
    interleave store is (Function.update ps i ((ps i).turn store s).1) ((ps i).turn store s).2

variable {store : Store σ}

theorem run_andThen (p : Session α) (next : α → Session β) (s : σ) :
    ((p.andThen next).run store s).result =
        ((next (p.run store s).result).run store (p.run store s).state).result ∧
      ((p.andThen next).run store s).state =
        ((next (p.run store s).result).run store (p.run store s).state).state := by
  induction p generalizing s with
  | done a => exact ⟨rfl, rfl⟩
  | log e rest ih => exact ih s
  | get key rest ih => exact ih _ _
  | put key data contentType rest ih => exact ih _ _
  | delete key rest ih => exact ih _ _
  | has key rest ih => exact ih _ _

/-- **A turn is a part of the run**, which goes on to the same end. -/
theorem run_turn (p : Session α) (s : σ) :
    ((p.turn store s).1.run store (p.turn store s).2).result = (p.run store s).result ∧
      ((p.turn store s).1.run store (p.turn store s).2).state = (p.run store s).state := by
  cases p <;> exact ⟨rfl, rfl⟩

/-- What comes to a result by turns comes to that of its run. -/
theorem run_of_turns {n : Nat} {p : Session α} {s s' : σ} {a : α}
    (h : p.turns store n s = (.done a, s')) :
    (p.run store s).result = a ∧ (p.run store s).state = s' := by
  induction n generalizing p s with
  | zero =>
    obtain ⟨rfl, rfl⟩ := Prod.mk.inj h
    exact ⟨rfl, rfl⟩
  | succ n ih =>
    obtain ⟨hresult, hstate⟩ := ih h
    exact ⟨(run_turn p s).1.symm.trans hresult, (run_turn p s).2.symm.trans hstate⟩

/-! ## Keys and lengths -/

/-- **The session keeps to keys** of which `P` holds, and is over after so
many turns, whatever the answers. -/
inductive Within (P : String → Prop) : Nat → Session α → Prop
  | done (n : Nat) (a : α) : Within P n (.done a)
  | log {n : Nat} (e : Log.Entry) {next : Session α} (h : Within P n next) :
      Within P (n + 1) (.log e next)
  | get {n : Nat} {key : String} {next : Except Error Stream → Session α} (hkey : P key)
      (h : ∀ r, Within P n (next r)) : Within P (n + 1) (.get key next)
  | put {n : Nat} {key : String} (data : Stream) (contentType : String)
      {next : Except Error Unit → Session α} (hkey : P key) (h : ∀ r, Within P n (next r)) :
      Within P (n + 1) (.put key data contentType next)
  | delete {n : Nat} {key : String} {next : Except Error Unit → Session α} (hkey : P key)
      (h : ∀ r, Within P n (next r)) : Within P (n + 1) (.delete key next)
  | has {n : Nat} {key : String} {next : Except Error Bool → Session α} (hkey : P key)
      (h : ∀ r, Within P n (next r)) : Within P (n + 1) (.has key next)

namespace Within

variable {P : String → Prop} {n k : Nat} {p : Session α}

theorem mono (h : Within P n p) (hle : n ≤ k) : Within P k p := by
  induction h generalizing k with
  | done n a => exact .done k a
  | log e _ ih =>
    obtain ⟨k, rfl⟩ := Nat.exists_eq_add_of_lt (Nat.lt_of_succ_le hle)
    exact .log e (ih (Nat.le_add_right _ _))
  | get hkey _ ih =>
    obtain ⟨k, rfl⟩ := Nat.exists_eq_add_of_lt (Nat.lt_of_succ_le hle)
    exact .get hkey fun r => ih r (Nat.le_add_right _ _)
  | put data contentType hkey _ ih =>
    obtain ⟨k, rfl⟩ := Nat.exists_eq_add_of_lt (Nat.lt_of_succ_le hle)
    exact .put data contentType hkey fun r => ih r (Nat.le_add_right _ _)
  | delete hkey _ ih =>
    obtain ⟨k, rfl⟩ := Nat.exists_eq_add_of_lt (Nat.lt_of_succ_le hle)
    exact .delete hkey fun r => ih r (Nat.le_add_right _ _)
  | has hkey _ ih =>
    obtain ⟨k, rfl⟩ := Nat.exists_eq_add_of_lt (Nat.lt_of_succ_le hle)
    exact .has hkey fun r => ih r (Nat.le_add_right _ _)

theorem andThen (h : Within P n p) {next : α → Session β} (hnext : ∀ a, Within P k (next a)) :
    Within P (n + k) (p.andThen next) := by
  induction h with
  | done n a => exact (hnext a).mono (Nat.le_add_left k n)
  | log e _ ih => exact Nat.succ_add _ k ▸ .log e ih
  | get hkey _ ih => exact Nat.succ_add _ k ▸ .get hkey ih
  | put data contentType hkey _ ih => exact Nat.succ_add _ k ▸ .put data contentType hkey ih
  | delete hkey _ ih => exact Nat.succ_add _ k ▸ .delete hkey ih
  | has hkey _ ih => exact Nat.succ_add _ k ▸ .has hkey ih

theorem map (h : Within P n p) (f : α → β) : Within P n (p.map f) := by
  induction h with
  | done n a => exact .done n (f a)
  | log e _ ih => exact .log e ih
  | get hkey _ ih => exact .get hkey ih
  | put data contentType hkey _ ih => exact .put data contentType hkey ih
  | delete hkey _ ih => exact .delete hkey ih
  | has hkey _ ih => exact .has hkey ih

theorem turn (h : Within P n p) (s : σ) : Within P (n - 1) (p.turn store s).1 := by
  cases h with
  | done n a => exact .done _ a
  | log e h => exact h
  | get hkey h => exact h _
  | put data contentType hkey h => exact h _
  | delete hkey h => exact h _
  | has hkey h => exact h _

/-- **After so many turns it is over**, and its result is that of its run. -/
theorem turns_eq (h : Within P n p) (hle : n ≤ k) (s : σ) :
    p.turns store k s = (.done (p.run store s).result, (p.run store s).state) := by
  induction k generalizing n p s with
  | zero =>
    obtain rfl := Nat.le_zero.1 hle
    cases h
    rfl
  | succ k ih =>
    rw [turns, ih (h.turn s) (by omega), (run_turn p s).1, (run_turn p s).2]

end Within

end Session

/-! ## Sessions with keys of their own -/

section

variable {blobs : σ → String → Option Bytes} {store : Store σ} {P : String → Prop}

namespace Session.Within

variable {n : Nat} {p : Session α}

/-- **A turn is the same where the blobs under the keys are.** -/
theorem turn_agree (hstore : store.Confined blobs) (h : Within P n p) {s s' : σ}
    (hs : ∀ k, P k → blobs s k = blobs s' k) :
    (p.turn store s).1 = (p.turn store s').1 ∧
      ∀ k, P k → blobs (p.turn store s).2 k = blobs (p.turn store s').2 k := by
  cases h with
  | done n a => exact ⟨rfl, hs⟩
  | log e h => exact ⟨rfl, hs⟩
  | @get _ key next hkey h =>
    have hagree := (hstore.get key).agree hkey hs
    exact ⟨congrArg next hagree.1, hagree.2⟩
  | @put _ key data contentType next hkey h =>
    have hagree := (hstore.put key data contentType).agree hkey hs
    exact ⟨congrArg next hagree.1, hagree.2⟩
  | @delete _ key next hkey h =>
    have hagree := (hstore.delete key).agree hkey hs
    exact ⟨congrArg next hagree.1, hagree.2⟩
  | @has _ key next hkey h =>
    have hagree := (hstore.has key).agree hkey hs
    exact ⟨congrArg next hagree.1, hagree.2⟩

/-- And it leaves all other blobs alone. -/
theorem blobs_turn (hstore : store.Confined blobs) (h : Within P n p) {k : String} (hk : ¬P k)
    (s : σ) : blobs (p.turn store s).2 k = blobs s k := by
  have hne {key : String} (hkey : P key) : key ≠ k := fun heq => hk (heq ▸ hkey)
  cases h with
  | done n a => rfl
  | log e h => rfl
  | get hkey h => exact (hstore.get _).others (hne hkey)
  | put data contentType hkey h => exact (hstore.put _ data contentType).others (hne hkey)
  | delete hkey h => exact (hstore.delete _).others (hne hkey)
  | has hkey h => exact (hstore.has _).others (hne hkey)

theorem blobs_turns (hstore : store.Confined blobs) (h : Within P n p) {k : String} (hk : ¬P k)
    (count : Nat) (s : σ) : blobs (p.turns store count s).2 k = blobs s k := by
  induction count generalizing n p s with
  | zero => rfl
  | succ count ih => exact (ih (h.turn s) _).trans (h.blobs_turn hstore hk s)

end Session.Within

/-- **Sessions with keys of their own do not notice each other.** Whatever the
order of their turns, each is where it would be after as many turns by itself,
in a store with the same blobs under its keys, and those are then the same
again; and nothing else has changed. -/
theorem interleave_apart [DecidableEq ι] (hstore : store.Confined blobs) {P : ι → String → Prop}
    (hapart : ∀ i j k, P i k → P j k → i = j) (is : List ι) {ps : ι → Session α} {n : ι → Nat}
    (hps : ∀ i, (ps i).Within (P i) (n i)) (s : σ) (own : ι → σ)
    (hown : ∀ i k, P i k → blobs s k = blobs (own i) k) :
    let r := Session.interleave store is ps s
    let alone i := (ps i).turns store (is.count i) (own i)
    (∀ i, r.1 i = (alone i).1) ∧ (∀ i k, P i k → blobs r.2 k = blobs (alone i).2 k) ∧
      ∀ k, (∀ i, ¬P i k) → blobs r.2 k = blobs s k := by
  induction is generalizing ps n s own with
  | nil => exact ⟨fun i => rfl, hown, fun k _ => rfl⟩
  | cons i is ih =>
    intro r alone
    have hturn := (hps i).turn_agree hstore (hown i)
    -- `i` has its turn in the shared store, and in its own
    let ps' := Function.update ps i ((ps i).turn store s).1
    let own' := Function.update own i ((ps i).turn store (own i)).2
    have halone : ∀ j, (ps' j).turns store (is.count j) (own' j) = alone j := by
      intro j
      by_cases hj : j = i
      · subst hj
        simp only [ps', own', alone, Function.update_self, List.count_cons_self, Session.turns,
          hturn.1]
      · simp only [ps', own', alone, Function.update_of_ne hj, List.count_cons_of_ne (Ne.symm hj)]
    have hps' : ∀ j, (ps' j).Within (P j) (n j) := by
      intro j
      by_cases hj : j = i
      · subst hj
        simp only [ps', Function.update_self]
        exact ((hps j).turn s).mono (Nat.sub_le _ _)
      · simp only [ps', Function.update_of_ne hj]
        exact hps j
    have hown' : ∀ j k, P j k → blobs ((ps i).turn store s).2 k = blobs (own' j) k := by
      intro j k hk
      by_cases hj : j = i
      · subst hj
        simp only [own', Function.update_self]
        exact hturn.2 k hk
      · simp only [own', Function.update_of_ne hj]
        exact ((hps i).blobs_turn hstore (fun hi => hj (hapart j i k hk hi)) s).trans (hown j k hk)
    obtain ⟨hsessions, hblobs, hothers⟩ := ih hps' _ own' hown'
    refine ⟨fun j => ?_, fun j k hk => ?_, fun k hk => ?_⟩
    · rw [← halone j]
      exact hsessions j
    · rw [← halone j]
      exact hblobs j k hk
    · exact (hothers k hk).trans ((hps i).blobs_turn hstore (hk i) s)

/-- **From nothing they make the union** of what each makes by itself. -/
theorem interleave_union [DecidableEq ι] (hstore : store.Confined blobs) {P : ι → String → Prop}
    (hapart : ∀ i j k, P i k → P j k → i = j) (is : List ι) {ps : ι → Session α} {n : ι → Nat}
    (hps : ∀ i, (ps i).Within (P i) (n i)) {s : σ} (hempty : ∀ k, blobs s k = none) (k : String)
    (bs : Bytes) :
    blobs (Session.interleave store is ps s).2 k = some bs ↔
      ∃ i, blobs ((ps i).turns store (is.count i) s).2 k = some bs := by
  obtain ⟨-, hblobs, hothers⟩ :=
    interleave_apart hstore hapart is hps s (fun _ => s) fun _ _ _ => rfl
  constructor
  · intro h
    by_cases hk : ∃ i, P i k
    · obtain ⟨i, hi⟩ := hk
      exact ⟨i, (hblobs i k hi).symm.trans h⟩
    · -- nothing stands under what is nobody's
      rw [hothers k fun i hi => hk ⟨i, hi⟩, hempty] at h
      cases h
  · rintro ⟨i, h⟩
    have hi : P i k := by
      by_contra hi
      rw [(hps i).blobs_turns hstore hi, hempty] at h
      cases h
    exact (hblobs i k hi).trans h

end

end Provision.Blob
