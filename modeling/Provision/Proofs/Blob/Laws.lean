import Provision.Blob.Memory
import Provision.Rehearsal.Faults
import Mathlib.Logic.Function.Basic
/-!
# Blobs — laws of stores

Two things that may be expected of a store, given the blobs that are in it. A
store is **confined** (`Store.Confined`) if a request looks at the blob under
its key and changes no other. And it **keeps blobs** (`Store.Keeps`) if it may
fail at any time, but a put that fails changes nothing. The store in memory
does both, and checks its keys.
-/

namespace Provision.Blob

variable {σ β κ : Type}

/-! ## Confined stores -/

section

variable (blobs : σ → String → Option Bytes)

/-- **A request is confined to a key** if it looks at the blob under that key
and changes no other. -/
structure Confined (key : String) (ask : σ → β × σ) : Prop where
  answer : ∀ {s s' : σ}, blobs s key = blobs s' key → (ask s).1 = (ask s').1
  blob : ∀ {s s' : σ}, blobs s key = blobs s' key → blobs (ask s).2 key = blobs (ask s').2 key
  others : ∀ {s : σ} {k : String}, key ≠ k → blobs (ask s).2 k = blobs s k

/-- A store whose requests are confined to their keys. -/
structure Store.Confined (store : Store σ) : Prop where
  get : ∀ key, Blob.Confined blobs key (store.get key)
  put : ∀ key data contentType, Blob.Confined blobs key (store.put key data contentType)
  delete : ∀ key, Blob.Confined blobs key (store.delete key)
  has : ∀ key, Blob.Confined blobs key (store.has key)

end

/-- What is confined to one of some keys finds and leaves alike what is alike
under all of them. -/
theorem Confined.agree {blobs : σ → String → Option Bytes} {P : String → Prop} {key : String}
    {ask : σ → β × σ} (h : Confined blobs key ask) (hkey : P key) {s s' : σ}
    (hs : ∀ k, P k → blobs s k = blobs s' k) :
    (ask s).1 = (ask s').1 ∧ ∀ k, P k → blobs (ask s).2 k = blobs (ask s').2 k := by
  refine ⟨h.answer (hs key hkey), fun k hk => ?_⟩
  by_cases heq : key = k
  · exact heq ▸ h.blob (hs key hkey)
  · rw [h.others heq, h.others heq, hs k hk]

/-! ## Stores that keep blobs -/

/-- **A store keeps blobs.** Any request may fail, as luck will have it. -/
structure Store.Keeps (store : Store σ) (blobs : σ → String → Option Bytes) (luck : σ → κ) :
    Prop where
  /-- A put that fails changes no blob. -/
  refused : ∀ {key data contentType s s' e}, store.put key data contentType s = (.error e, s') →
    blobs s' = blobs s
  /-- One that succeeds has put the blob under its key. -/
  kept : ∀ {key data contentType s s'}, store.put key data contentType s = (.ok (), s') →
    ∃ bs, data.collect = .ok bs ∧ blobs s' = Function.update (blobs s) key (some bs)
  /-- With equal luck, equal blobs are fetched alike. -/
  fetched : ∀ {key s s'}, blobs s key = blobs s' key → luck s = luck s' →
    (store.get key s).1 = (store.get key s').1

/-- A blob that comes at once is what stands under its key. -/
theorem Store.Keeps.kept_once {store : Store σ} {blobs : σ → String → Option Bytes} {luck : σ → κ}
    (h : store.Keeps blobs luck) {key contentType : String} {content : Bytes} {s s' : σ}
    (hput : store.put key (.once content) contentType s = (.ok (), s')) :
    blobs s' = Function.update (blobs s) key (some content) := by
  obtain ⟨bs, hbs, hblobs⟩ := h.kept hput
  obtain rfl := Except.ok.inj ((Stream.collect_once _).symm.trans hbs)
  exact hblobs

/-- **A store checks keys** if it puts no blob under what is none. -/
def Store.Checks (store : Store σ) : Prop :=
  ∀ {key data contentType s s'}, store.put key data contentType s = (.ok (), s') →
    Key.check key = .ok ()

/-! ## The store in memory -/

namespace Memory

/-- **A put** is refused, or its blob stands under the key. -/
theorem step_put (m : Memory) (key : String) (data : Stream) :
    m.step (m.put key data) =
      match Key.check key, data.collect with
      | .error e, _ => (.error e, m)
      | .ok (), .error e => (.error e, m)
      | .ok (), .ok bs => (.ok (), m.insert key bs) := by
  rw [Memory.put]
  cases Key.check key with
  | error e => rfl
  | ok => cases data.collect <;> rfl

/-- **A removal** is refused, or removes what is there. -/
theorem step_delete (m : Memory) (key : String) :
    m.step (m.delete key) =
      match Key.check key, m.get? key with
      | .error e, _ => (.error e, m)
      | .ok (), none => (.error (.notFound key), m)
      | .ok (), some _ => (.ok (), m.erase key) := by
  rw [Memory.delete]
  cases Key.check key with
  | error e => rfl
  | ok =>
    change m.step (if m.contains key then _ else _) = _
    rw [Table.contains]
    cases m.get? key <;> rfl

/-- What only looks at one blob is confined to its key. -/
theorem confined_look {key : String} {f : Memory → β}
    (hf : ∀ {m m' : Memory}, m.get? key = m'.get? key → f m = f m') :
    Confined Table.get? key fun m : Memory => (f m, m) :=
  ⟨hf, id, fun _ => rfl⟩

theorem confined_put (key : String) (data : Stream) :
    Confined Table.get? key fun m : Memory => m.step (m.put key data) := by
  simp only [step_put]
  cases Key.check key with
  | error e => exact confined_look fun _ => rfl
  | ok =>
    cases data.collect with
    | error e => exact confined_look fun _ => rfl
    | ok bs =>
      exact ⟨fun _ => rfl, fun _ => by simp only [Table.get?_insert_self],
        fun hk => by rw [Table.get?_insert, if_neg hk]⟩

theorem confined_delete (key : String) :
    Confined Table.get? key fun m : Memory => m.step (m.delete key) := by
  simp only [step_delete]
  cases Key.check key with
  | error e => exact confined_look fun _ => rfl
  | ok =>
    refine ⟨fun {m m'} h => ?_, fun {m m'} h => ?_, fun {m k} hk => ?_⟩
    · rw [h]
      cases m'.get? key <;> rfl
    · rw [h]
      cases h' : m'.get? key with
      | none => exact h
      | some bs => rw [Table.get?_erase, Table.get?_erase, if_pos rfl, if_pos rfl]
    · cases m.get? key with
      | none => rfl
      | some bs => rw [Table.get?_erase, if_neg hk]

/-- **The store in memory is confined.** -/
theorem confined_store : store.Confined Table.get? where
  get key := confined_look fun h => by simp only [Memory.get, h]
  put key data _ := confined_put key data
  delete key := confined_delete key
  has key := confined_look fun h => by simp only [Memory.has, Table.contains, h]

/-- **It keeps blobs**, with no luck needed. -/
theorem keeps_store : store.Keeps Table.get? fun _ => () where
  refused {key data contentType m m' e} h := by
    simp only [store, step_put] at h
    split at h
    · cases h
      rfl
    · cases h
      rfl
    · cases h
  kept {key data contentType m m'} h := by
    simp only [store, step_put] at h
    split at h
    · cases h
    · cases h
    · next hdata =>
      cases h
      refine ⟨_, hdata, funext fun k => ?_⟩
      rw [Table.get?_insert]
      split
      · next hk => rw [← hk, Function.update_self]
      · next hk => rw [Function.update_of_ne (Ne.symm hk)]
  fetched h _ := by simp only [store, Memory.get, h]

theorem checks_store : store.Checks := by
  intro key data contentType m m' h
  simp only [store, step_put] at h
  split at h
  · cases h
  · cases h
  · next hkey _ => exact hkey

end Memory

end Provision.Blob

/-! ## A rehearsal -/

namespace Provision.Rehearsal.Watched

open Blob

variable {σ κ : Type} {store : Store σ} {blobs : σ → String → Option Bytes} {luck : σ → κ}

/-- What is asked is refused, or answered by the store behind. -/
theorem of_ask {α : Type} {m : Method} {key : String} {contentType : Option String}
    {answer : σ → Except Blob.Error α × σ} {w w' : Watched σ} {r : Except Blob.Error α}
    (h : ask m key contentType answer w = (r, w')) :
    (∃ e, r = .error e ∧ w'.inner = w.inner) ∨ answer w.inner = (r, w'.inner) := by
  rw [ask] at h
  split at h
  · cases h
    exact Or.inl ⟨_, rfl, rfl⟩
  · cases h
    exact Or.inr rfl

/-- **Faults leave the store behind them as it is**, so it keeps blobs if that
does. -/
theorem keeps_store (h : store.Keeps blobs luck) :
    (Watched.store store).Keeps (fun w => blobs w.inner)
      fun w => (w.mishap? .get, luck w.inner) where
  refused hput := by
    obtain ⟨e, -, hinner⟩ | hanswer := of_ask hput
    · rw [hinner]
    · exact h.refused hanswer
  kept hput := by
    obtain ⟨e, he, -⟩ | hanswer := of_ask hput
    · cases he
    · exact h.kept hanswer
  fetched {key w w'} hblobs hluck := by
    obtain ⟨hmishap, hinner⟩ := Prod.mk.inj hluck
    have hfetched := h.fetched hblobs hinner
    rcases hw : w'.mishap? .get with _ | e | e <;>
      simp only [Watched.store, ask, hmishap, hw, hfetched]

theorem checks_store (h : store.Checks) : (Watched.store store).Checks := by
  intro key data contentType w w' hput
  obtain ⟨e, he, -⟩ | hanswer := of_ask hput
  · cases he
  · exact h hanswer

end Provision.Rehearsal.Watched
