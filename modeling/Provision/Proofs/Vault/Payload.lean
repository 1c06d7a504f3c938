import Provision.Proofs.Vault.Slots
/-!
# The vault — a sealed graph has its payload beside it

A machine that boots fetches the payload before it can open a graph, so a
graph without a payload would be of no use to it. Over a store whose puts
and removals may come to nothing at any time, and for scopes of any names,
**no state between two requests to the store has a graph without its
payload**.

Two things carry this: `save` puts the payload before the graph and
`delete` removes it after the graph; and whatever the names of two scopes,
their graphs meet just when their payloads do, and no graph ever meets a
payload.
-/

namespace Provision

open Asset Blob

/-! ## The states that a session leads through -/

namespace Blob.Session

variable {σ α β : Type} {store : Store σ}

/-- **The states of the store**: before each request of the session, and at
its end. -/
def states (store : Store σ) : Session α → σ → List σ
  | .done _, s => [s]
  | .log _ next, s => states store next s
  | .get key next, s => s :: states store (next (store.get key s).1) (store.get key s).2
  | .put key data contentType next, s =>
    let o := store.put key data contentType s
    s :: states store (next o.1) o.2
  | .delete key next, s => s :: states store (next (store.delete key s).1) (store.delete key s).2
  | .has key next, s => s :: states store (next (store.has key s).1) (store.has key s).2

@[simp] theorem states_done (a : α) (w : σ) : (done a).states store w = [w] := rfl

@[simp] theorem states_log (e : Log.Entry) (next : Session α) (w : σ) :
    (log e next).states store w = next.states store w := rfl

@[simp] theorem states_map (f : α → β) (s : Session α) (w : σ) :
    (s.map f).states store w = s.states store w := by
  induction s generalizing w with
  | done a => rfl
  | log e next ih => exact ih w
  | get key next ih => exact congrArg (w :: ·) (ih _ _)
  | put key data contentType next ih => exact congrArg (w :: ·) (ih _ _)
  | delete key next ih => exact congrArg (w :: ·) (ih _ _)
  | has key next ih => exact congrArg (w :: ·) (ih _ _)

/-- The state in which a session ends is one of them. -/
theorem run_state_mem_states (s : Session α) (w : σ) :
    (s.run store w).state ∈ s.states store w := by
  induction s generalizing w with
  | done a => exact List.mem_singleton_self w
  | log e next ih => exact ih w
  | get key next ih => exact List.mem_cons_of_mem _ (ih _ _)
  | put key data contentType next ih => exact List.mem_cons_of_mem _ (ih _ _)
  | delete key next ih => exact List.mem_cons_of_mem _ (ih _ _)
  | has key next ih => exact List.mem_cons_of_mem _ (ih _ _)

end Blob.Session

/-! ## A medium that fails -/

namespace Blob

/-- Blobs in memory on a medium that fails now and then. -/
structure Flaky where
  blobs : Memory
  /-- What goes wrong with each of the changes to come, in their order. -/
  fate : Nat → Option Trouble

namespace Flaky

/-- A change of the blobs, which comes to nothing if fate has it so. -/
def change (f : Flaky) (answer : Except Error Memory) : Except Error Unit × Flaky :=
  let (r, m) := f.blobs.step (match f.fate 0 with
    | some trouble => .error (.io trouble)
    | none => answer)
  (r, ⟨m, fun n => f.fate (n + 1)⟩)

/-- **The store in memory, whose changes may fail.** -/
def store : Store Flaky where
  get key f := (f.blobs.get key, f)
  put key data _ f := f.change (f.blobs.put key data)
  delete key f := f.change (f.blobs.delete key)
  has key f := (f.blobs.has key, f)

variable {f f' : Flaky} {key : String} {data : Stream} {contentType : String}
variable {r : Except Error Unit}

/-- A put that is refused changes nothing; any other one has put a blob. -/
theorem of_put (h : store.put key data contentType f = (r, f')) :
    (∃ e, r = .error e ∧ f'.blobs = f.blobs) ∨
      (r = .ok () ∧ ∃ bs, f'.blobs = f.blobs.insert key bs) := by
  simp only [store, change, Prod.mk.injEq] at h
  obtain ⟨rfl, rfl⟩ := h
  cases f.fate 0 with
  | some trouble => exact Or.inl ⟨.io trouble, rfl, rfl⟩
  | none =>
    rw [Memory.put]
    cases Key.check key with
    | error e => exact Or.inl ⟨e, rfl, rfl⟩
    | ok =>
      cases data.collect with
      | error e => exact Or.inl ⟨e, rfl, rfl⟩
      | ok bs => exact Or.inr ⟨rfl, bs, rfl⟩

/-- **A removal fails and changes nothing, or the blob is gone**; and only
then may the store say that it never was there. -/
theorem of_delete (h : store.delete key f = (r, f')) :
    (∃ e, r = .error e ∧ (∀ k, e ≠ .notFound k) ∧ f'.blobs = f.blobs) ∨
      ((r = .ok () ∨ r = .error (.notFound key)) ∧
        ∀ k, f'.blobs.get? k = if key = k then none else f.blobs.get? k) := by
  simp only [store, change, Prod.mk.injEq] at h
  obtain ⟨rfl, rfl⟩ := h
  cases f.fate 0 with
  | some trouble =>
    have hne : ∀ k, Error.io trouble ≠ .notFound k := by simp
    exact Or.inl ⟨.io trouble, rfl, hne, rfl⟩
  | none =>
    by_cases hkey : Key.isValid key = true
    · have hcheck : Key.check key = .ok () := by rw [Key.check, if_pos hkey]
      obtain ⟨r, m, hstep, hr, hm⟩ := Memory.delete_of_check (m := f.blobs) hcheck
      refine Or.inr ?_
      simp only [hstep]
      exact ⟨hr, hm⟩
    · have hdelete : f.blobs.delete key = .error (.invalidKey key) := by
        rw [Memory.delete, Key.check, if_neg hkey]
        rfl
      have hne : ∀ k, Error.invalidKey key ≠ .notFound k := by simp
      simp only [hdelete]
      exact Or.inl ⟨.invalidKey key, rfl, hne, rfl⟩

end Flaky

end Blob

namespace Vault

variable {m m' : Memory} {scope : Scope}

/-! ## What keeps a graph beside its payload -/

/-- **Where there is a graph, there is its payload.** -/
def Accompanied (m : Memory) : Prop :=
  ∀ scope : Scope, m.contains scope.graphKey = true → m.contains scope.bootstrapKey = true

namespace Accompanied

theorem empty : Accompanied Table.empty := fun _ h => absurd h Bool.false_ne_true

/-- A payload may be put at any time. -/
theorem put_payload (h : Accompanied m) (scope : Scope) (bs : Bytes) :
    Accompanied (m.insert scope.bootstrapKey bs) := by
  intro s hs
  have hne : scope.bootstrapKey ≠ s.graphKey := (Scope.graphKey_ne_bootstrapKey s scope).symm
  rw [Table.contains, Table.get?_insert, if_neg hne] at hs
  have hpayload : (m.get? s.bootstrapKey).isSome = true := h s hs
  rw [Table.contains, Table.get?_insert]
  split
  · rfl
  · exact hpayload

/-- A graph, once its payload is there. -/
theorem put_graph (h : Accompanied m) (hp : m.contains scope.bootstrapKey = true) (bs : Bytes) :
    Accompanied (m.insert scope.graphKey bs) := by
  intro s hs
  rw [Table.contains, Table.get?_insert, if_neg (Scope.graphKey_ne_bootstrapKey scope s)]
  by_cases heq : scope.graphKey = s.graphKey
  -- another scope with this graph has this payload, too
  · exact Scope.graphKey_eq_iff.1 heq ▸ hp
  · rw [Table.contains, Table.get?_insert, if_neg heq] at hs
    exact h s hs

/-- A graph may be removed at any time. -/
theorem remove_graph (h : Accompanied m)
    (hm : ∀ k, m'.get? k = if scope.graphKey = k then none else m.get? k) : Accompanied m' := by
  intro s hs
  rw [Table.contains, hm] at hs
  rw [Table.contains, hm, if_neg (Scope.graphKey_ne_bootstrapKey scope s)]
  split at hs
  · exact absurd hs Bool.false_ne_true
  · exact h s hs

/-- A payload, once its graph is gone. -/
theorem remove_payload (h : Accompanied m) (hg : m.get? scope.graphKey = none)
    (hm : ∀ k, m'.get? k = if scope.bootstrapKey = k then none else m.get? k) :
    Accompanied m' := by
  intro s hs
  have hne : scope.bootstrapKey ≠ s.graphKey := (Scope.graphKey_ne_bootstrapKey s scope).symm
  rw [Table.contains, hm, if_neg hne] at hs
  have hother : scope.bootstrapKey ≠ s.bootstrapKey := by
    intro heq
    rw [← Scope.graphKey_eq_iff.2 heq, hg] at hs
    exact absurd hs Bool.false_ne_true
  rw [Table.contains, hm, if_neg hother]
  exact h s hs

end Accompanied

/-! ## Session by session -/

variable {τ ν : Type} [Kind τ] [DecidableEq τ] {v : Vault τ ν} {f : Flaky}

/-- **Saving** never leaves a graph alone. -/
theorem accompanied_save (h : Accompanied f.blobs) (nonce : Cipher.Nonce) (scope : Scope)
    (g : Asset.Graph τ ν) :
    ∀ w ∈ (v.save nonce scope g).states Flaky.store f, Accompanied w.blobs := by
  rw [save]
  cases g.get? v.bootstrap with
  | none => simpa using h
  | some a =>
    rw [Session.states, List.forall_mem_cons]
    refine ⟨h, ?_⟩
    generalize hput :
      Flaky.store.put scope.bootstrapKey (.once (v.payload a)) contentType f = first
    obtain ⟨r, f₁⟩ := first
    obtain ⟨e, rfl, hf₁⟩ | ⟨rfl, bs, hf₁⟩ := Flaky.of_put hput
    · simpa [hf₁] using h
    -- from here on the payload is there, whatever becomes of the graph
    have h₁ : Accompanied f₁.blobs := hf₁ ▸ h.put_payload scope bs
    have hpayload : f₁.blobs.contains scope.bootstrapKey = true := by
      rw [hf₁, Table.contains, Table.get?_insert_self]
      rfl
    cases v.sealedSnapshot nonce g with
    | error e => simpa using h₁
    | ok sealed =>
      obtain ⟨size, content⟩ := sealed
      rw [Session.states_log, Session.states, List.forall_mem_cons]
      refine ⟨h₁, ?_⟩
      generalize hput' :
        Flaky.store.put scope.graphKey (.once content) contentType f₁ = second
      obtain ⟨r', f₂⟩ := second
      obtain ⟨e, rfl, hf₂⟩ | ⟨rfl, bs', hf₂⟩ := Flaky.of_put hput'
      · simpa [hf₂] using h₁
      · simpa [hf₂] using h₁.put_graph hpayload bs'

/-- A removal goes on only when its blob is gone. -/
theorem of_mem_states_remove {key : String} {next : Session (Except Error Unit)} {w : Flaky}
    (h : w ∈ (remove key next).states Flaky.store f) :
    w.blobs = f.blobs ∨ ∃ f' : Flaky, w ∈ next.states Flaky.store f' ∧
      ∀ k, f'.blobs.get? k = if key = k then none else f.blobs.get? k := by
  rw [remove, Session.states, List.mem_cons] at h
  obtain rfl | h := h
  · exact Or.inl rfl
  generalize hdelete : Flaky.store.delete key f = removal at h
  obtain ⟨r, f'⟩ := removal
  obtain ⟨e, rfl, hne, hf'⟩ | ⟨rfl | rfl, hf'⟩ := Flaky.of_delete hdelete
  · -- any other error than a blob that never was there ends the session
    cases e with
    | notFound k => exact absurd rfl (hne k)
    | invalidKey k => exact Or.inl (by rw [List.mem_singleton.1 h, hf'])
    | io trouble => exact Or.inl (by rw [List.mem_singleton.1 h, hf'])
  · exact Or.inr ⟨f', h, hf'⟩
  · exact Or.inr ⟨f', h, hf'⟩

/-- **Deleting** never leaves a graph alone. -/
theorem accompanied_delete (h : Accompanied f.blobs) (scope : Scope) :
    ∀ w ∈ (delete scope).states Flaky.store f, Accompanied w.blobs := by
  intro w hw
  obtain hw | ⟨f₁, hw, hf₁⟩ := of_mem_states_remove hw
  · exact hw ▸ h
  have h₁ : Accompanied f₁.blobs := h.remove_graph hf₁
  have hgone : f₁.blobs.get? scope.graphKey = none := by rw [hf₁, if_pos rfl]
  obtain hw | ⟨f₂, hw, hf₂⟩ := of_mem_states_remove hw
  · exact hw ▸ h₁
  have h₂ : Accompanied f₂.blobs := h₁.remove_payload hgone hf₂
  rw [Session.states_log, Session.states_done, List.mem_singleton] at hw
  exact hw ▸ h₂

omit [Kind τ] [DecidableEq τ] in
/-- A blob that is only fetched leaves all as it is. -/
theorem eq_of_mem_states_download {α : Type} {key : String}
    {next : Bytes → Session (Except Error α)} {w : Flaky}
    (hnext : ∀ bs, (next bs).states Flaky.store f = [f])
    (h : w ∈ (download key scope next).states Flaky.store f) : w = f := by
  obtain ⟨after, hafter, hr⟩ := download_eq key scope next
  rw [hafter, Session.states, List.mem_cons] at h
  obtain rfl | h := h
  · rfl
  rw [show (Flaky.store.get key f).2 = f from rfl] at h
  obtain ⟨e, he⟩ | ⟨content, hcontent⟩ := hr (Flaky.store.get key f).1
  · rw [he] at h
    exact List.mem_singleton.1 h
  · rw [hcontent, hnext] at h
    exact List.mem_singleton.1 h

omit [Kind τ] [DecidableEq τ] in
theorem eq_of_mem_states_load (scope : Scope) :
    ∀ w ∈ (v.load scope).states Flaky.store f, w = f := by
  intro w hw
  refine eq_of_mem_states_download (fun bs => ?_) hw
  cases v.openSnapshot bs <;> rfl

theorem eq_of_mem_states_loadBootstrap (scope : Scope) :
    ∀ w ∈ (loadBootstrap scope).states Flaky.store f, w = f :=
  fun _ hw => eq_of_mem_states_download (fun _ => rfl) hw

theorem eq_of_mem_states_has (scope : Scope) : ∀ w ∈ (has scope).states Flaky.store f, w = f := by
  intro w hw
  rw [has, Session.states, List.mem_cons] at hw
  obtain rfl | hw := hw
  · rfl
  rw [show (Flaky.store.has scope.graphKey f).2 = f from rfl] at hw
  split at hw <;> exact List.mem_singleton.1 hw

/-- **One request**, whichever it is. -/
theorem accompanied_serve (h : Accompanied f.blobs) (q : Request τ ν) :
    ∀ w ∈ (v.serve q).states Flaky.store f, Accompanied w.blobs := by
  obtain ⟨scope, order⟩ := q
  intro w hw
  cases order with
  | save nonce g => exact accompanied_save h nonce scope g w (by simpa [serve] using hw)
  | load => exact eq_of_mem_states_load scope w (by simpa [serve] using hw) ▸ h
  | loadBootstrap => exact eq_of_mem_states_loadBootstrap scope w (by simpa [serve] using hw) ▸ h
  | has => exact eq_of_mem_states_has scope w (by simpa [serve] using hw) ▸ h
  | delete => exact accompanied_delete h scope w (by simpa [serve] using hw)

/-! ## All that can be asked -/

/-- The states of the store while requests are carried out one after the
other: between any two requests to the store, and at the end. -/
def states {σ : Type} (v : Vault τ ν) (store : Store σ) : List (Request τ ν) → σ → List σ
  | [], w => [w]
  | q :: qs, w =>
    (v.serve q).states store w ++ v.states store qs ((v.serve q).run store w).state

theorem accompanied_states (qs : List (Request τ ν)) (h : Accompanied f.blobs) :
    ∀ w ∈ v.states Flaky.store qs f, Accompanied w.blobs := by
  induction qs generalizing f with
  | nil => exact fun w hw => List.mem_singleton.1 hw ▸ h
  | cons q qs ih =>
    have hserve := accompanied_serve (v := v) h q
    intro w hw
    obtain hw | hw := List.mem_append.1 hw
    · exact hserve w hw
    -- the next request starts where this one ended, which is one of its states
    · exact ih (hserve _ (Session.run_state_mem_states _ _)) w hw

/-- **A sealed graph is never there without its payload.** From an empty
store, whatever is asked about whatever scopes, and whichever of the puts
and removals fail: in every state between two requests to the store, a scope
whose graph is there has its payload there. -/
theorem payload_beside_graph (v : Vault τ ν) (qs : List (Request τ ν))
    (fate : Nat → Option Trouble) :
    ∀ w ∈ v.states Flaky.store qs ⟨Table.empty, fate⟩, ∀ scope : Scope,
      w.blobs.contains scope.graphKey = true → w.blobs.contains scope.bootstrapKey = true :=
  accompanied_states qs .empty

end Vault

end Provision

/-! ## A rehearsal -/

namespace Provision.Rehearsal

open Asset

/-- A graph is saved for one scope and removed for another that reads the
same. -/
def sharedRequests : List (Vault.Request Role String) :=
  let whole : Asset.Graph Role String := Graph.empty.put rehearsedVault.bootstrap "payload"
  [⟨⟨"group/sub", "one"⟩, .save (Vector.replicate 12 (UInt8.ofNat 1)) whole⟩,
    ⟨⟨"group", "sub/one"⟩, .delete⟩]

/-- The third change fails. -/
def thirdFails (n : Nat) : Option Blob.Trouble :=
  if n = 2 then some (.reported "no medium") else none

/-- The removal of the graph fails, and so the payload is there at the end,
too. -/
theorem payload_beside_graph_shared :
    let other : Vault.Scope := ⟨"group", "sub/one"⟩
    ∃ w, (rehearsedVault.states Blob.Flaky.store sharedRequests
        ⟨Table.empty, thirdFails⟩).getLast? = some w ∧
      w.blobs.contains other.graphKey = true ∧ w.blobs.contains other.bootstrapKey = true := by
  intro other
  have hend : (rehearsedVault.states Blob.Flaky.store sharedRequests
      ⟨Table.empty, thirdFails⟩).getLast?.map (fun w => w.blobs.contains other.graphKey) =
        some true := by
    decide +kernel
  obtain ⟨w, hlast, hgraph⟩ := Option.map_eq_some_iff.1 hend
  have hw := List.mem_of_getLast? hlast
  exact ⟨w, hlast, hgraph, Vault.payload_beside_graph rehearsedVault _ _ w hw other hgraph⟩

end Provision.Rehearsal
