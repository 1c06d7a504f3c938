import Provision.Blob.Memory
import Provision.Proofs.Vault.Scope
import Provision.Vault.Basic
/-!
# The vault — what its sessions do to a store in memory

One lemma for each way in which an operation can go on a scope whose keys
are accepted: its result, and the store afterwards. Whoever reasons about a
vault over memory cites these and **looks at no session again**. A save
that succeeds says that they are accepted, and that the graph was sealed.
-/

namespace Provision

open Asset Blob

namespace Blob.Session

variable {σ α β : Type} (store : Store σ) (f : α → β)

theorem run_log (e : Log.Entry) (next : Session α) (w : σ) :
    (log e next).run store w =
      ⟨(next.run store w).result, e :: (next.run store w).log, (next.run store w).state⟩ := rfl

theorem run_get (key : String) (next : Except Error Stream → Session α) (w : σ) :
    (get key next).run store w = (next (store.get key w).1).run store (store.get key w).2 := rfl

theorem run_put (key : String) (data : Stream) (contentType : String)
    (next : Except Error Unit → Session α) (w : σ) :
    (put key data contentType next).run store w =
      (next (store.put key data contentType w).1).run store
        (store.put key data contentType w).2 := rfl

theorem run_map (s : Session α) (w : σ) :
    (s.map f).run store w =
      ⟨f (s.run store w).result, (s.run store w).log, (s.run store w).state⟩ := by
  induction s generalizing w with
  | done a => rfl
  | log e next ih => simp only [map, run, ih]
  | get key next ih => simp only [map, run, ih]
  | put key data contentType next ih => simp only [map, run, ih]
  | delete key next ih => simp only [map, run, ih]
  | has key next ih => simp only [map, run, ih]

end Blob.Session

namespace Blob.Memory

variable {m : Memory} {key : String} {bs : Bytes}

/-! ## Requests under a valid key -/

theorem get_of_some (h : Key.check key = .ok ()) (hm : m.get? key = some bs) :
    m.get key = .ok (.once bs) := by
  rw [Memory.get, h]
  simp only [hm]
  rfl

theorem get_of_none (h : Key.check key = .ok ()) (hm : m.get? key = none) :
    m.get key = .error (.notFound key) := by
  rw [Memory.get, h]
  simp only [hm]
  rfl

theorem put_once (h : Key.check key = .ok ()) : m.put key (.once bs) = .ok (m.insert key bs) := by
  rw [Memory.put, h, Stream.collect_once]
  rfl

/-- Nothing is put under what is no key. -/
theorem check_of_put {data : Stream} (h : (m.step (m.put key data)).1 = .ok ()) :
    Key.check key = .ok () := by
  cases hkey : Key.check key with
  | ok => rfl
  | error e =>
    rw [Memory.put, hkey] at h
    cases h

theorem has_of_check (h : Key.check key = .ok ()) : m.has key = .ok (m.contains key) := by
  rw [Memory.has, h]
  rfl

/-- **After a removal nothing stands under the key**, whatever the answer
was, and all else is as before. -/
theorem delete_of_check (h : Key.check key = .ok ()) :
    ∃ r m', m.step (m.delete key) = (r, m') ∧ (r = .ok () ∨ r = .error (.notFound key)) ∧
      ∀ k, m'.get? k = if key = k then none else m.get? k := by
  rw [Memory.delete, h]
  by_cases hc : m.contains key = true
  · refine ⟨.ok (), m.erase key, ?_, Or.inl rfl, fun k => m.get?_erase key k⟩
    change m.step (if m.contains key = true then _ else _) = _
    rw [if_pos hc]
    rfl
  · refine ⟨.error (.notFound key), m, ?_, Or.inr rfl, fun k => ?_⟩
    · change m.step (if m.contains key = true then _ else _) = _
      rw [if_neg hc]
      rfl
    · split
      · next heq =>
        subst heq
        rw [Table.contains, Option.not_isSome_iff_eq_none] at hc
        exact hc
      · rfl

end Blob.Memory

namespace Vault

variable {τ ν : Type} [Kind τ] [DecidableEq τ] {v : Vault τ ν} {m : Memory} {scope : Scope}
variable {nonce : Cipher.Nonce} {g : Asset.Graph τ ν} {a : ν} {bs : Bytes}

/-! ## Saving -/

omit [DecidableEq τ] in
/-- What is sealed of a graph is the document of its snapshot. -/
theorem of_sealedSnapshot {n : Nat} (h : v.sealedSnapshot nonce g = .ok (n, bs)) :
    ∃ sn, g.snapshot v.codec = .ok sn ∧ n = sn.size ∧
      v.sealer.encrypt nonce (Utf8.encode sn.render) = .ok bs := by
  rw [sealedSnapshot] at h
  cases hsn : g.snapshot v.codec with
  | error e => rw [hsn] at h; cases h
  | ok sn =>
    simp only [hsn] at h
    cases hbs : v.sealer.encrypt nonce (Utf8.encode sn.render) with
    | error e => rw [hbs] at h; cases h
    | ok bs =>
      rw [hbs] at h
      cases h
      exact ⟨sn, rfl, rfl, hbs⟩

/-- A graph without the asset of the payload changes nothing. -/
theorem run_save_lacking (h : g.get? v.bootstrap = none) :
    ((v.save nonce scope g).run Memory.store m).result =
      .error (.missingBootstrap (Kind.name v.bootstrap)) ∧
    ((v.save nonce scope g).run Memory.store m).state = m := by
  rw [save, h]
  exact ⟨rfl, rfl⟩

/-- **A graph that cannot be sealed leaves its payload behind.** -/
theorem run_save_refused (hscope : scope.Accepted) (h : g.get? v.bootstrap = some a) {e : Error}
    (hs : v.sealedSnapshot nonce g = .error e) :
    ((v.save nonce scope g).run Memory.store m).result = .error e ∧
    ((v.save nonce scope g).run Memory.store m).state =
      m.insert scope.bootstrapKey (v.payload a) := by
  have hput : m.put scope.bootstrapKey (.once (v.payload a)) = _ :=
    Memory.put_once hscope.payload
  rw [save, h]
  simp only [Session.run, Memory.store, hput, Memory.step, hs]
  exact ⟨trivial, trivial⟩

/-- **A graph that can be sealed is kept with its payload.** -/
theorem run_save_ok (hscope : scope.Accepted) (h : g.get? v.bootstrap = some a) {n : Nat}
    (hs : v.sealedSnapshot nonce g = .ok (n, bs)) :
    ((v.save nonce scope g).run Memory.store m).result = .ok () ∧
    ((v.save nonce scope g).run Memory.store m).state =
      (m.insert scope.bootstrapKey (v.payload a)).insert scope.graphKey bs := by
  have hput : m.put scope.bootstrapKey (.once (v.payload a)) = _ :=
    Memory.put_once hscope.payload
  have hput' : Memory.put (m.insert scope.bootstrapKey (v.payload a)) scope.graphKey
      (.once bs) = _ :=
    Memory.put_once hscope.graph
  rw [save, h]
  simp only [Session.run, Memory.store, hput, Memory.step, hs, hput']
  exact ⟨trivial, trivial⟩

/-- **A save touches the blobs of its scope and no other.** -/
theorem get?_run_save (hscope : scope.Accepted) {k : String} (hpayload : scope.bootstrapKey ≠ k)
    (hgraph : scope.graphKey ≠ k) :
    ((v.save nonce scope g).run Memory.store m).state.get? k = m.get? k := by
  cases h : g.get? v.bootstrap with
  | none => rw [(run_save_lacking h).2]
  | some a =>
    cases hs : v.sealedSnapshot nonce g with
    | error e => rw [(run_save_refused hscope h hs).2, Table.get?_insert, if_neg hpayload]
    | ok sealed =>
      rw [(run_save_ok hscope h hs).2, Table.get?_insert, if_neg hgraph, Table.get?_insert,
        if_neg hpayload]

/-- **A save that succeeds has put the payload and the sealed graph**,
whatever the store. -/
theorem sealed_of_run_save {σ : Type} {store : Store σ} {w : σ}
    (h : ((v.save nonce scope g).run store w).result = .ok ()) :
    ∃ a n bs, g.get? v.bootstrap = some a ∧ v.sealedSnapshot nonce g = .ok (n, bs) ∧
      (store.put scope.bootstrapKey (.once (v.payload a)) contentType w).1 = .ok () ∧
      ∃ w₁, (store.put scope.graphKey (.once bs) contentType w₁).1 = .ok () := by
  rw [save] at h
  cases ha : g.get? v.bootstrap with
  | none => rw [ha] at h; cases h
  | some a =>
    simp only [ha, Session.run_put] at h
    cases hput : (store.put scope.bootstrapKey (.once (v.payload a)) contentType w).1 with
    | error e => rw [hput] at h; cases h
    | ok =>
      cases hs : v.sealedSnapshot nonce g with
      | error e => simp only [hput, hs] at h; cases h
      | ok sealed =>
        obtain ⟨n, bs⟩ := sealed
        simp only [hput, hs, Session.run_log, Session.run_put] at h
        generalize (store.put scope.bootstrapKey _ _ w).2 = w₁ at h
        cases hput' : (store.put scope.graphKey (.once bs) contentType w₁).1 with
        | error e => rw [hput'] at h; cases h
        | ok => exact ⟨a, n, bs, rfl, rfl, hput, w₁, hput'⟩

/-- In memory it has keys that are accepted. -/
theorem accepted_of_run_save (h : ((v.save nonce scope g).run Memory.store m).result = .ok ()) :
    scope.Accepted := by
  obtain ⟨a, n, bs, -, -, hput, m₁, hput'⟩ := sealed_of_run_save h
  exact ⟨Memory.check_of_put hput, Memory.check_of_put hput'⟩

/-! ## What follows an answer -/

/-- **A download ends, or goes on with the content.** -/
theorem download_eq {α : Type} (key : String) (scope : Scope)
    (next : Bytes → Session (Except Error α)) :
    ∃ after, download key scope next = .get key after ∧
      ∀ r, (∃ e, after r = .done (.error e)) ∨ ∃ content, after r = next content := by
  refine ⟨_, rfl, fun r => ?_⟩
  rcases r with (_ | _ | _) | stream
  · exact Or.inl ⟨_, rfl⟩
  · exact Or.inl ⟨_, rfl⟩
  · exact Or.inl ⟨_, rfl⟩
  · dsimp only
    cases stream.collect with
    | error e => exact Or.inl ⟨_, rfl⟩
    | ok content => exact Or.inr ⟨content, rfl⟩

/-- **A removal ends, or goes on.** -/
theorem remove_eq (key : String) (next : Session (Except Error Unit)) :
    ∃ after, remove key next = .delete key after ∧
      ∀ r, (∃ e, after r = .done (.error e)) ∨ after r = next := by
  refine ⟨_, rfl, fun r => ?_⟩
  rcases r with (_ | _ | _) | ⟨⟩
  · exact Or.inr rfl
  · exact Or.inl ⟨_, rfl⟩
  · exact Or.inl ⟨_, rfl⟩
  · exact Or.inr rfl

/-! ## Loading -/

theorem run_download_none {α : Type} {key : String} (hkey : Key.check key = .ok ())
    (h : m.get? key = none) (next : Bytes → Session (Except Error α)) :
    (download key scope next).run Memory.store m = ⟨.error (.notPersisted scope), [], m⟩ := by
  simp only [download, Session.run, Memory.store, Memory.get_of_none hkey h]

theorem run_download_some {α : Type} {key : String} (hkey : Key.check key = .ok ())
    (h : m.get? key = some bs) (next : Bytes → Session (Except Error α)) :
    (download key scope next).run Memory.store m = (next bs).run Memory.store m := by
  simp only [download, Session.run, Memory.store, Memory.get_of_some hkey h, Stream.collect_once]

omit [Kind τ] [DecidableEq τ] in
/-- What was sealed is opened, if there is anything. -/
theorem run_load (hscope : scope.Accepted) :
    ((v.load scope).run Memory.store m).result =
      (m.get? scope.graphKey).elim (.error (.notPersisted scope)) v.openSnapshot ∧
    ((v.load scope).run Memory.store m).state = m := by
  cases h : m.get? scope.graphKey with
  | none =>
    rw [load, run_download_none hscope.graph h]
    exact ⟨rfl, rfl⟩
  | some bs =>
    rw [load, run_download_some hscope.graph h, Option.elim_some]
    cases v.openSnapshot bs <;> exact ⟨rfl, rfl⟩

theorem run_loadBootstrap (hscope : scope.Accepted) :
    ((loadBootstrap scope).run Memory.store m).result =
      ((m.get? scope.bootstrapKey).elim (.error (.notPersisted scope)) .ok) ∧
    ((loadBootstrap scope).run Memory.store m).state = m := by
  cases h : m.get? scope.bootstrapKey with
  | none =>
    rw [loadBootstrap, run_download_none hscope.payload h]
    exact ⟨rfl, rfl⟩
  | some bs =>
    rw [loadBootstrap, run_download_some hscope.payload h]
    exact ⟨rfl, rfl⟩

theorem run_has (hscope : scope.Accepted) :
    ((has scope).run Memory.store m).result = .ok (m.get? scope.graphKey).isSome ∧
    ((has scope).run Memory.store m).state = m := by
  rw [has]
  simp only [Session.run, Memory.store, Memory.has_of_check hscope.graph]
  exact ⟨rfl, trivial⟩

/-! ## Deleting -/

/-- A blob that may be absent is absent afterwards, and the session goes
on. -/
theorem run_remove {key : String} (hkey : Key.check key = .ok ())
    (next : Session (Except Error Unit)) :
    ∃ m', (remove key next).run Memory.store m = next.run Memory.store m' ∧
      ∀ k, m'.get? k = if key = k then none else m.get? k := by
  obtain ⟨r, m', hstep, hr, hm'⟩ := Memory.delete_of_check (m := m) hkey
  refine ⟨m', ?_, hm'⟩
  simp only [remove, Session.run, Memory.store, hstep]
  -- an absent blob is no failure of the session
  rcases hr with rfl | rfl <;> rfl

/-- **Both blobs of the scope are gone**, whether they were there or not. -/
theorem run_delete (hscope : scope.Accepted) :
    ((delete scope).run Memory.store m).result = .ok () ∧
    ∀ k, ((delete scope).run Memory.store m).state.get? k =
      if scope.bootstrapKey = k ∨ scope.graphKey = k then none else m.get? k := by
  obtain ⟨m₁, h₁, hm₁⟩ := run_remove (m := m) hscope.graph
    (remove scope.bootstrapKey <|
      .log ⟨.info, "deleted persisted asset graph", [("scope", .text scope.display)]⟩ <|
        .done (.ok ()))
  obtain ⟨m₂, h₂, hm₂⟩ := run_remove (m := m₁) hscope.payload
    (.log ⟨.info, "deleted persisted asset graph", [("scope", .text scope.display)]⟩ <|
        .done (.ok ()))
  rw [delete, h₁, h₂]
  refine ⟨rfl, fun k => ?_⟩
  change m₂.get? k = _
  rw [hm₂, hm₁]
  by_cases hb : scope.bootstrapKey = k <;> by_cases hg : scope.graphKey = k <;> simp [hb, hg]

end Vault

end Provision
