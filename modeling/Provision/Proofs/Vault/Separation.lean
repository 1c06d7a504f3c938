import Provision.Proofs.Vault.Slots
/-!
# The vault — separation

A store knows no scopes. It knows keys, and a key is the two names of a
scope with slashes between them: what tells scopes apart is how they read,
and `group/sub`, `one` reads like `group`, `sub/one`.

So one scope is out of the reach of another **just when the two do not read
the same** (`undisturbed_iff`), and then whole runs leave it alone
(`sight_serveAll`). Scopes of plain names need only be different
(`undisturbed_of_plain`); where a name holds a slash, different scopes can
share all they have.
-/

namespace Provision.Vault

open Asset Blob

variable {τ ν : Type} [Kind τ] [DecidableEq τ] {v : Vault τ ν} {m m' : Memory} {a b : Scope}

/-! ## What a scope shows -/

/-- What is found out about a scope by asking. -/
structure Sight where
  known : Except Error Bool
  loaded : Except Error Snapshot
  fetched : Except Error Bytes

omit [Kind τ] [DecidableEq τ] in
/-- **What a store in memory shows of a scope.** -/
def sight (v : Vault τ ν) (m : Memory) (scope : Scope) : Sight where
  known := ((has scope).run Memory.store m).result
  loaded := ((v.load scope).run Memory.store m).result
  fetched := ((loadBootstrap scope).run Memory.store m).result

/-- **Whatever is written for the one scope, the other shows what it showed
before.** -/
structure Undisturbed (v : Vault τ ν) (a b : Scope) : Prop where
  save : ∀ (m : Memory) (nonce : Cipher.Nonce) (g : Asset.Graph τ ν),
    v.sight ((v.save nonce a g).run Memory.store m).state b = v.sight m b
  delete : ∀ m : Memory, v.sight ((Vault.delete a).run Memory.store m).state b = v.sight m b

omit [Kind τ] [DecidableEq τ] in
/-- **A scope shows its two blobs and nothing else.** -/
theorem sight_congr (hb : b.Accepted) (hpayload : m'.get? b.bootstrapKey = m.get? b.bootstrapKey)
    (hgraph : m'.get? b.graphKey = m.get? b.graphKey) : v.sight m' b = v.sight m b := by
  simp only [sight, Sight.mk.injEq]
  refine ⟨?_, ?_, ?_⟩
  · rw [(run_has hb).1, (run_has hb).1, hgraph]
  · rw [(run_load hb).1, (run_load hb).1, hgraph]
  · rw [(run_loadBootstrap hb).1, (run_loadBootstrap hb).1, hpayload]

/-! ## Who is disturbed -/

omit [Kind τ] [DecidableEq τ] in
/-- **What leaves all other keys alone leaves the other scope alone**, if
the two do not read the same. -/
theorem sight_of_others (hb : b.Accepted) (h : a.display ≠ b.display)
    (hothers : ∀ k, a.bootstrapKey ≠ k → a.graphKey ≠ k → m'.get? k = m.get? k) :
    v.sight m' b = v.sight m b := by
  have hpayload : a.bootstrapKey ≠ b.bootstrapKey := fun heq => h (Scope.key_eq_iff.1 heq)
  have hgraph : a.graphKey ≠ b.graphKey := fun heq => h (Scope.key_eq_iff.1 heq)
  exact sight_congr hb (hothers _ hpayload (Scope.graphKey_ne_bootstrapKey a b))
    (hothers _ (Scope.graphKey_ne_bootstrapKey b a).symm hgraph)

theorem undisturbed_of_display_ne (ha : a.Accepted) (hb : b.Accepted)
    (h : a.display ≠ b.display) : v.Undisturbed a b where
  save m nonce g := sight_of_others hb h fun _ => get?_run_save ha
  delete m := sight_of_others hb h fun k hpayload hgraph => by
    rw [(run_delete ha).2, if_neg (by simp [hpayload, hgraph])]

/-- **Different scopes of plain names are out of each other's reach.** -/
theorem undisturbed_of_plain (ha : a.Plain) (hb : b.Plain) (hne : a ≠ b) : v.Undisturbed a b :=
  undisturbed_of_display_ne ha.accepted hb.accepted fun h =>
    hne ((Scope.graphKey_inj ha hb).1 (Scope.key_eq_iff.2 h))

/-- **One request** for another scope. -/
theorem sight_serve (hb : b.Accepted) {q : Request τ ν} (hq : q.scope.Accepted)
    (h : q.scope.display ≠ b.display) :
    v.sight ((v.serve q).run Memory.store m).state b = v.sight m b := by
  obtain ⟨scope, order⟩ := q
  have hpair : v.Undisturbed scope b := undisturbed_of_display_ne hq hb h
  cases order with
  | save nonce g =>
    rw [serve, Session.run_map]
    exact hpair.save m nonce g
  | delete =>
    rw [serve, Session.run_map]
    exact hpair.delete m
  -- the others only look
  | load => rw [serve, Session.run_map, (run_load hq).2]
  | loadBootstrap => rw [serve, Session.run_map, (run_loadBootstrap hq).2]
  | has => rw [serve, Session.run_map, (run_has hq).2]

/-- **Any number of requests** for other scopes. -/
theorem sight_serveAll (hb : b.Accepted) (qs : List (Request τ ν))
    (hqs : ∀ q ∈ qs, q.scope.Accepted ∧ q.scope.display ≠ b.display) :
    v.sight (qs.foldl (fun m q => ((v.serve q).run Memory.store m).state) m) b = v.sight m b := by
  induction qs generalizing m with
  | nil => rfl
  | cons q qs ih =>
    obtain ⟨hq, hne⟩ := hqs q List.mem_cons_self
    rw [List.foldl_cons, ih fun p hp => hqs p (List.mem_cons_of_mem _ hp), sight_serve hb hq hne]

/-- **Separation.** Of two scopes whose keys are accepted, what is saved or
deleted for the one shows in the other just when both read the same. -/
theorem undisturbed_iff (v : Vault τ ν) (ha : a.Accepted) (hb : b.Accepted) :
    v.Undisturbed a b ↔ a.display ≠ b.display := by
  refine ⟨fun h heq => ?_, undisturbed_of_display_ne ha hb⟩
  -- a graph that both scopes have is gone from the one when the other is deleted
  let m : Memory := Table.empty.insert b.graphKey []
  have hgraph : a.graphKey = b.graphKey := Scope.key_eq_iff.2 heq
  have hbefore : (v.sight m b).known = .ok true := by
    rw [sight, (run_has hb).1, Table.get?_insert_self]
    rfl
  have hafter : (v.sight ((delete a).run Memory.store m).state b).known = .ok false := by
    rw [sight, (run_has hb).1, (run_delete ha).2, if_pos (Or.inr hgraph)]
    rfl
  rw [h.delete m, hbefore] at hafter
  cases hafter

end Provision.Vault

/-! ## A rehearsal -/

namespace Provision.Rehearsal

open Asset

/-- Two scopes that read the same. -/
def sharedScopes : Vault.Scope × Vault.Scope := (⟨"group/sub", "one"⟩, ⟨"group", "sub/one"⟩)

/-- A graph that is saved for the one is found under the other. -/
theorem scopes_share_a_graph :
    sharedScopes.1 ≠ sharedScopes.2 ∧ sharedScopes.1.Accepted ∧ sharedScopes.2.Accepted ∧
    (rehearsedVault.sight Table.empty sharedScopes.2).known = .ok false ∧
    (rehearsedVault.sight ((rehearsedVault.save (Vector.replicate 12 (UInt8.ofNat 1))
      sharedScopes.1 (Graph.empty.put (.node 0) "payload")).run Blob.Memory.store
        Table.empty).state sharedScopes.2).known = .ok true := by
  refine ⟨by decide, ⟨by decide +kernel, by decide +kernel⟩, ⟨by decide +kernel, by decide +kernel⟩,
    by decide +kernel, by decide +kernel⟩

/-- Two accounts of one group do not read the same, and the shared scopes
do. -/
theorem undisturbed_iff_accounts :
    let one : Vault.Scope := ⟨"group", "one"⟩
    let two : Vault.Scope := ⟨"group", "two"⟩
    rehearsedVault.Undisturbed one two ∧
      ¬ rehearsedVault.Undisturbed sharedScopes.1 sharedScopes.2 := by
  intro one two
  have hone : one.Accepted := ⟨by decide +kernel, by decide +kernel⟩
  have htwo : two.Accepted := ⟨by decide +kernel, by decide +kernel⟩
  have hfirst : sharedScopes.1.Accepted := ⟨by decide +kernel, by decide +kernel⟩
  have hsecond : sharedScopes.2.Accepted := ⟨by decide +kernel, by decide +kernel⟩
  exact ⟨(Vault.undisturbed_iff rehearsedVault hone htwo).2 (by decide),
    fun h => (Vault.undisturbed_iff rehearsedVault hfirst hsecond).1 h rfl⟩

end Provision.Rehearsal
