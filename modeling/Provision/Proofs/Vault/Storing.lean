import Provision.Proofs.Asset.Persistence
import Provision.Proofs.Vault.Slots
/-!
# The vault — storing one graph

A slot says what is kept for a scope if it is known what was kept before.
Of a store about which nothing is known a save that succeeds makes the same:
**its graph and its payload are what the two blobs of the scope hold**
(`stores_of_run_save`), and the store gives both (`Stores.returns`). To save
the graph once more changes nothing of that, not even by failing half-way
(`Stores.save`).
-/

namespace Provision.Vault

open Asset Blob

variable {τ ν : Type} [Kind τ] [DecidableEq τ] {v : Vault τ ν} {m : Memory} {scope : Scope}
variable {nonce : Cipher.Nonce} {g : Asset.Graph τ ν}

/-- **What a store in memory gives for a scope is this graph**: a snapshot of
all its assets, each of which is read back, and the payload. -/
structure Returns (v : Vault τ ν) (m : Memory) (scope : Scope) (g : Asset.Graph τ ν) : Prop where
  loaded : ∃ sn, ((v.load scope).run Memory.store m).result = .ok sn ∧
    g.snapshot v.codec = .ok sn ∧ sn.names = g.names ∧
      ∀ t x, g.get? t = some x → sn.get v.codec t = .ok x
  fetched : ∃ x, g.get? v.bootstrap = some x ∧
    ((loadBootstrap scope).run Memory.store m).result = .ok (v.payload x)

/-- **The blobs of a scope are this graph and its payload.** -/
structure Stores (v : Vault τ ν) (m : Memory) (scope : Scope) (g : Asset.Graph τ ν) : Prop where
  accepted : scope.Accepted
  kept : ∃ x, g.get? v.bootstrap = some x ∧ Kept v m scope ⟨some g, some (v.payload x)⟩

theorem Stores.returns (hcodec : v.codec.Lawful) (h : Stores v m scope g) :
    Returns v m scope g := by
  obtain ⟨x, hx, hk⟩ := h.kept
  obtain ⟨hload, -⟩ := run_load (v := v) (m := m) h.accepted
  obtain ⟨hfetch, -⟩ := run_loadBootstrap (m := m) h.accepted
  refine ⟨?_, x, hx, ?_⟩
  · have hgraph := hk.graph
    generalize m.get? scope.graphKey = blob at hgraph hload
    cases hgraph with
    | some hopen hm =>
      rw [hload, Option.elim_some, hopen]
      exact ⟨_, rfl, Asset.Graph.snapshot_eq_of_mirrors hm, hm.names_eq,
        fun t y hy => hm.get_eq hcodec hy⟩
  · rw [hfetch, hk.payload]
    rfl

/-- **A save that succeeds stores its graph**, whatever was there. -/
theorem stores_of_run_save (hseal : v.sealer.Opens) (hcodec : v.codec.Lawful)
    (h : ((v.save nonce scope g).run Memory.store m).result = .ok ()) :
    Stores v ((v.save nonce scope g).run Memory.store m).state scope g := by
  have hscope := accepted_of_run_save h
  obtain ⟨x, n, bs, hx, hs, -⟩ := sealed_of_run_save h
  obtain ⟨sn, hsn, -, hbs⟩ := of_sealedSnapshot hs
  obtain ⟨hopen, hm⟩ := openSnapshot_of_sealed hseal hcodec hsn hbs
  refine ⟨hscope, x, hx, ?_⟩
  rw [(run_save_ok hscope hx hs).2]
  refine ⟨?_, ?_⟩
  · rw [Table.get?_insert, if_neg (Scope.graphKey_ne_bootstrapKey scope scope),
      Table.get?_insert_self]
  · rw [Table.get?_insert_self]
    exact .some hopen hm

/-- A slot is left as it is by a save of what it holds. -/
theorem Slot.Step.save_again {x : ν} {a : Answer} {s : Slot τ ν} (hx : g.get? v.bootstrap = some x)
    (h : Step v scope ⟨some g, some (v.payload x)⟩ (.save nonce g) a s) :
    s = ⟨some g, some (v.payload x)⟩ := by
  -- the payload of a save that fails is the one that is there
  cases h with
  | lacking => rfl
  | unwritten hx' => rw [Option.some.inj (hx'.symm.trans hx)]
  | unsealed hx' => rw [Option.some.inj (hx'.symm.trans hx)]
  | saved hx' => rw [Option.some.inj (hx'.symm.trans hx)]

/-- **Saving the graph once more leaves it stored**, also if that fails. -/
theorem Stores.save (hseal : v.sealer.Opens) (hcodec : v.codec.Lawful) (h : Stores v m scope g)
    (nonce : Cipher.Nonce) :
    Stores v ((v.save nonce scope g).run Memory.store m).state scope g := by
  obtain ⟨x, hx, hk⟩ := h.kept
  obtain ⟨s', hsaved⟩ := hk.save hseal hcodec h.accepted nonce g
  obtain rfl := hsaved.step.save_again hx
  exact ⟨h.accepted, x, hx, hsaved.kept⟩

end Provision.Vault
