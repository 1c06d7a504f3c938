import Provision.Proofs.Vault.Slots
/-!
# The vault — secrecy

Of a graph that is saved only one asset's payload is meant to be read by
others. What others can see of a vault is what it asks of the store, with
every octet, what it logs, and how it leaves the store (`Footprint`).

With a sealer whose sealed forms do not depend on what is sealed, **two
graphs with one payload and one number of assets are saved by the same
session**, if they can be saved at all (`save_congr`). So nothing that
others can see tells them apart, neither then nor later
(`save_shows_payload_only`).
-/

namespace Provision

open Asset Blob

/-! ## What is asked of a store -/

namespace Blob

/-- A request to a store, with all that it carries. -/
inductive Call where
  | get (key : String)
  | put (key : String) (data : Stream) (contentType : String)
  | delete (key : String)
  | has (key : String)
  deriving Repr, DecidableEq

/-- **The requests of a session** in their order. -/
def Session.calls {σ α : Type} (store : Store σ) : Session α → σ → List Call
  | .done _, _ => []
  | .log _ next, w => calls store next w
  | .get key next, w => .get key :: calls store (next (store.get key w).1) (store.get key w).2
  | .put key data contentType next, w =>
    let o := store.put key data contentType w
    .put key data contentType :: calls store (next o.1) o.2
  | .delete key next, w =>
    .delete key :: calls store (next (store.delete key w).1) (store.delete key w).2
  | .has key next, w => .has key :: calls store (next (store.has key w).1) (store.has key w).2

end Blob

/-- **What a sealer makes of a payload does not depend on the payload.** -/
def Cipher.Sealer.Blind (s : Cipher.Sealer) : Prop :=
  ∀ nonce plain plain', s.encrypt nonce plain = s.encrypt nonce plain'

namespace Vault

variable {τ ν σ : Type} [Kind τ] [DecidableEq τ] {v : Vault τ ν} {store : Store σ} {w : σ}
variable {scope : Scope} {nonce : Cipher.Nonce} {g g' : Asset.Graph τ ν}

/-! ## What others see -/

/-- All that can be seen of a request from outside. -/
structure Footprint (σ : Type) where
  /-- What is asked of the store. -/
  calls : List Blob.Call
  /-- The answer, what is logged, and how the store is left. -/
  outcome : Outcome σ Answer

/-- **What is seen of requests** that are carried out one after the other. -/
def footprints (v : Vault τ ν) (store : Store σ) : List (Request τ ν) → σ → List (Footprint σ)
  | [], _ => []
  | q :: qs, w =>
    let o := (v.serve q).run store w
    ⟨(v.serve q).calls store w, o⟩ :: v.footprints store qs o.state

/-! ## One session for two graphs -/

omit [DecidableEq τ] in
/-- Sealed snapshots of graphs of one size are alike. -/
theorem sealedSnapshot_congr (hblind : v.sealer.Blind) (hsize : g.size = g'.size) {n n' : Nat}
    {bs bs' : Bytes} (h : v.sealedSnapshot nonce g = .ok (n, bs))
    (h' : v.sealedSnapshot nonce g' = .ok (n', bs')) : n = n' ∧ bs = bs' := by
  obtain ⟨sn, hsn, hn, hbs⟩ := of_sealedSnapshot h
  obtain ⟨sn', hsn', hn', hbs'⟩ := of_sealedSnapshot h'
  refine ⟨?_, ?_⟩
  · rw [hn, hn', (Asset.Graph.mirrors_of_snapshot hsn).size_eq,
      (Asset.Graph.mirrors_of_snapshot hsn').size_eq, hsize]
  · rw [hblind nonce _ (Utf8.encode sn'.render), hbs'] at hbs
    exact (Except.ok.inj hbs).symm

/-- **Graphs with one payload and one size are saved by one session**, if
there is a store on which both saves succeed. -/
theorem save_congr (hblind : v.sealer.Blind)
    (hpayload : (g.get? v.bootstrap).map v.payload = (g'.get? v.bootstrap).map v.payload)
    (hsize : g.size = g'.size) (h : ((v.save nonce scope g).run store w).result = .ok ())
    (h' : ((v.save nonce scope g').run store w).result = .ok ()) :
    v.save nonce scope g = v.save nonce scope g' := by
  obtain ⟨x, n, bs, hx, hs, -⟩ := sealed_of_run_save h
  obtain ⟨x', n', bs', hx', hs', -⟩ := sealed_of_run_save h'
  rw [hx, hx'] at hpayload
  have hp : v.payload x = v.payload x' := Option.some.inj hpayload
  obtain ⟨rfl, rfl⟩ := sealedSnapshot_congr hblind hsize hs hs'
  rw [save, save, hx, hx']
  simp only [hp, hs, hs']

/-- **Only the payload shows.** Two graphs with the same payload and the
same number of assets, whatever else is in them, are saved for a scope in
the same state of some store, and both saves succeed. Then all that is seen
is the same: of the saves and of whatever is asked for afterwards, every
request to the store with its key and its content, every answer, every
message in the log, and every state of the store. -/
theorem save_shows_payload_only (v : Vault τ ν) (hblind : v.sealer.Blind) (store : Store σ)
    (w : σ) (scope : Scope) (nonce : Cipher.Nonce) (g g' : Asset.Graph τ ν)
    (hpayload : (g.get? v.bootstrap).map v.payload = (g'.get? v.bootstrap).map v.payload)
    (hsize : g.size = g'.size) (h : ((v.save nonce scope g).run store w).result = .ok ())
    (h' : ((v.save nonce scope g').run store w).result = .ok ()) (qs : List (Request τ ν)) :
    v.footprints store (⟨scope, .save nonce g⟩ :: qs) w =
      v.footprints store (⟨scope, .save nonce g'⟩ :: qs) w := by
  have hserve : v.serve ⟨scope, .save nonce g⟩ = v.serve ⟨scope, .save nonce g'⟩ :=
    congrArg (Session.map Answer.saved) (save_congr hblind hpayload hsize h h')
  rw [footprints, footprints, hserve]

end Vault

end Provision

/-! ## A rehearsal -/

namespace Provision.Rehearsal

open Asset Cipher

/-- A sealer that writes down the nonce, whatever it seals. -/
def blindSealer : Sealer where
  encrypt nonce _ := .ok nonce.toList
  decrypt _ := .error .authentication

/-- A vault whose sealed graphs tell nothing. -/
def blindVault : Vault Role String := { rehearsedVault with sealer := blindSealer }

/-- A graph of a payload and one secret. -/
def withSecret (r : Role) (secret : String) : Asset.Graph Role String :=
  (Graph.empty.put rehearsedVault.bootstrap "payload").put r secret

/-- Two secrets under two names, of different length; and then the scope is
looked at and deleted. -/
theorem save_shows_payload_only_two_secrets :
    let scope : Vault.Scope := ⟨"group", "one"⟩
    let nonce : Nonce := Vector.replicate 12 (UInt8.ofNat 1)
    let g := withSecret (.node 1) "a secret"
    let g' := withSecret (.node 2) "one more secret"
    let looks : List (Vault.Request Role String) :=
      [⟨scope, .has⟩, ⟨scope, .loadBootstrap⟩, ⟨scope, .delete⟩]
    g.get? (.node 1) ≠ g'.get? (.node 1) ∧
    ((blindVault.save nonce scope g).run Blob.Memory.store Table.empty).result = .ok () ∧
    ((blindVault.save nonce scope g').run Blob.Memory.store Table.empty).result = .ok () ∧
    blindVault.footprints Blob.Memory.store (⟨scope, .save nonce g⟩ :: looks) Table.empty =
      blindVault.footprints Blob.Memory.store (⟨scope, .save nonce g'⟩ :: looks) Table.empty := by
  intro scope nonce g g' looks
  have hsaved : ((blindVault.save nonce scope g).run Blob.Memory.store Table.empty).result =
      .ok () := by
    decide +kernel
  have hsaved' : ((blindVault.save nonce scope g').run Blob.Memory.store Table.empty).result =
      .ok () := by
    decide +kernel
  exact ⟨by decide +kernel, hsaved, hsaved',
    Vault.save_shows_payload_only blindVault (fun _ _ _ => rfl) Blob.Memory.store Table.empty scope
      nonce g g' rfl rfl hsaved hsaved' looks⟩

end Provision.Rehearsal
