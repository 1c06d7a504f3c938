import Provision.Proofs.Asset.Document
import Provision.Proofs.Cipher.Sealing
import Provision.Proofs.Vault.Runs
import Mathlib.Logic.Function.Basic
/-!
# The vault — a map of slots

What a vault is to those who use it: for each scope a slot with two places,
one for a graph and one for a payload. `Slot.Step` says what every order
answers and makes of the slot of its scope, in terms of graphs alone; no
key, no octet of a document and no sealed form occurs there.

A vault over a store in memory **is such a map** (`vault_refines_slots`):
along any run, each answer is one that the slots give. What carries this
from order to order is `Kept`: the blob under the one key is the payload of
the slot, and the one under the other opens to a snapshot that mirrors its
graph. A save that fails half-way keeps it, with the new payload beside the
old graph.
-/

namespace Provision.Vault

open Asset Blob

/-! ## Slots -/

/-- What is kept for one scope. -/
structure Slot (τ ν : Type) [Kind τ] where
  /-- The graph that was saved last. -/
  graph : Option (Asset.Graph τ ν)
  /-- The payload that was put last. -/
  payload : Option Bytes

/-- What a vault can be told to do for a scope. -/
inductive Order (τ ν : Type) [Kind τ] where
  | save (nonce : Cipher.Nonce) (g : Asset.Graph τ ν)
  | load
  | loadBootstrap
  | has
  | delete

/-- What comes of it. -/
inductive Answer where
  | saved (r : Except Error Unit)
  | loaded (r : Except Error Snapshot)
  | fetched (r : Except Error Bytes)
  | known (r : Except Error Bool)
  | deleted (r : Except Error Unit)

variable {τ ν : Type} [Kind τ]

/-- Nothing is kept. -/
def Slot.empty : Slot τ ν := ⟨none, none⟩

/-- Every asset of the graph has a text. -/
def Writes (v : Vault τ ν) (g : Asset.Graph τ ν) : Prop :=
  ∀ n a, g.assets.get? n = some a → ∃ text, v.codec.encode a.kind a.value = .ok text

variable [DecidableEq τ]

/-- **What an order does to the slot of its scope**, and what it answers. -/
inductive Slot.Step (v : Vault τ ν) (scope : Scope) (s : Slot τ ν) :
    Order τ ν → Answer → Slot τ ν → Prop
  /-- A graph without the asset of the payload is refused, and nothing
  changes. -/
  | lacking {nonce : Cipher.Nonce} {g : Asset.Graph τ ν} (h : g.get? v.bootstrap = none) :
      Step v scope s (.save nonce g)
        (.saved (.error (.missingBootstrap (Kind.name v.bootstrap)))) s
  /-- A graph with an asset that has no text is refused, and its payload
  stays. -/
  | unwritten {nonce : Cipher.Nonce} {g : Asset.Graph τ ν} {x : ν} {n : String} {a : Item τ ν}
      {reason : Link} (h : g.get? v.bootstrap = some x) (ha : g.assets.get? n = some a)
      (hr : v.codec.encode a.kind a.value = .error reason) :
      Step v scope s (.save nonce g) (.saved (.error (.asset (.encode n reason))))
        { s with payload := some (v.payload x) }
  /-- So is one that the sealer does not take. -/
  | unsealed {nonce : Cipher.Nonce} {g : Asset.Graph τ ν} {x : ν} {sn : Snapshot}
      {e : Cipher.Error} (h : g.get? v.bootstrap = some x) (hw : v.Writes g)
      (hsn : g.snapshot v.codec = .ok sn)
      (he : v.sealer.encrypt nonce (Utf8.encode sn.render) = .error e) :
      Step v scope s (.save nonce g) (.saved (.error (.cipher e)))
        { s with payload := some (v.payload x) }
  /-- Any other graph is kept, with its payload. -/
  | saved {nonce : Cipher.Nonce} {g : Asset.Graph τ ν} {x : ν} {sn : Snapshot} {bs : Bytes}
      (h : g.get? v.bootstrap = some x) (hw : v.Writes g) (hsn : g.snapshot v.codec = .ok sn)
      (hbs : v.sealer.encrypt nonce (Utf8.encode sn.render) = .ok bs) :
      Step v scope s (.save nonce g) (.saved (.ok ())) ⟨some g, some (v.payload x)⟩
  /-- Loading gives a snapshot of the graph that is kept: its names, and
  each of its assets. -/
  | loaded {g : Asset.Graph τ ν} {sn : Snapshot} (h : s.graph = some g)
      (hnames : sn.names = g.names)
      (hget : ∀ t x, g.get? t = some x → sn.get v.codec t = .ok x) :
      Step v scope s .load (.loaded (.ok sn)) s
  | unloaded (h : s.graph = none) :
      Step v scope s .load (.loaded (.error (.notPersisted scope))) s
  /-- The payload is as it was put. -/
  | fetched {bs : Bytes} (h : s.payload = some bs) :
      Step v scope s .loadBootstrap (.fetched (.ok bs)) s
  | unfetched (h : s.payload = none) :
      Step v scope s .loadBootstrap (.fetched (.error (.notPersisted scope))) s
  | known : Step v scope s .has (.known (.ok s.graph.isSome)) s
  /-- Nothing is kept after a removal, and none fails. -/
  | deleted : Step v scope s .delete (.deleted (.ok ())) .empty

/-- An order, and the scope that it is given for. -/
structure Request (τ ν : Type) [Kind τ] where
  scope : Scope
  order : Order τ ν

/-- **A map of slots answers requests**, one after the other: each changes
the slot of its scope and no other. -/
inductive Serves (v : Vault τ ν) :
    (Scope → Slot τ ν) → List (Request τ ν) → List Answer → (Scope → Slot τ ν) → Prop
  | nil (s : Scope → Slot τ ν) : Serves v s [] [] s
  | cons {s s' : Scope → Slot τ ν} {slot : Slot τ ν} {q : Request τ ν} {a : Answer}
      {qs : List (Request τ ν)} {as : List Answer}
      (step : Slot.Step v q.scope (s q.scope) q.order a slot)
      (rest : Serves v (Function.update s q.scope slot) qs as s') :
      Serves v s (q :: qs) (a :: as) s'

/-! ## Sessions -/

/-- The session that carries out a request. -/
def serve (v : Vault τ ν) (q : Request τ ν) : Session Answer :=
  match q.order with
  | .save nonce g => (v.save nonce q.scope g).map .saved
  | .load => (v.load q.scope).map .loaded
  | .loadBootstrap => (loadBootstrap q.scope).map .fetched
  | .has => (has q.scope).map .known
  | .delete => (delete q.scope).map .deleted

/-- The answers to requests that are carried out one after the other. -/
def serveAll {σ : Type} (v : Vault τ ν) (store : Store σ) : List (Request τ ν) → σ → List Answer
  | [], _ => []
  | q :: qs, w =>
    let o := (v.serve q).run store w
    o.result :: v.serveAll store qs o.state

omit [DecidableEq τ] in
/-- A graph with an asset that has no text. -/
theorem not_writes {v : Vault τ ν} {g : Asset.Graph τ ν} {n : String} {a : Item τ ν}
    {reason : Link} (ha : g.assets.get? n = some a)
    (hr : v.codec.encode a.kind a.value = .error reason) : ¬ v.Writes g := by
  intro hw
  obtain ⟨text, ht⟩ := hw n a ha
  rw [hr] at ht
  cases ht

/-- What an order makes of a slot is determined. -/
theorem Slot.Step.unique {v : Vault τ ν} {scope : Scope} {s s₁ s₂ : Slot τ ν} {o : Order τ ν}
    {a₁ a₂ : Answer} (h₁ : Step v scope s o a₁ s₁) (h₂ : Step v scope s o a₂ s₂) : s₁ = s₂ := by
  -- two ways to save differ in the payload, in the texts, or in what the sealer says
  cases h₁ <;> cases h₂ <;> first
    | rfl
    | (exact absurd ‹v.Writes _› (not_writes ‹_› ‹_›))
    | simp_all

/-! ## The refinement -/

/-- A blob, if there is one, opens to a snapshot that mirrors the graph. -/
inductive Reveals (v : Vault τ ν) : Option Bytes → Option (Asset.Graph τ ν) → Prop
  | none : Reveals v none none
  | some {bs : Bytes} {g : Asset.Graph τ ν} {sn : Snapshot} (hs : v.openSnapshot bs = .ok sn)
      (hm : sn.Mirrors v.codec g) : Reveals v (some bs) (some g)

/-- **The two blobs of a scope are what its slot says.** -/
structure Kept (v : Vault τ ν) (m : Memory) (scope : Scope) (s : Slot τ ν) : Prop where
  /-- The payload stands under its key. -/
  payload : m.get? scope.bootstrapKey = s.payload
  /-- The graph stands under its key, sealed. -/
  graph : Reveals v (m.get? scope.graphKey) s.graph

variable {v : Vault τ ν} {m : Memory} {scope : Scope} {s : Slot τ ν}
variable {nonce : Cipher.Nonce} {g : Asset.Graph τ ν}

omit [DecidableEq τ] in
/-- **What is sealed of a graph opens to what mirrors it.** -/
theorem openSnapshot_of_sealed (hseal : v.sealer.Opens) (hcodec : v.codec.Lawful) {sn : Snapshot}
    {bs : Bytes} (hsn : g.snapshot v.codec = .ok sn)
    (hbs : v.sealer.encrypt nonce (Utf8.encode sn.render) = .ok bs) :
    v.openSnapshot bs = .ok sn ∧ sn.Mirrors v.codec g := by
  have hm : sn.Mirrors v.codec g := Asset.Graph.mirrors_of_snapshot hsn
  have hdoc := Snapshot.ofDocument_render (hm.isValue hcodec)
  rw [openSnapshot, hseal _ _ _ hbs]
  simp only [hdoc]
  exact ⟨trivial, hm⟩

omit [DecidableEq τ] in
theorem writes_of_snapshot {sn : Snapshot} (hsn : g.snapshot v.codec = .ok sn) : v.Writes g := by
  intro n a ha
  obtain ⟨text, htext, -⟩ := (Asset.Graph.mirrors_of_snapshot hsn).present n a ha
  exact ⟨text, htext⟩

omit [DecidableEq τ] in
/-- **A payload that is put** changes the payload of the slot alone. -/
theorem Kept.put_payload (hk : Kept v m scope s) (bs : Bytes) :
    Kept v (m.insert scope.bootstrapKey bs) scope { s with payload := some bs } := by
  refine ⟨Table.get?_insert_self _ _ _, ?_⟩
  rw [Table.get?_insert, if_neg (Scope.graphKey_ne_bootstrapKey scope scope).symm]
  exact hk.graph

omit [DecidableEq τ] in
/-- And a graph that is put, the graph alone. -/
theorem Kept.put_graph (hk : Kept v m scope s) {bs : Bytes} {sn : Snapshot}
    (hopen : v.openSnapshot bs = .ok sn) (hm : sn.Mirrors v.codec g) :
    Kept v (m.insert scope.graphKey bs) scope { s with graph := some g } := by
  refine ⟨?_, ?_⟩
  · rw [Table.get?_insert, if_neg (Scope.graphKey_ne_bootstrapKey scope scope)]
    exact hk.payload
  · rw [Table.get?_insert_self]
    exact .some hopen hm

/-- **An order is carried out** as the slot of its scope says, and no blob
of another scope is touched. -/
structure Carried (v : Vault τ ν) (m m' : Memory) (scope : Scope) (s : Slot τ ν) (o : Order τ ν)
    (a : Answer) (s' : Slot τ ν) : Prop where
  /-- The answer is one that the slot gives. -/
  step : Slot.Step v scope s o a s'
  /-- The blobs of the scope are what the new slot says. -/
  kept : Kept v m' scope s'
  /-- All else is as before. -/
  others : ∀ k, scope.bootstrapKey ≠ k → scope.graphKey ≠ k → m'.get? k = m.get? k

/-- **Saving**, in each of its four ways. -/
theorem Kept.save (hseal : v.sealer.Opens) (hcodec : v.codec.Lawful) (hscope : scope.Accepted)
    (hk : Kept v m scope s) (nonce : Cipher.Nonce) (g : Asset.Graph τ ν) :
    let o := (v.save nonce scope g).run Memory.store m
    ∃ s', Carried v m o.state scope s (.save nonce g) (.saved o.result) s' := by
  intro o
  have hothers : ∀ k, scope.bootstrapKey ≠ k → scope.graphKey ≠ k → o.state.get? k = m.get? k :=
    fun _ => get?_run_save hscope
  cases h : g.get? v.bootstrap with
  | none =>
    obtain ⟨hr, hs⟩ : o.result = _ ∧ o.state = m := run_save_lacking h
    exact ⟨s, hr ▸ .lacking h, hs ▸ hk, hothers⟩
  | some x =>
    -- the payload is put first, and stays whatever becomes of the graph
    have hhalf := hk.put_payload (v.payload x)
    cases hsn : g.snapshot v.codec with
    | error e =>
      obtain ⟨n, a, reason, ha, hr, rfl⟩ := Asset.Graph.encode_of_snapshot_error hsn
      have hs : v.sealedSnapshot nonce g = .error (.asset (.encode n reason)) := by
        rw [sealedSnapshot, hsn]
      obtain ⟨hres, hst⟩ := run_save_refused (m := m) hscope h hs
      exact ⟨_, hres ▸ .unwritten h ha hr, hst ▸ hhalf, hothers⟩
    | ok sn =>
      have hw := writes_of_snapshot hsn
      cases he : v.sealer.encrypt nonce (Utf8.encode sn.render) with
      | error e =>
        have hs : v.sealedSnapshot nonce g = .error (.cipher e) := by
          simp only [sealedSnapshot, hsn, he]
        obtain ⟨hres, hst⟩ := run_save_refused (m := m) hscope h hs
        exact ⟨_, hres ▸ .unsealed h hw hsn he, hst ▸ hhalf, hothers⟩
      | ok bs =>
        have hs : v.sealedSnapshot nonce g = .ok (sn.size, bs) := by
          simp only [sealedSnapshot, hsn, he]
        obtain ⟨hres, hst⟩ := run_save_ok (m := m) hscope h hs
        obtain ⟨hopen, hm⟩ := openSnapshot_of_sealed hseal hcodec hsn he
        refine ⟨⟨some g, some (v.payload x)⟩, hres ▸ .saved h hw hsn he, ?_, hothers⟩
        rw [show o.state = _ from hst]
        exact hhalf.put_graph hopen hm

/-- An order that leaves the store alone. -/
theorem Kept.carried (hk : Kept v m scope s) {o : Order τ ν} {a : Answer} {m' : Memory}
    (hm : m' = m) (h : Slot.Step v scope s o a s) : Carried v m m' scope s o a s :=
  ⟨h, hm ▸ hk, fun k _ _ => by rw [hm]⟩

theorem Kept.load (hcodec : v.codec.Lawful) (hscope : scope.Accepted) (hk : Kept v m scope s) :
    let o := (v.load scope).run Memory.store m
    Carried v m o.state scope s .load (.loaded o.result) s := by
  intro o
  obtain ⟨graph, payload⟩ := s
  obtain ⟨hr, hs⟩ := run_load (v := v) (m := m) hscope
  refine hk.carried hs ?_
  have hgraph := hk.graph
  rw [hr]
  -- the slot has a graph just when there is a blob
  generalize m.get? scope.graphKey = blob at hgraph
  cases hgraph with
  | none => exact .unloaded rfl
  | some hopen hm =>
    rw [Option.elim_some, hopen]
    exact .loaded rfl hm.names_eq fun t x hx => hm.get_eq hcodec hx

theorem Kept.loadBootstrap (hscope : scope.Accepted) (hk : Kept v m scope s) :
    let o := (Vault.loadBootstrap scope).run Memory.store m
    Carried v m o.state scope s .loadBootstrap (.fetched o.result) s := by
  intro o
  obtain ⟨hr, hs⟩ := run_loadBootstrap (m := m) hscope
  refine hk.carried hs ?_
  rw [hr, hk.payload]
  cases h : s.payload with
  | none => exact .unfetched h
  | some bs => exact .fetched h

theorem Kept.has (hscope : scope.Accepted) (hk : Kept v m scope s) :
    let o := (Vault.has scope).run Memory.store m
    Carried v m o.state scope s .has (.known o.result) s := by
  intro o
  obtain ⟨hr, hs⟩ := run_has (m := m) hscope
  have hsome : (m.get? scope.graphKey).isSome = s.graph.isSome := by
    have hgraph := hk.graph
    generalize m.get? scope.graphKey = blob at hgraph ⊢
    generalize s.graph = kept at hgraph ⊢
    cases hgraph <;> rfl
  refine hk.carried hs ?_
  rw [hr, hsome]
  exact .known

theorem Kept.delete (hscope : scope.Accepted) (s : Slot τ ν) :
    let o := (Vault.delete scope).run Memory.store m
    Carried v m o.state scope s .delete (.deleted o.result) .empty := by
  intro o
  obtain ⟨hr, hs⟩ := run_delete (m := m) hscope
  refine ⟨hr ▸ .deleted, ⟨?_, ?_⟩, fun k hb hg => ?_⟩
  · rw [hs, if_pos (Or.inl rfl)]
    rfl
  · rw [hs, if_pos (Or.inr rfl)]
    exact .none
  · rw [hs, if_neg (by simp [hb, hg])]

/-- **One request**: it is carried out in the slot of its scope. -/
theorem Kept.serve (hseal : v.sealer.Opens) (hcodec : v.codec.Lawful) {q : Request τ ν}
    (hscope : q.scope.Accepted) (hk : Kept v m q.scope s) :
    let o := (v.serve q).run Memory.store m
    ∃ s', Carried v m o.state q.scope s q.order o.result s' := by
  intro o
  obtain ⟨scope, order⟩ := q
  cases order with
  | save nonce g =>
    obtain ⟨s', h⟩ := hk.save hseal hcodec hscope nonce g
    exact ⟨s', by simpa only [o, Vault.serve, Session.run_map] using h⟩
  | load => exact ⟨s, by simpa only [o, Vault.serve, Session.run_map] using hk.load hcodec hscope⟩
  | loadBootstrap =>
    exact ⟨s, by simpa only [o, Vault.serve, Session.run_map] using hk.loadBootstrap hscope⟩
  | has => exact ⟨s, by simpa only [o, Vault.serve, Session.run_map] using hk.has hscope⟩
  | delete =>
    exact ⟨.empty, by simpa only [o, Vault.serve, Session.run_map] using Kept.delete hscope s⟩

/-- **The other scopes keep what they have**: no key of theirs is a key of
the scope. -/
theorem Carried.kept_update {m' : Memory} {o : Order τ ν} {a : Answer} {slot : Slot τ ν}
    {slots : Scope → Slot τ ν} (hscope : scope.Plain)
    (h : Carried v m m' scope (slots scope) o a slot)
    (hk : ∀ sc : Scope, sc.Plain → Kept v m sc (slots sc)) :
    ∀ sc : Scope, sc.Plain → Kept v m' sc (Function.update slots scope slot sc) := by
  intro sc hsc
  -- the scope itself has its new slot; the blobs of any other are untouched
  by_cases heq : sc = scope
  · subst heq
    rw [Function.update_self]
    exact h.kept
  · rw [Function.update_of_ne heq]
    have hne : scope ≠ sc := Ne.symm heq
    refine ⟨?_, ?_⟩
    · rw [h.others _ (fun hb => hne ((Scope.bootstrapKey_inj hscope hsc).1 hb))
        (Scope.graphKey_ne_bootstrapKey scope sc)]
      exact (hk sc hsc).payload
    · rw [h.others _ (Scope.graphKey_ne_bootstrapKey sc scope).symm
        (fun hg => hne ((Scope.graphKey_inj hscope hsc).1 hg))]
      exact (hk sc hsc).graph

/-- A run from any store whose blobs are what the slots say. -/
theorem serves_of_kept (hseal : v.sealer.Opens) (hcodec : v.codec.Lawful)
    (qs : List (Request τ ν)) (hqs : ∀ q ∈ qs, q.scope.Plain) {slots : Scope → Slot τ ν}
    (hk : ∀ sc : Scope, sc.Plain → Kept v m sc (slots sc)) :
    ∃ slots', Serves v slots qs (v.serveAll Memory.store qs m) slots' := by
  induction qs generalizing m slots with
  | nil => exact ⟨slots, .nil slots⟩
  | cons q qs ih =>
    have hscope := hqs q List.mem_cons_self
    obtain ⟨slot, h⟩ := (hk q.scope hscope).serve hseal hcodec hscope.accepted
    obtain ⟨slots', hrest⟩ := ih (fun p hp => hqs p (List.mem_cons_of_mem _ hp))
      (h.kept_update hscope hk)
    exact ⟨slots', .cons h.step hrest⟩

/-- **A vault over a store in memory is a map of slots.** From an empty
store, whatever is asked about plain scopes and in whatever order, all
answers are those of a map from scopes to slots that was empty at first. -/
theorem vault_refines_slots (hseal : v.sealer.Opens) (hcodec : v.codec.Lawful)
    (qs : List (Request τ ν)) (hqs : ∀ q ∈ qs, q.scope.Plain) :
    ∃ slots, Serves v (fun _ => .empty) qs (v.serveAll Memory.store qs Table.empty) slots :=
  serves_of_kept hseal hcodec qs hqs fun _ _ => ⟨rfl, .none⟩

end Provision.Vault

/-! ## A rehearsal -/

namespace Provision.Rehearsal

open Asset

/-- The ordinary kind of a number. -/
def ordinary (i : Nat) (h : i < 32 := by decide) : Role := .node ⟨i, h⟩

/-- The last of the ordinary kinds. -/
def lastRole : Role := .node (Fin.last 31)

/-- A vault of rehearsed assets under some key. -/
def rehearsedVault : Vault Role String where
  sealer := .ofKey (Vector.replicate 32 (UInt8.ofNat 7))
  codec := codec
  bootstrap := ordinary 0
  payload := Utf8.encode

/-- Two scopes, and what is asked about them: saves that succeed, that lack
the payload and that fail half-way, between loads and removals. -/
def rehearsedRequests : List (Vault.Request Role String) :=
  let one : Vault.Scope := ⟨"group", "one"⟩
  let two : Vault.Scope := ⟨"group", "two"⟩
  let whole : Asset.Graph Role String :=
    (Graph.empty.put (ordinary 0) "payload").put (ordinary 1) "\"text\""
  let poisoned : Asset.Graph Role String := whole.put (ordinary 2) "!poison: no text"
  [⟨one, .load⟩,
    ⟨one, .save (Vector.replicate 12 (UInt8.ofNat 1)) whole⟩,
    ⟨two, .save (Vector.replicate 12 (UInt8.ofNat 2)) .empty⟩,
    ⟨two, .save (Vector.replicate 12 (UInt8.ofNat 3)) poisoned⟩,
    ⟨two, .loadBootstrap⟩, ⟨one, .load⟩, ⟨two, .has⟩,
    ⟨one, .delete⟩, ⟨one, .delete⟩, ⟨one, .loadBootstrap⟩]

/-- The vault of a rehearsal keeps what it is told to keep. -/
theorem vault_refines_slots_rehearsed :
    rehearsedVault.sealer.Opens ∧ rehearsedVault.codec.Lawful ∧
    (∀ q ∈ rehearsedRequests, q.scope.Plain) ∧
    ∃ slots, Vault.Serves rehearsedVault (fun _ => .empty) rehearsedRequests
      (rehearsedVault.serveAll Blob.Memory.store rehearsedRequests Table.empty) slots := by
  have hseal : rehearsedVault.sealer.Opens := Cipher.Sealer.ofKey_opens _
  have hcodec : rehearsedVault.codec.Lawful := codec_lawful
  have hgroup : Blob.Key.IsComponent "group" := by constructor <;> decide
  have hone : Blob.Key.IsComponent "one" := by constructor <;> decide
  have htwo : Blob.Key.IsComponent "two" := by constructor <;> decide
  have hqs : ∀ q ∈ rehearsedRequests, q.scope.Plain := by
    intro q hq
    simp only [rehearsedRequests, List.mem_cons, List.not_mem_nil, or_false] at hq
    rcases hq with rfl | rfl | rfl | rfl | rfl | rfl | rfl | rfl | rfl | rfl
    all_goals first
      | exact ⟨hgroup, hone⟩
      | exact ⟨hgroup, htwo⟩
  exact ⟨hseal, hcodec, hqs, Vault.vault_refines_slots hseal hcodec rehearsedRequests hqs⟩

end Provision.Rehearsal
