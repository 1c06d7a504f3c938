import Provision.Proofs.Vault.Slots
import Mathlib.Data.Set.Basic
/-!
# The vault — authenticity

Whoever can write to the store can cut a sealed graph, change it, put back
an old one, or put one scope's graph in the place of another's. With a
sealer that opens nothing but what was sealed, all this comes to little:
**a load gives one whole graph that was passed to a save before, or it
fails**, and it never fails for want of a document that can be read. It may
be a graph of another scope, or an older one, since nothing ties a sealed
form to its place.

The sealer is *ideal* at every moment of a run (`Transcript`): it knows
what has been sealed so far. The store is any store at all (`genuine`), in
particular one in memory whose blobs others change as they like between any
two requests (`Exposed`).
-/

namespace Provision

open Asset Blob

/-! ## Ideal sealers -/

namespace Cipher

/-- Something that was sealed: a payload and its sealed form. -/
structure Sealing where
  plain : Bytes
  form : Bytes

/-- **An ideal sealer** opens what has been sealed, and refuses all else. -/
structure Sealer.Ideal (s : Sealer) (sealed : Set Sealing) : Prop where
  opens : ∀ form plain, s.decrypt form = .ok plain ↔ ⟨plain, form⟩ ∈ sealed
  refuses : ∀ form e, s.decrypt form = .error e → e = .authentication

end Cipher

/-! ## Blobs that others write to -/

namespace Blob

/-- Blobs in memory that others can write to. -/
structure Exposed where
  blobs : Memory
  /-- What others make of the blobs before each of the requests to come, in
  their order. -/
  hands : Nat → Memory → Memory

namespace Exposed

/-- A request finds what others have made of the blobs. -/
def answer {α : Type} (f : Memory → α × Memory) (x : Exposed) : α × Exposed :=
  let (r, m) := f (x.hands 0 x.blobs)
  (r, ⟨m, fun n => x.hands (n + 1)⟩)

/-- **The store in memory, among others.** -/
def store : Store Exposed where
  get key := answer (Memory.store.get key)
  put key data contentType := answer (Memory.store.put key data contentType)
  delete key := answer (Memory.store.delete key)
  has key := answer (Memory.store.has key)

end Exposed

end Blob

namespace Vault

open Cipher (Sealer Sealing)

variable {τ ν σ : Type} [Kind τ] [DecidableEq τ] {v : Vault τ ν} {s : Sealer}
variable {store : Store σ} {w : σ} {sealed : Set Sealing} {scope : Scope}
variable {graphs : List (Asset.Graph τ ν)} {g : Asset.Graph τ ν} {q : Request τ ν}

/-! ## Transcripts -/

/-- The graph that is to be saved. -/
def Request.graph? (q : Request τ ν) : Option (Asset.Graph τ ν) :=
  match q.order with
  | .save _ g => some g
  | _ => none

/-- **What a request has the sealer seal.** A save comes to that when its
payload has been put and all its assets have texts. -/
inductive Seals (v : Vault τ ν) (store : Store σ) (w : σ) : Request τ ν → Sealing → Prop
  | save {scope : Scope} {nonce : Cipher.Nonce} {g : Asset.Graph τ ν} {x : ν} {sn : Snapshot}
      {form : Bytes} (hx : g.get? v.bootstrap = some x)
      (hput : (store.put scope.bootstrapKey (.once (v.payload x)) contentType w).1 = .ok ())
      (hsn : g.snapshot v.codec = .ok sn)
      (hform : v.sealer.encrypt nonce (Utf8.encode sn.render) = .ok form) :
      Seals v store w ⟨scope, .save nonce g⟩ ⟨Utf8.encode sn.render, form⟩

/-- The vault with another sealer. -/
def withSealer (v : Vault τ ν) (s : Sealer) : Vault τ ν := { v with sealer := s }

/-- **Requests and their answers, one after the other**, with a sealer that
is ideal all the time: at each request it opens what has been sealed up to
then. Nothing is said of how it seals. -/
inductive Transcript (v : Vault τ ν) (store : Store σ) :
    Set Sealing → σ → List (Request τ ν × Answer) → Prop
  | nil (sealed : Set Sealing) (w : σ) : Transcript v store sealed w []
  | cons {sealed : Set Sealing} {w w' : σ} {q : Request τ ν} {a : Answer} {log : List Log.Entry}
      {rest : List (Request τ ν × Answer)} (s : Sealer) (hs : s.Ideal sealed)
      (h : ((v.withSealer s).serve q).run store w = ⟨a, log, w'⟩)
      (hrest : Transcript v store (sealed ∪ {x | (v.withSealer s).Seals store w q x}) w' rest) :
      Transcript v store sealed w ((q, a) :: rest)

/-- **What a load may come to**, when these graphs have been passed to
saves. -/
inductive Genuine (v : Vault τ ν) (graphs : List (Asset.Graph τ ν)) (scope : Scope) :
    Except Error Snapshot → Prop
  /-- One of them, whole. -/
  | graph {g : Asset.Graph τ ν} {sn : Snapshot} (hg : g ∈ graphs)
      (hsn : g.snapshot v.codec = .ok sn) : Genuine v graphs scope (.ok sn)
  | notPersisted : Genuine v graphs scope (.error (.notPersisted scope))
  | blob (e : Blob.Error) : Genuine v graphs scope (.error (.blob e))
  | authentication : Genuine v graphs scope (.error (.cipher .authentication))

/-! ## What is sealed is a graph -/

/-- Nothing has been sealed but documents of these graphs. -/
def Covers (v : Vault τ ν) (graphs : List (Asset.Graph τ ν)) (sealed : Set Sealing) : Prop :=
  ∀ x ∈ sealed, ∃ g ∈ graphs, ∃ sn, g.snapshot v.codec = .ok sn ∧ x.plain = Utf8.encode sn.render

omit [DecidableEq τ] in
theorem covers_empty (v : Vault τ ν) (graphs : List (Asset.Graph τ ν)) : v.Covers graphs ∅ :=
  fun _ hx => absurd hx (Set.notMem_empty _)

/-- **A request seals the graph that it saves**, if any. -/
theorem Covers.seals (h : v.Covers graphs sealed) (s : Sealer) (store : Store σ) (w : σ)
    (q : Request τ ν) :
    v.Covers (graphs ++ q.graph?.toList) (sealed ∪ {x | (v.withSealer s).Seals store w q x}) := by
  rintro x (hx | hx)
  · obtain ⟨g, hg, hsn⟩ := h x hx
    exact ⟨g, List.mem_append_left _ hg, hsn⟩
  · cases hx with
    | @save scope nonce g x sn form hx hput hsn hform =>
      exact ⟨g, List.mem_append_right _ (List.mem_singleton_self g), sn, hsn, rfl⟩

omit [DecidableEq τ] in
/-- **What an ideal sealer opens is the snapshot of a graph.** The document
was written for it, so it can be read. -/
theorem openSnapshot_genuine (hjson : v.codec.WritesJson) (hs : s.Ideal sealed)
    (h : v.Covers graphs sealed) (bs : Bytes) :
    Genuine v graphs scope ((v.withSealer s).openSnapshot bs) := by
  rw [openSnapshot, withSealer]
  cases hplain : s.decrypt bs with
  | error e =>
    rw [hs.refuses _ _ hplain]
    exact .authentication
  | ok plain =>
    obtain ⟨g, hg, sn, hsn, rfl⟩ := h _ ((hs.opens bs plain).1 hplain)
    have hm : sn.Mirrors v.codec g := Asset.Graph.mirrors_of_snapshot hsn
    simp only [Snapshot.ofDocument_render (hm.isJson hjson)]
    exact .graph hg hsn

omit [DecidableEq τ] in
/-- **One load**, whatever the store gives it. -/
theorem load_genuine (hjson : v.codec.WritesJson) (hs : s.Ideal sealed)
    (h : v.Covers graphs sealed) (store : Store σ) (w : σ) :
    Genuine v graphs scope (((v.withSealer s).load scope).run store w).result := by
  rw [load, download, Session.run_get]
  split
  · exact .notPersisted
  · exact .blob _
  · split
    · exact .blob _
    · next bs _ =>
      have hopen : Genuine v graphs scope ((v.withSealer s).openSnapshot bs) :=
        openSnapshot_genuine hjson hs h bs
      cases hsn : (v.withSealer s).openSnapshot bs with
      | error e => rw [hsn] at hopen; exact hopen
      | ok sn => rw [hsn] at hopen; exact hopen

/-- The graphs that were passed to saves. -/
def graphsOf (qas : List (Request τ ν × Answer)) : List (Asset.Graph τ ν) :=
  qas.flatMap fun qa => qa.1.graph?.toList

/-- **Every load of a transcript is genuine**, over any store. -/
theorem Transcript.genuine (hjson : v.codec.WritesJson) {before after : List (Request τ ν × Answer)}
    {r : Except Error Snapshot}
    (h : Transcript v store sealed w (before ++ (⟨scope, .load⟩, .loaded r) :: after))
    (hcovers : v.Covers graphs sealed) : Genuine v (graphs ++ graphsOf before) scope r := by
  induction before generalizing sealed w graphs with
  | nil =>
    cases h with
    | cons s hs hrun hrest =>
      have hload : Genuine v graphs scope _ := load_genuine hjson hs hcovers store w
      rw [serve, Session.run_map, Outcome.mk.injEq, Answer.loaded.injEq] at hrun
      rw [graphsOf, List.flatMap_nil, List.append_nil, ← hrun.1]
      exact hload
  | cons qa before ih =>
    obtain ⟨q, a⟩ := qa
    cases h with
    | cons s hs hrun hrest =>
      rw [graphsOf, List.flatMap_cons, ← List.append_assoc]
      exact ih hrest (hcovers.seals s store w q)

/-- **Authenticity.** Others may write whatever they like to the blobs,
before each request to the store. Whatever is asked for in a run, and
whatever the memory held when it began: every load gives the snapshot of
one graph that was passed to a save earlier in the run, or it finds
nothing, or the store refuses, or what is there was not sealed. -/
theorem load_authentic (hjson : v.codec.WritesJson) (m : Memory) (hands : Nat → Memory → Memory)
    (before after : List (Request τ ν × Answer)) (r : Except Error Snapshot)
    (h : Transcript v Exposed.store ∅ ⟨m, hands⟩
      (before ++ (⟨scope, .load⟩, .loaded r) :: after)) :
    Genuine v (graphsOf before) scope r :=
  h.genuine hjson (covers_empty v [])

end Vault

end Provision

/-! ## A rehearsal -/

namespace Provision.Rehearsal

open Asset Cipher

/-- A sealer that writes the nonce before a payload, and opens what is on a
list. -/
def listSealer (sealed : List Sealing) : Sealer where
  encrypt nonce plain := .ok (nonce.toList ++ plain)
  decrypt form :=
    match sealed.find? fun x => x.form = form with
    | some x => .ok x.plain
    | none => .error .authentication

/-- It is ideal while no form is on the list twice. -/
theorem listSealer_ideal {sealed : List Sealing} (h : (sealed.map Sealing.form).Nodup) :
    (listSealer sealed).Ideal {x | x ∈ sealed} := by
  refine ⟨fun form plain => ?_, fun form e he => ?_⟩
  · simp only [listSealer, Set.mem_ofPred_eq]
    cases hfind : sealed.find? fun x => x.form = form with
    | none =>
      refine ⟨fun he => (by cases he), fun hm => ?_⟩
      simpa using List.find?_eq_none.1 hfind _ hm
    | some x =>
      have hx : x ∈ sealed := List.mem_of_find?_eq_some hfind
      have hform : x.form = form := by simpa using List.find?_some hfind
      refine ⟨fun he => ?_, fun hm => ?_⟩
      · rw [← Except.ok.inj he, ← hform]
        exact hx
      · rw [List.inj_on_of_nodup_map h hx hm hform]
  · simp only [listSealer] at he
    split at he
    · cases he
    · exact (Except.error.inj he).symm

/-- A graph of two assets. -/
def savedGraph : Asset.Graph Role String :=
  (Graph.empty.put rehearsedVault.bootstrap "payload").put lastRole "\"text\""

/-- The save of the graph for one scope. -/
def savedRequest : Vault.Request Role String :=
  ⟨⟨"group", "one"⟩, .save (Vector.replicate 12 (UInt8.ofNat 1)) savedGraph⟩

/-- The scope that others give the graph to. -/
def otherScope : Vault.Scope := ⟨"group", "two"⟩

/-- Others copy the graph after the save. -/
def meddling (n : Nat) (m : Blob.Memory) : Blob.Memory :=
  if n = 2 then m.insert otherScope.graphKey ((m.get? savedRequest.scope.graphKey).getD []) else m

/-- What is sealed of the graph. -/
def savedSealing : Sealing :=
  match savedGraph.snapshot codec with
  | .ok sn =>
    ⟨Utf8.encode sn.render,
      (Vector.replicate 12 (UInt8.ofNat 1)).toList ++ Utf8.encode sn.render⟩
  | .error _ => ⟨[], []⟩

/-- An empty store that others will meddle with. -/
def exposedStart : Blob.Exposed := ⟨Table.empty, meddling⟩

/-- The save has the sealer seal this and nothing else. -/
theorem seals_savedRequest_iff (x : Sealing) :
    (rehearsedVault.withSealer (listSealer [])).Seals Blob.Exposed.store exposedStart
      savedRequest x ↔ x = savedSealing := by
  constructor
  · rintro ⟨-, -, hsn, hform⟩
    rw [savedSealing, show savedGraph.snapshot codec = _ from hsn, ← Except.ok.inj hform]
  · rintro rfl
    cases hsn : savedGraph.snapshot codec with
    | error e =>
      have hok : (savedGraph.snapshot codec).isOk = true := by decide +kernel
      rw [hsn] at hok
      cases hok
    | ok sn =>
      rw [savedSealing, hsn]
      exact .save (x := "payload") rfl rfl hsn rfl

/-- The graph is loaded for a scope that it was never saved for, and it is
the one that was saved. -/
theorem load_authentic_copied :
    let saved := ((rehearsedVault.withSealer (listSealer [])).serve savedRequest).run
      Blob.Exposed.store exposedStart
    let loaded := ((rehearsedVault.withSealer (listSealer [savedSealing])).load otherScope).run
      Blob.Exposed.store saved.state
    loaded.result.isOk = true ∧
      Vault.Genuine rehearsedVault [savedGraph] otherScope loaded.result := by
  intro saved loaded
  have hnone : (listSealer []).Ideal ∅ := by
    simpa using (listSealer_ideal List.nodup_nil : (listSealer []).Ideal {x | x ∈ []})
  have hsaved : (listSealer [savedSealing]).Ideal (∅ ∪ {x |
      (rehearsedVault.withSealer (listSealer [])).Seals Blob.Exposed.store exposedStart
        savedRequest x}) := by
    have h : (listSealer [savedSealing]).Ideal {x | x ∈ [savedSealing]} :=
      listSealer_ideal (List.nodup_singleton _)
    simpa [seals_savedRequest_iff] using h
  have hload : ((rehearsedVault.withSealer (listSealer [savedSealing])).serve
      ⟨otherScope, .load⟩).run Blob.Exposed.store saved.state =
        ⟨.loaded loaded.result, loaded.log, loaded.state⟩ :=
    Blob.Session.run_map _ _ _ _
  have hrun : Vault.Transcript rehearsedVault Blob.Exposed.store ∅ exposedStart
      [(savedRequest, saved.result), (⟨otherScope, .load⟩, .loaded loaded.result)] :=
    .cons _ hnone rfl (.cons _ hsaved hload (.nil _ _))
  exact ⟨by decide +kernel, Vault.load_authentic codec_lawful.writesJson Table.empty meddling
    [(savedRequest, saved.result)] [] loaded.result hrun⟩

end Provision.Rehearsal
