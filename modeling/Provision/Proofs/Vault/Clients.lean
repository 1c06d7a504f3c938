import Provision.Proofs.Blob.Interleaving
import Provision.Proofs.Vault.Storing
/-!
# The vault — clients of different scopes

A client gives its orders for one scope one after the other. Its session
keeps to the two keys of that scope, and no key belongs to two plain scopes.
So **clients of different scopes do not disturb each other**
(`clients_undisturbed`), however their requests to one store in memory come
between each other: each gets the answers that it would get alone, and the
store is the union of what they would have stored alone.
-/

namespace Provision.Vault

open Asset Blob

/-! ## The keys of a scope -/

/-- The keys of the two blobs of a scope. -/
def Scope.Owns (s : Scope) (key : String) : Prop := key = s.bootstrapKey ∨ key = s.graphKey

/-- **No key belongs to two plain scopes**, in whichever roles. -/
theorem Scope.Owns.unique {s s' : Scope} (h : s.Plain) (h' : s'.Plain) {key : String}
    (hkey : s.Owns key) (hkey' : s'.Owns key) : s = s' := by
  rcases hkey with rfl | rfl <;> rcases hkey' with heq | heq
  · exact (Scope.bootstrapKey_inj h h').1 heq
  · exact absurd heq.symm (Scope.graphKey_ne_bootstrapKey s' s)
  · exact absurd heq (Scope.graphKey_ne_bootstrapKey s s')
  · exact (Scope.graphKey_inj h h').1 heq

variable {τ ν : Type} [Kind τ] [DecidableEq τ]

/-! ## Clients -/

/-- **A client**: its orders for a scope, one after the other, and the answers
to them. -/
def client (v : Vault τ ν) (scope : Scope) : List (Order τ ν) → Session (List Answer)
  | [] => .done []
  | o :: os => (v.serve ⟨scope, o⟩).andThen fun a => (v.client scope os).map (a :: ·)

variable {v : Vault τ ν} {scope : Scope}

/-- A client that has the store to itself. -/
theorem result_run_client {σ : Type} (store : Store σ) (os : List (Order τ ν)) (w : σ) :
    ((v.client scope os).run store w).result =
      v.serveAll store (os.map (Request.mk scope)) w := by
  induction os generalizing w with
  | nil => rfl
  | cons o os ih =>
    rw [client, (Session.run_andThen _ _ w).1, Session.run_map, ih]
    rfl

theorem download_within {α : Type} {P : String → Prop} {key : String} (hkey : P key) {n : Nat}
    {next : Bytes → Session (Except Error α)} (hnext : ∀ bs, (next bs).Within P n) :
    (download key scope next).Within P (n + 1) := by
  obtain ⟨after, hafter, hr⟩ := download_eq key scope next
  rw [hafter]
  refine .get hkey fun r => ?_
  obtain ⟨e, he⟩ | ⟨content, hcontent⟩ := hr r
  · rw [he]
    exact .done n _
  · rw [hcontent]
    exact hnext content

theorem remove_within {P : String → Prop} {key : String} (hkey : P key) {n : Nat}
    {next : Session (Except Error Unit)} (hnext : next.Within P n) :
    (remove key next).Within P (n + 1) := by
  obtain ⟨after, hafter, hr⟩ := remove_eq key next
  rw [hafter]
  refine .delete hkey fun r => ?_
  obtain ⟨e, he⟩ | hgone := hr r
  · rw [he]
    exact .done n _
  · rw [hgone]
    exact hnext

theorem save_within (nonce : Cipher.Nonce) (g : Asset.Graph τ ν) :
    (v.save nonce scope g).Within scope.Owns 4 := by
  rw [save]
  cases g.get? v.bootstrap with
  | none => exact .done 4 _
  | some a =>
    refine .put _ _ (Or.inl rfl) fun r => ?_
    rcases r with e | ⟨⟩
    · exact .done 3 _
    refine .log _ ?_
    cases v.sealedSnapshot nonce g with
    | error e => exact .done 2 _
    | ok sealed =>
      refine .put _ _ (Or.inr rfl) fun r => ?_
      rcases r with e | ⟨⟩
      · exact .done 1 _
      · exact .log _ (.done 0 _)

omit [Kind τ] [DecidableEq τ] in
theorem load_within : (v.load scope).Within scope.Owns 2 := by
  refine download_within (Or.inr rfl) fun bs => ?_
  cases v.openSnapshot bs with
  | error e => exact .done 1 _
  | ok sn => exact .log _ (.done 0 _)

theorem has_within : (has scope).Within scope.Owns 1 := by
  refine .has (Or.inr rfl) fun r => ?_
  rcases r with e | b
  · exact .done 0 _
  · exact .done 0 _

theorem delete_within : (delete scope).Within scope.Owns 3 :=
  remove_within (Or.inr rfl) (remove_within (Or.inl rfl) (.log _ (.done 0 _)))

/-- **An order takes four turns at most**, and asks for the two blobs of its
scope only. -/
theorem serve_within (o : Order τ ν) : (v.serve ⟨scope, o⟩).Within scope.Owns 4 := by
  cases o with
  | save nonce g => exact (save_within nonce g).map _
  | load => exact (load_within.mono (by decide)).map _
  | loadBootstrap =>
    exact ((download_within (Or.inl rfl) fun _ => .done 0 _).mono (by decide)).map _
  | has => exact (has_within.mono (by decide)).map _
  | delete => exact (delete_within.mono (by decide)).map _

theorem client_within (os : List (Order τ ν)) :
    (v.client scope os).Within scope.Owns (4 * os.length) := by
  induction os with
  | nil => exact .done 0 []
  | cons o os ih =>
    rw [List.length_cons, Nat.mul_succ, Nat.add_comm]
    exact (serve_within o).andThen fun a => ih.map _

/-- **Clients of different scopes do not disturb each other.** Let any number
of them, each with a vault and its orders for a plain scope of its own, take
turns at one store in memory that is empty at first, a request at a time and
in any order. At any time each client is where it would be after as many turns
alone, and the store is the union of the stores that they would have alone. So
whoever has come to an end has the answers that it gets alone, four turns for
each order are always enough, and when all have ended the store is the union
of the stores of their runs alone. -/
theorem clients_undisturbed {ι : Type} [DecidableEq ι] (v : ι → Vault τ ν)
    {scope : ι → Scope} (hplain : ∀ i, (scope i).Plain) (hscope : Function.Injective scope)
    (orders : ι → List (Order τ ν)) (turns : List ι) :
    let clients i := (v i).client (scope i) (orders i)
    let r := Session.interleave Memory.store turns clients Table.empty
    let alone i := (clients i).turns Memory.store (turns.count i) Table.empty
    let solo i := (clients i).run Memory.store Table.empty
    (∀ i, (solo i).result =
      (v i).serveAll Memory.store ((orders i).map (Request.mk (scope i))) Table.empty) ∧
    (∀ i, r.1 i = (alone i).1) ∧
    (∀ k bs, r.2.get? k = some bs ↔ ∃ i, (alone i).2.get? k = some bs) ∧
    (∀ i, 4 * (orders i).length ≤ turns.count i → r.1 i = .done (solo i).result) ∧
    (∀ i as, r.1 i = .done as → as = (solo i).result) ∧
    ((∀ i, ∃ as, r.1 i = .done as) →
      ∀ k bs, r.2.get? k = some bs ↔ ∃ i, (solo i).state.get? k = some bs) := by
  intro clients r alone solo
  have hwithin (i : ι) : (clients i).Within (scope i).Owns _ := client_within (orders i)
  have hapart : ∀ i j k, (scope i).Owns k → (scope j).Owns k → i = j :=
    fun i j k hi hj => hscope (hi.unique (hplain i) (hplain j) hj)
  have hunion : ∀ k bs, r.2.get? k = some bs ↔ ∃ i, (alone i).2.get? k = some bs :=
    interleave_union Memory.confined_store hapart turns hwithin fun _ => rfl
  have hsessions : ∀ i, r.1 i = (alone i).1 :=
    (interleave_apart Memory.confined_store hapart turns hwithin Table.empty
      (fun _ => Table.empty) fun _ _ _ => rfl).1
  have hdone : ∀ i as, r.1 i = .done as → (solo i).result = as ∧ (solo i).state = (alone i).2 :=
    fun i as h => Session.run_of_turns (Prod.ext ((hsessions i).symm.trans h) rfl)
  refine ⟨fun i => result_run_client _ _ _, hsessions, hunion, fun i hi => ?_,
    fun i as h => (hdone i as h).1.symm, fun hall k bs => ?_⟩
  · exact (hsessions i).trans (congrArg Prod.fst ((hwithin i).turns_eq hi _))
  · have hstate (i : ι) : (solo i).state = (alone i).2 :=
      (hdone i _ (hall i).choose_spec).2
    simp only [hunion, hstate]

end Provision.Vault

/-! ## A rehearsal -/

namespace Provision.Rehearsal

open Asset

/-- The scopes of two clients. -/
def clientScope : Bool → Vault.Scope
  | false => ⟨"group", "one"⟩
  | true => ⟨"group", "two"⟩

/-- The graph that one of them saves. -/
def clientGraph : Asset.Graph Role String :=
  (Graph.empty.put rehearsedVault.bootstrap "payload").put lastRole "\"text\""

/-- What they ask for: one saves and loads, the other looks, saves what lacks
the payload, and removes. -/
def clientOrders : Bool → List (Vault.Order Role String)
  | false => [.save (Vector.replicate 12 (UInt8.ofNat 1)) clientGraph, .load]
  | true => [.has, .save (Vector.replicate 12 (UInt8.ofNat 2)) .empty, .delete]

/-- Turn by turn until both are done, the second once more at the end. -/
def clientTurns : List Bool :=
  (List.range 8).flatMap (fun _ => [false, true]) ++ [true, true, true, true]

/-- Alone, the first one loads the graph that it has saved. -/
theorem serveAll_clientOrders :
    ∃ sn, rehearsedVault.serveAll Blob.Memory.store
        ((clientOrders false).map (Vault.Request.mk (clientScope false))) Table.empty =
          [.saved (.ok ()), .loaded (.ok sn)] ∧
      clientGraph.snapshot rehearsedVault.codec = .ok sn ∧
      sn.get rehearsedVault.codec lastRole = .ok "\"text\"" := by
  have hseal : rehearsedVault.sealer.Opens := Cipher.Sealer.ofKey_opens _
  have hcodec : rehearsedVault.codec.Lawful := codec_lawful
  let saved := (rehearsedVault.save (Vector.replicate 12 (UInt8.ofNat 1)) (clientScope false)
    clientGraph).run Blob.Memory.store Table.empty
  have hsaved : saved.result = .ok () := by decide +kernel
  obtain ⟨sn, hload, hsn, -, hget⟩ :=
    ((Vault.stores_of_run_save hseal hcodec hsaved).returns hcodec).loaded
  refine ⟨sn, ?_, hsn, hget lastRole _ rfl⟩
  simp only [clientOrders, List.map_cons, List.map_nil, Vault.serveAll, Vault.serve,
    Blob.Session.run_map]
  rw [hsaved, hload]

/-- The first one loads what it has saved, though the other is at work beside
it; and that one finds nothing there, lacks the payload, and removes nothing. -/
theorem clients_undisturbed_rehearsed :
    (∀ i, (clientScope i).Plain) ∧ Function.Injective clientScope ∧
    let clients i := rehearsedVault.client (clientScope i) (clientOrders i)
    let r := Blob.Session.interleave Blob.Memory.store clientTurns clients Table.empty
    (∀ i, r.1 i = .done (rehearsedVault.serveAll Blob.Memory.store
      ((clientOrders i).map (Vault.Request.mk (clientScope i))) Table.empty)) ∧
    (∃ sn, r.1 false = .done [.saved (.ok ()), .loaded (.ok sn)] ∧
      clientGraph.snapshot rehearsedVault.codec = .ok sn ∧
      sn.get rehearsedVault.codec lastRole = .ok "\"text\"") ∧
    r.1 true = .done
      [.known (.ok false), .saved (.error (.missingBootstrap "n0")), .deleted (.ok ())] := by
  have hgroup : Blob.Key.IsComponent "group" := by constructor <;> decide
  have hone : Blob.Key.IsComponent "one" := by constructor <;> decide
  have htwo : Blob.Key.IsComponent "two" := by constructor <;> decide
  have hplain : ∀ i, (clientScope i).Plain := by
    rintro (_ | _)
    · exact ⟨hgroup, hone⟩
    · exact ⟨hgroup, htwo⟩
  have hscope : Function.Injective clientScope := by
    intro i j
    revert i j
    decide
  obtain ⟨hsolo, -, -, hdone, -, -⟩ :=
    Vault.clients_undisturbed (fun _ => rehearsedVault) hplain hscope clientOrders clientTurns
  have hanswers (i : Bool) := (hdone i (by revert i; decide)).trans (congrArg _ (hsolo i))
  refine ⟨hplain, hscope, hanswers, ?_, (hanswers true).trans ?_⟩
  · obtain ⟨sn, hserved, hsn, hget⟩ := serveAll_clientOrders
    exact ⟨sn, (hanswers false).trans (congrArg _ hserved), hsn, hget⟩
  · rfl

end Provision.Rehearsal
