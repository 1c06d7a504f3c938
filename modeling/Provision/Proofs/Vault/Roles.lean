import Provision.Proofs.Blob.Paths
import Provision.Proofs.Blob.Sparing
import Provision.Proofs.Vault.Saving
import Provision.Proofs.Vault.Secrecy
/-!
# The vault — the roles of keys

A key says in which of two roles its blob is kept: as a payload that anybody
may read, or as a sealed graph. Names may hold what they like, other keys
among it, and still no text is a key in both roles. So **what is put where a
graph stands has been sealed** (`Uploads.sealed`), and a payload spares every
graph (`put_payload_spares`).

Both keys of a scope are refused or neither is, and the payload is put first.
So a save that is refused for a key **has published nothing**: with a scope
that is accepted it never comes to that (`SaveCourse.ne_invalidKey`).
-/

namespace Provision

open Asset Blob

/-! ## What a session puts -/

namespace Blob.Session

variable {σ α β : Type} {P : String → Stream → Prop} {s : Session α}

/-- **Whatever a session puts is as `P` says**, whatever the answers. -/
inductive PutsOnly (P : String → Stream → Prop) : Session α → Prop
  | done (a : α) : PutsOnly P (.done a)
  | log (e : Log.Entry) {next : Session α} (h : PutsOnly P next) : PutsOnly P (.log e next)
  | get (key : String) {next : Except Error Stream → Session α} (h : ∀ r, PutsOnly P (next r)) :
      PutsOnly P (.get key next)
  | put {key : String} {data : Stream} (hput : P key data) (contentType : String)
      {next : Except Error Unit → Session α} (h : ∀ r, PutsOnly P (next r)) :
      PutsOnly P (.put key data contentType next)
  | delete (key : String) {next : Except Error Unit → Session α} (h : ∀ r, PutsOnly P (next r)) :
      PutsOnly P (.delete key next)
  | has (key : String) {next : Except Error Bool → Session α} (h : ∀ r, PutsOnly P (next r)) :
      PutsOnly P (.has key next)

theorem PutsOnly.map (h : s.PutsOnly P) (f : α → β) : (s.map f).PutsOnly P := by
  induction h with
  | done a => exact .done (f a)
  | log e _ ih => exact .log e ih
  | get key _ ih => exact .get key ih
  | put hput contentType _ ih => exact .put hput contentType ih
  | delete key _ ih => exact .delete key ih
  | has key _ ih => exact .has key ih

/-- Every put that such a session makes of some store is one of these. -/
theorem PutsOnly.of_mem_calls (h : s.PutsOnly P) {store : Store σ} {w : σ} {key : String}
    {data : Stream} {contentType : String} (hmem : .put key data contentType ∈ s.calls store w) :
    P key data := by
  induction h generalizing w with
  | done a => cases hmem
  | log e _ ih => exact ih hmem
  | get key' _ ih =>
    obtain hcall | hmem := List.mem_cons.1 hmem
    · cases hcall
    · exact ih _ hmem
  | put hput contentType' _ ih =>
    obtain hcall | hmem := List.mem_cons.1 hmem
    · cases hcall
      exact hput
    · exact ih _ hmem
  | delete key' _ ih =>
    obtain hcall | hmem := List.mem_cons.1 hmem
    · cases hcall
    · exact ih _ hmem
  | has key' _ ih =>
    obtain hcall | hmem := List.mem_cons.1 hmem
    · cases hcall
    · exact ih _ hmem

end Blob.Session

namespace Vault

variable {τ ν σ : Type} [Kind τ] [DecidableEq τ] {v : Vault τ ν} {store : Store σ} {w : σ}
variable {a b scope : Scope} {nonce : Cipher.Nonce} {g : Asset.Graph τ ν} {q : Request τ ν}
variable {key : String} {data : Stream}

/-- **What is put for a request**: the payload of a graph, in the clear, and
what has been sealed of the graph, each under its key. -/
inductive Uploads (v : Vault τ ν) (q : Request τ ν) : String → Stream → Prop
  | payload {nonce : Cipher.Nonce} {g : Asset.Graph τ ν} {x : ν} (h : q.order = .save nonce g)
      (hx : g.get? v.bootstrap = some x) :
      Uploads v q q.scope.bootstrapKey (.once (v.payload x))
  | graph {nonce : Cipher.Nonce} {g : Asset.Graph τ ν} {n : Nat} {bs : Bytes}
      (h : q.order = .save nonce g) (hseal : v.sealedSnapshot nonce g = .ok (n, bs)) :
      Uploads v q q.scope.graphKey (.once bs)

omit [Kind τ] [DecidableEq τ] in
/-- A download puts nothing of its own, and neither does a removal. -/
theorem download_putsOnly {α : Type} {P : String → Stream → Prop} (key : String)
    {next : Bytes → Session (Except Error α)} (hnext : ∀ bs, (next bs).PutsOnly P) :
    (download key scope next).PutsOnly P := by
  obtain ⟨after, hafter, hr⟩ := download_eq key scope next
  rw [hafter]
  refine .get key fun r => ?_
  obtain ⟨e, he⟩ | ⟨content, hcontent⟩ := hr r
  · rw [he]
    exact .done _
  · rw [hcontent]
    exact hnext content

theorem remove_putsOnly {P : String → Stream → Prop} (key : String)
    {next : Session (Except Error Unit)} (hnext : next.PutsOnly P) :
    (remove key next).PutsOnly P := by
  obtain ⟨after, hafter, hr⟩ := remove_eq key next
  rw [hafter]
  refine .delete key fun r => ?_
  obtain ⟨e, he⟩ | hgone := hr r
  · rw [he]
    exact .done _
  · rw [hgone]
    exact hnext

theorem save_putsOnly (h : q.order = .save nonce g) :
    (v.save nonce q.scope g).PutsOnly (v.Uploads q) := by
  rw [save]
  cases hx : g.get? v.bootstrap with
  | none => exact .done _
  | some x =>
    refine .put (.payload h hx) _ fun r => ?_
    rcases r with e | ⟨⟩
    · exact .done _
    refine .log _ ?_
    rcases hseal : v.sealedSnapshot nonce g with e | ⟨n, bs⟩
    · exact .done _
    refine .put (.graph h hseal) _ fun r => ?_
    rcases r with e | ⟨⟩
    · exact .done _
    · exact .log _ (.done _)

/-- **One request**, whichever it is. -/
theorem serve_putsOnly (v : Vault τ ν) (q : Request τ ν) :
    (v.serve q).PutsOnly (v.Uploads q) := by
  rw [serve]
  cases h : q.order with
  | save nonce g => exact (save_putsOnly h).map _
  | load =>
    refine (download_putsOnly _ fun bs => ?_).map _
    cases v.openSnapshot bs with
    | error e => exact .done _
    | ok sn => exact .log _ (.done _)
  | loadBootstrap => exact (download_putsOnly _ fun _ => .done _).map _
  | has =>
    refine Session.PutsOnly.map (.has _ fun r => ?_) _
    rcases r with e | b
    · exact .done _
    · exact .done _
  | delete => exact (remove_putsOnly _ (remove_putsOnly _ (.log _ (.done _)))).map _

/-- **Any number of requests.** -/
theorem uploads_of_mem_footprints {qs : List (Request τ ν)} {f : Footprint σ}
    (hf : f ∈ v.footprints store qs w) {contentType : String}
    (hmem : .put key data contentType ∈ f.calls) : ∃ q ∈ qs, v.Uploads q key data := by
  induction qs generalizing w with
  | nil => cases hf
  | cons q qs ih =>
    obtain rfl | hf := List.mem_cons.1 hf
    · exact ⟨q, List.mem_cons_self, (serve_putsOnly v q).of_mem_calls hmem⟩
    · obtain ⟨q', hq', hupload⟩ := ih hf
      exact ⟨q', List.mem_cons_of_mem _ hq', hupload⟩

/-- **What is put where a graph stands has been sealed**, and by one whose
graph stands there. -/
theorem Uploads.sealed (h : v.Uploads q a.graphKey data) :
    q.scope.graphKey = a.graphKey ∧ ∃ nonce g n bs, q.order = .save nonce g ∧
      v.sealedSnapshot nonce g = .ok (n, bs) ∧ data = .once bs := by
  generalize hkey : a.graphKey = key at h
  cases h with
  | payload => exact absurd hkey (Scope.graphKey_ne_bootstrapKey a q.scope)
  | graph h hseal => exact ⟨rfl, _, _, _, _, h, hseal, rfl⟩

/-! ## What a payload spares -/

/-- Nor is a payload prepared where a graph stands. -/
theorem Scope.graphKey_ne_partialPath (a b : Scope) :
    a.graphKey ≠ Directory.partialPath b.bootstrapKey := by
  intro heq
  have hbeside : (Directory.partialPath b.bootstrapKey).toList.getLast? = some 'l' := by
    rw [Directory.partialPath, String.toList_append, List.getLast?_append]
    rfl
  rw [← heq, Scope.getLast?_graphKey] at hbeside
  exact absurd hbeside (by decide)

/-- **A payload that is put spares every graph**, in memory and in a
directory. -/
theorem put_payload_spares (a b : Scope) :
    Memory.store.Spares b.bootstrapKey a.graphKey ∧
    ∀ d : Directory, d.store.Spares b.bootstrapKey a.graphKey := by
  have hne : b.bootstrapKey ≠ a.graphKey := (Scope.graphKey_ne_bootstrapKey a b).symm
  refine ⟨fun m data contentType _ hread => ?_, fun d t data contentType _ hread => ?_⟩
  · rwa [Memory.fetched_put_of_ne m data contentType hne]
  · exact Directory.fetched_put_of_ne data contentType hne (Scope.graphKey_ne_partialPath a b) hread

/-! ## Scopes that are refused -/

omit [DecidableEq τ] in
/-- What cannot be sealed is no matter of the store. -/
theorem sealedSnapshot_ne_blob (e : Blob.Error) :
    v.sealedSnapshot nonce g ≠ .error (.blob e) := by
  intro h
  rw [sealedSnapshot] at h
  split at h
  · cases h
  · split at h <;> cases h

/-- A scope whose keys are refused is refused at the payload. -/
theorem run_save_of_not_accepted (hstore : store.Discerns) (hscope : ¬ scope.Accepted) {x : ν}
    (hx : g.get? v.bootstrap = some x) :
    let o := (v.save nonce scope g).run store w
    o.result = .error (.blob (.invalidKey scope.bootstrapKey)) ∧ o.state = w := by
  have hinvalid : Key.isValid scope.bootstrapKey = false := by
    rw [Bool.eq_false_iff]
    exact fun h => hscope (Scope.accepted_iff.2 (Key.check_of_isValid h))
  have hput := (hstore.refuses hinvalid).put (.once (v.payload x)) contentType w
  simp only [save, hx, Session.run_put, hput, Session.run_done]
  exact ⟨trivial, trivial⟩

/-- **A scope that is accepted is never refused for a key**, neither before its
payload is published nor behind that. -/
theorem SaveCourse.ne_invalidKey (hstore : store.Discerns) (hscope : scope.Accepted)
    {r : Except Error Unit} {w' : σ} (h : SaveCourse v nonce scope g store w r w') (k : String) :
    r ≠ .error (.blob (.invalidKey k)) := by
  rintro rfl
  cases h with
  | unpublished _ hput => exact hstore.put_once_ne hscope.payload _ _ _ _ hput
  | unsealed _ _ hseal => exact sealedSnapshot_ne_blob _ hseal
  | unkept _ _ _ hput' => exact hstore.put_once_ne hscope.graph _ _ _ _ hput'

/-- **A save is refused for a key just when its scope is not accepted** and it
has come to the payload. -/
theorem run_save_invalidKey_iff (hstore : store.Discerns) {k : String} :
    ((v.save nonce scope g).run store w).result = .error (.blob (.invalidKey k)) ↔
      k = scope.bootstrapKey ∧ ¬ scope.Accepted ∧ g.get? v.bootstrap ≠ none := by
  have hcourse := saveCourse_run v nonce scope g store w
  cases hx : g.get? v.bootstrap with
  | none => simp [save, hx]
  | some x =>
    constructor
    · intro hresult
      have hscope : ¬ scope.Accepted := fun h => hcourse.ne_invalidKey hstore h k hresult
      rw [(run_save_of_not_accepted hstore hscope hx).1] at hresult
      cases hresult
      exact ⟨rfl, hscope, Option.some_ne_none x⟩
    · rintro ⟨rfl, hscope, -⟩
      exact (run_save_of_not_accepted hstore hscope hx).1

/-- And then nothing has changed. -/
theorem state_run_save_of_not_accepted (hstore : store.Discerns) (hscope : ¬ scope.Accepted) :
    ((v.save nonce scope g).run store w).state = w := by
  cases hx : g.get? v.bootstrap with
  | none => simp only [save, hx, Session.run_done]
  | some x => exact (run_save_of_not_accepted hstore hscope hx).2

/-! ## What keys keep apart -/

/-- **Keys keep roles and scopes apart**, whatever is in the names of the
scopes.

No graph has the key of a payload. So a payload that is put spares every
graph, in memory and in a directory; and whatever is asked of a vault, over
any store, what is put under the key of a graph has been sealed.

The graphs of two scopes have one key just when their payloads do.

One key of a scope is accepted just when the other is. So over a store that
discerns keys, as both stores do, a save is refused for a key just when the
scope is not accepted and there is a payload; the key is that of the payload,
and nothing has changed. A save that has published a payload is never refused
for the key of the graph.

Of scopes whose names have no slash in them, different ones have different
keys. -/
theorem keys_keep_apart (v : Vault τ ν) (store : Store σ) (a b : Scope) :
    a.graphKey ≠ b.bootstrapKey ∧
    (Memory.store.Spares b.bootstrapKey a.graphKey ∧
      ∀ d : Directory, d.store.Spares b.bootstrapKey a.graphKey) ∧
    (∀ (qs : List (Request τ ν)) (w : σ), ∀ f ∈ v.footprints store qs w, ∀ data contentType,
      .put a.graphKey data contentType ∈ f.calls → ∃ q ∈ qs, q.scope.graphKey = a.graphKey ∧
        ∃ nonce g n bs, q.order = .save nonce g ∧ v.sealedSnapshot nonce g = .ok (n, bs) ∧
          data = .once bs) ∧
    (a.graphKey = b.graphKey ↔ a.bootstrapKey = b.bootstrapKey) ∧
    (Key.check a.graphKey = .ok () ↔ Key.check a.bootstrapKey = .ok ()) ∧
    (Memory.store.Discerns ∧ ∀ d : Directory, d.store.Discerns) ∧
    (store.Discerns → ∀ (nonce : Cipher.Nonce) (g : Asset.Graph τ ν) (w : σ),
      let o := (v.save nonce a g).run store w
      (∀ k, o.result = .error (.blob (.invalidKey k)) ↔
        k = a.bootstrapKey ∧ ¬ a.Accepted ∧ g.get? v.bootstrap ≠ none) ∧
      (¬ a.Accepted → o.state = w)) ∧
    (a.Slashless → b.Slashless → a.graphKey = b.graphKey → a = b) := by
  refine ⟨Scope.graphKey_ne_bootstrapKey a b, put_payload_spares a b,
    fun qs w f hf data contentType hmem => ?_, Scope.graphKey_eq_iff, Scope.check_graphKey_iff,
    ⟨Memory.discerns, Directory.discerns⟩, fun hstore nonce g w => ?_,
    fun ha hb => (Scope.graphKey_inj_of_slashless ha hb).1⟩
  · obtain ⟨q, hq, hupload⟩ := uploads_of_mem_footprints hf hmem
    exact ⟨q, hq, hupload.sealed⟩
  · exact ⟨fun k => run_save_invalidKey_iff hstore, state_run_save_of_not_accepted hstore⟩

end Vault

end Provision

/-! ## A rehearsal -/

namespace Provision.Rehearsal

open Asset Blob

/-- A scope whose names read like a blob of another. -/
def mimicScope : Vault.Scope := ⟨"aro", "graph"⟩

/-- A scope whose names lead out of the store. -/
def strayScope : Vault.Scope := ⟨"..", "ignition"⟩

/-- What is saved for the one, with the nonce of ones. -/
def mimicRequest : Vault.Request Role String :=
  ⟨mimicScope, .save (Vector.replicate 12 (UInt8.ofNat 1))
    (Graph.empty.put blindVault.bootstrap "payload")⟩

/-- What a sealer makes of that which writes down the nonce. -/
def mimicSealed : Bytes := List.replicate 12 (UInt8.ofNat 1)

/-- The names of the one scope have no slash in them, so its keys are its own;
what is put under the key of its graph has been sealed, and what stands there
outlasts a payload of the other. That one is refused, and the store is as it
was. -/
theorem keys_keep_apart_mimic :
    mimicScope.Slashless ∧ strayScope.Slashless ∧ mimicScope.graphKey ≠ strayScope.graphKey ∧
    Memory.store.fetched (Memory.store.put strayScope.bootstrapKey (.once [1]) Vault.contentType
      (Table.empty.insert mimicScope.graphKey [2])).2 mimicScope.graphKey = .ok [2] ∧
    (∃ f ∈ blindVault.footprints Memory.store [mimicRequest] Table.empty,
      .put mimicScope.graphKey (.once mimicSealed) Vault.contentType ∈ f.calls ∧
      ∃ nonce g n, mimicRequest.order = .save nonce g ∧
        blindVault.sealedSnapshot nonce g = .ok (n, mimicSealed)) ∧
    Memory.store.Discerns ∧ ¬ strayScope.Accepted ∧
    ∀ nonce g (m : Memory),
      ((blindVault.save nonce strayScope g).run Memory.store m).state = m := by
  have hmimic : mimicScope.Slashless := ⟨by decide, by decide⟩
  have hstray : strayScope.Slashless := ⟨by decide, by decide⟩
  have hrefused : ¬ strayScope.Accepted := fun h => absurd h.graph (by decide +kernel)
  obtain ⟨-, ⟨hspares, -⟩, hsealed, -, -, -, -, hinj⟩ :=
    Vault.keys_keep_apart blindVault Memory.store mimicScope strayScope
  obtain ⟨-, -, -, -, -, ⟨hdiscerns, -⟩, hsave, -⟩ :=
    Vault.keys_keep_apart blindVault Memory.store strayScope mimicScope
  refine ⟨hmimic, hstray, fun heq => absurd (hinj hmimic hstray heq) (by decide),
    hspares _ _ _ _ (by decide +kernel), ⟨_, List.mem_cons_self, ?_⟩, hdiscerns, hrefused,
    fun nonce g m => (hsave hdiscerns nonce g m).2 hrefused⟩
  have hmem : .put mimicScope.graphKey (.once mimicSealed) Vault.contentType ∈
      (blindVault.serve mimicRequest).calls Memory.store Table.empty := by
    decide +kernel
  obtain ⟨q, hq, -, nonce, g, n, bs, horder, hseal, hdata⟩ :=
    hsealed [mimicRequest] Table.empty _ List.mem_cons_self _ _ hmem
  obtain rfl := List.mem_singleton.1 hq
  obtain rfl : mimicSealed = bs := by
    simpa [Stream.once] using hdata
  exact ⟨hmem, nonce, g, n, horder, hseal⟩

end Provision.Rehearsal
