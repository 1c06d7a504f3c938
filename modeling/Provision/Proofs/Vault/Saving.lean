import Provision.Proofs.Blob.Laws
import Provision.Proofs.Vault.Slots
/-!
# The vault — saves that fail

Over any store a save goes in one of five ways (`SaveCourse`): it ends where
it first fails, and the graph is put last of all, after everything else that
can fail. So over a store that keeps its blobs when a put fails, **a save that
fails has not touched the sealed graph** (`save_safe`): at most the payload is
new. One that succeeds has put both blobs and no other.
-/

namespace Provision

open Asset Blob

namespace Vault

variable {τ ν σ κ : Type} [Kind τ] [DecidableEq τ]

/-! ## The course of a save -/

/-- **The ways in which a save goes**, over any store: it ends where it first
fails. -/
inductive SaveCourse (v : Vault τ ν) (nonce : Cipher.Nonce) (scope : Scope) (g : Asset.Graph τ ν)
    (store : Store σ) (w : σ) : Except Error Unit → σ → Prop
  | lacking (h : g.get? v.bootstrap = none) :
      SaveCourse v nonce scope g store w (.error (.missingBootstrap (Kind.name v.bootstrap))) w
  | unpublished {x : ν} {e : Blob.Error} {w₁ : σ} (h : g.get? v.bootstrap = some x)
      (hput : store.put scope.bootstrapKey (.once (v.payload x)) contentType w = (.error e, w₁)) :
      SaveCourse v nonce scope g store w (.error (.blob e)) w₁
  | unsealed {x : ν} {e : Error} {w₁ : σ} (h : g.get? v.bootstrap = some x)
      (hput : store.put scope.bootstrapKey (.once (v.payload x)) contentType w = (.ok (), w₁))
      (hseal : v.sealedSnapshot nonce g = .error e) :
      SaveCourse v nonce scope g store w (.error e) w₁
  | unkept {x : ν} {n : Nat} {bs : Bytes} {e : Blob.Error} {w₁ w₂ : σ}
      (h : g.get? v.bootstrap = some x)
      (hput : store.put scope.bootstrapKey (.once (v.payload x)) contentType w = (.ok (), w₁))
      (hseal : v.sealedSnapshot nonce g = .ok (n, bs))
      (hput' : store.put scope.graphKey (.once bs) contentType w₁ = (.error e, w₂)) :
      SaveCourse v nonce scope g store w (.error (.blob e)) w₂
  | kept {x : ν} {n : Nat} {bs : Bytes} {w₁ w₂ : σ} (h : g.get? v.bootstrap = some x)
      (hput : store.put scope.bootstrapKey (.once (v.payload x)) contentType w = (.ok (), w₁))
      (hseal : v.sealedSnapshot nonce g = .ok (n, bs))
      (hput' : store.put scope.graphKey (.once bs) contentType w₁ = (.ok (), w₂)) :
      SaveCourse v nonce scope g store w (.ok ()) w₂

variable {v : Vault τ ν} {nonce : Cipher.Nonce} {scope : Scope} {g : Asset.Graph τ ν}
variable {store : Store σ} {w : σ}

/-- **Every save goes in one of these ways.** -/
theorem saveCourse_run (v : Vault τ ν) (nonce : Cipher.Nonce) (scope : Scope)
    (g : Asset.Graph τ ν) (store : Store σ) (w : σ) :
    let o := (v.save nonce scope g).run store w
    SaveCourse v nonce scope g store w o.result o.state := by
  intro o
  cases h : g.get? v.bootstrap with
  | none =>
    simp only [o, save, h, Session.run_done]
    exact .lacking h
  | some x =>
    rcases hput : store.put scope.bootstrapKey (.once (v.payload x)) contentType w with
      ⟨e | ⟨⟩, w₁⟩
    · simp only [o, save, h, Session.run_put, hput, Session.run_done]
      exact .unpublished h hput
    rcases hseal : v.sealedSnapshot nonce g with e | ⟨n, bs⟩
    · simp only [o, save, h, Session.run_put, hput, hseal, Session.run_log, Session.run_done]
      exact .unsealed h hput hseal
    rcases hput' : store.put scope.graphKey (.once bs) contentType w₁ with ⟨e | ⟨⟩, w₂⟩
    · simp only [o, save, h, Session.run_put, hput, hseal, Session.run_log, hput',
        Session.run_done]
      exact .unkept h hput hseal hput'
    · simp only [o, save, h, Session.run_put, hput, hseal, Session.run_log, hput',
        Session.run_done]
      exact .kept h hput hseal hput'

/-! ## What is kept -/

section

variable {blobs : σ → String → Option Bytes} {luck : σ → κ}

omit [Kind τ] [DecidableEq τ] in
/-- A load looks at the sealed graph, and at nothing else. -/
theorem run_load_congr (hstore : store.Keeps blobs luck) {u u' : σ}
    (hblobs : blobs u scope.graphKey = blobs u' scope.graphKey) (hluck : luck u = luck u') :
    ((v.load scope).run store u).result = ((v.load scope).run store u').result := by
  rw [load, download, Session.run_get, Session.run_get, hstore.fetched hblobs hluck]
  rcases (store.get scope.graphKey u').1 with e | stream
  · cases e <;> rfl
  · dsimp only
    rcases stream.collect with e | bs
    · rfl
    · dsimp only
      cases v.openSnapshot bs <;> rfl

namespace SaveCourse

variable {r : Except Error Unit} {w' : σ}

/-- **One that fails leaves all as it was**, or all but the payload. -/
theorem of_error (hstore : store.Keeps blobs luck) {e : Error}
    (h : SaveCourse v nonce scope g store w (.error e) w') :
    blobs w' = blobs w ∨ ∃ x, g.get? v.bootstrap = some x ∧
      blobs w' = Function.update (blobs w) scope.bootstrapKey (some (v.payload x)) := by
  cases h with
  | lacking h => exact Or.inl rfl
  | unpublished h hput => exact Or.inl (hstore.refused hput)
  | @unsealed x _ _ h hput hseal => exact Or.inr ⟨x, h, hstore.kept_once hput⟩
  | @unkept x _ _ _ _ _ h hput hseal hput' =>
    exact Or.inr ⟨x, h, (hstore.refused hput').trans (hstore.kept_once hput)⟩

/-- **One that succeeds has put both blobs.** -/
theorem of_ok (hstore : store.Keeps blobs luck)
    (h : SaveCourse v nonce scope g store w (.ok ()) w') :
    ∃ x n bs, g.get? v.bootstrap = some x ∧ v.sealedSnapshot nonce g = .ok (n, bs) ∧
      blobs w' = Function.update
        (Function.update (blobs w) scope.bootstrapKey (some (v.payload x)))
        scope.graphKey (some bs) := by
  cases h with
  | @kept x n bs _ _ h hput hseal hput' =>
    exact ⟨x, n, bs, h, hseal, hstore.kept_once hput ▸ hstore.kept_once hput'⟩

/-- **One that puts nothing changes nothing.** -/
theorem of_unpublished (hstore : store.Keeps blobs luck)
    (hno : ∀ x, g.get? v.bootstrap = some x →
      (store.put scope.bootstrapKey (.once (v.payload x)) contentType w).1 ≠ .ok ())
    (h : SaveCourse v nonce scope g store w r w') : (∃ e, r = .error e) ∧ blobs w' = blobs w := by
  cases h with
  | lacking h => exact ⟨⟨_, rfl⟩, rfl⟩
  | unpublished h hput => exact ⟨⟨_, rfl⟩, hstore.refused hput⟩
  | unsealed h hput hseal => exact absurd (congrArg Prod.fst hput) (hno _ h)
  | unkept h hput hseal hput' => exact absurd (congrArg Prod.fst hput) (hno _ h)
  | kept h hput hseal hput' => exact absurd (congrArg Prod.fst hput) (hno _ h)

end SaveCourse

/-- **A save that fails has not touched the sealed graph.** Over any store that
keeps its blobs when a put fails, and whatever the sealer does: after a save
that fails, the sealed graph is what it was, and is loaded as before; the
payload is what it was or the new one; and there is no other change. Without
the asset of the payload, with keys that a store that checks them refuses, or
if the first put fails, there is no change at all. After a save that succeeds, the two blobs are
the payload and what was sealed of the whole graph, and there is no other
change. -/
theorem save_safe (hstore : store.Keeps blobs luck) (v : Vault τ ν) (nonce : Cipher.Nonce)
    (scope : Scope) (g : Asset.Graph τ ν) (w : σ) :
    let o := (v.save nonce scope g).run store w
    (∀ e, o.result = .error e →
      blobs o.state scope.graphKey = blobs w scope.graphKey ∧
      (∀ u u', blobs u scope.graphKey = blobs w scope.graphKey →
        blobs u' scope.graphKey = blobs o.state scope.graphKey → luck u = luck u' →
          ((v.load scope).run store u).result = ((v.load scope).run store u').result) ∧
      (blobs o.state scope.bootstrapKey = blobs w scope.bootstrapKey ∨
        ∃ x, g.get? v.bootstrap = some x ∧
          blobs o.state scope.bootstrapKey = some (v.payload x)) ∧
      ∀ k, k ≠ scope.bootstrapKey → k ≠ scope.graphKey → blobs o.state k = blobs w k) ∧
    (g.get? v.bootstrap = none →
      o.result = .error (.missingBootstrap (Kind.name v.bootstrap)) ∧ o.state = w) ∧
    (store.Checks → ¬scope.Accepted →
      (∃ e, o.result = .error e) ∧ blobs o.state = blobs w) ∧
    (∀ x e, g.get? v.bootstrap = some x →
      (store.put scope.bootstrapKey (.once (v.payload x)) contentType w).1 = .error e →
        o.result = .error (.blob e) ∧ blobs o.state = blobs w) ∧
    (o.result = .ok () → ∃ x sn bs, g.get? v.bootstrap = some x ∧
      g.snapshot v.codec = .ok sn ∧ sn.Mirrors v.codec g ∧
      v.sealer.encrypt nonce (Utf8.encode sn.render) = .ok bs ∧
      blobs o.state = Function.update
        (Function.update (blobs w) scope.bootstrapKey (some (v.payload x)))
        scope.graphKey (some bs)) := by
  intro o
  have hcourse : SaveCourse v nonce scope g store w o.result o.state :=
    saveCourse_run v nonce scope g store w
  refine ⟨fun e he => ?_, fun h => ?_, fun hchecks hscope => ?_, fun x e h hput => ?_,
    fun hok => ?_⟩
  · rw [he] at hcourse
    have hothers : ∀ k, k ≠ scope.bootstrapKey → blobs o.state k = blobs w k := by
      intro k hk
      obtain hw | ⟨x, -, hw⟩ := hcourse.of_error hstore
      · rw [hw]
      · rw [hw, Function.update_of_ne hk]
    have hgraph := hothers _ (Scope.graphKey_ne_bootstrapKey scope scope)
    refine ⟨hgraph, fun u u' hu hu' =>
      run_load_congr hstore ((hu.trans hgraph.symm).trans hu'.symm), ?_, fun k hk _ => hothers k hk⟩
    obtain hw | ⟨x, h, hw⟩ := hcourse.of_error hstore
    · exact Or.inl (by rw [hw])
    · exact Or.inr ⟨x, h, by rw [hw, Function.update_self]⟩
  · simp only [o, save, h, Session.run_done]
    exact ⟨trivial, trivial⟩
  · -- a put that succeeds has a key that is accepted
    refine hcourse.of_unpublished hstore fun x _ hput => hscope (Scope.accepted_iff.2 ?_)
    exact hchecks (Prod.ext hput rfl)
  · have hno : (store.put scope.bootstrapKey (.once (v.payload x)) contentType w).1 ≠ .ok () := by
      rw [hput]
      intro hok
      cases hok
    refine ⟨?_, (hcourse.of_unpublished hstore fun y hy => ?_).2⟩
    · simp only [o, save, h, Session.run_put, hput, Session.run_done]
    · obtain rfl := Option.some.inj (h.symm.trans hy)
      exact hno
  · rw [hok] at hcourse
    obtain ⟨x, n, bs, h, hseal, hw⟩ := hcourse.of_ok hstore
    obtain ⟨sn, hsn, -, hbs⟩ := of_sealedSnapshot hseal
    exact ⟨x, sn, bs, h, hsn, Asset.Graph.mirrors_of_snapshot hsn, hbs, hw⟩

end

end Vault

end Provision

/-! ## A rehearsal -/

namespace Provision.Rehearsal

open Asset Blob

/-- The scope of a save that breaks off. -/
def tornScope : Vault.Scope := ⟨"group", "one"⟩

/-- A store with both blobs of the scope, which will refuse the second put. -/
def tornStart : Watched Memory :=
  ⟨[⟨.put, 2, .refused (.io (.reported "broken pipe"))⟩], [],
    (Table.empty.insert tornScope.bootstrapKey [1]).insert tornScope.graphKey [2]⟩

/-- What is saved over them. -/
def tornGraph : Asset.Graph Role String := Graph.empty.put rehearsedVault.bootstrap "payload"

/-- The save publishes its payload and fails, with the sealed graph as it was. -/
theorem save_safe_torn :
    (Watched.store Memory.store).Keeps (fun w => Table.get? w.inner)
      (fun w => (w.mishap? .get, ())) ∧
    (Watched.store Memory.store).Checks ∧
    let o := (rehearsedVault.save (Vector.replicate 12 (UInt8.ofNat 1)) tornScope tornGraph).run
      (Watched.store Memory.store) tornStart
    o.result = .error (.blob (.io (.reported "broken pipe"))) ∧
    o.state.inner.get? tornScope.bootstrapKey = some (Utf8.encode "payload") ∧
    o.state.inner.get? tornScope.graphKey = some [2] := by
  have hstore := Watched.keeps_store Memory.keeps_store
  refine ⟨hstore, Watched.checks_store Memory.checks_store, ?_⟩
  intro o
  have hresult : o.result = .error (.blob (.io (.reported "broken pipe"))) := by decide +kernel
  obtain ⟨hgraph, -⟩ := (Vault.save_safe hstore rehearsedVault (Vector.replicate 12 (UInt8.ofNat 1))
    tornScope tornGraph tornStart).1 _ hresult
  exact ⟨hresult, by decide +kernel, hgraph.trans (by decide +kernel)⟩

end Provision.Rehearsal
