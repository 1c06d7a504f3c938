import Provision.Asset.Snapshot
import Provision.Blob.Session
import Provision.Vault.Error
/-!
# The vault

Keeps the graph of each scope in a blob store, in two blobs: **the payload
of one asset in the clear**, since a booting machine fetches it before it
holds any key, **and the snapshot of the whole graph, sealed**.

The two are put and removed in opposite orders, so that a sealed graph is
never there without a payload: `save` puts the payload first, `delete`
removes the graph first. The two uploads of `save` are no transaction: when
the second fails, the new payload stands beside the graph of before, and
the failure is reported.

Every operation is a session with the store; nothing here says what the
store is.
-/

namespace Provision

open Asset Blob

/-- How graphs are kept. -/
structure Vault (τ ν : Type) where
  /-- Seals and opens snapshots. -/
  sealer : Cipher.Sealer
  /-- Writes and reads assets. -/
  codec : Codec τ ν
  /-- The kind of the asset whose payload is kept in the clear. -/
  bootstrap : τ
  /-- The payload of that asset. -/
  payload : ν → Bytes

namespace Vault

variable {τ ν : Type} [Kind τ] [DecidableEq τ]

/-- The type of the content of both blobs. -/
def contentType : String := "application/octet-stream"

/-- The sealed snapshot of a graph, with the number of its entries. -/
def sealedSnapshot (v : Vault τ ν) (nonce : Cipher.Nonce) (g : Asset.Graph τ ν) :
    Except Error (Nat × Bytes) :=
  match g.snapshot v.codec with
  | .error e => .error (.asset e)
  | .ok s =>
    match v.sealer.encrypt nonce (Utf8.encode s.render) with
    | .error e => .error (.cipher e)
    | .ok bs => .ok (s.size, bs)

/-- **Saves a graph**: the payload in the clear, then the sealed snapshot,
each in the place of what was there before. -/
def save (v : Vault τ ν) (nonce : Cipher.Nonce) (scope : Scope) (g : Asset.Graph τ ν) :
    Session (Except Error Unit) :=
  match g.get? v.bootstrap with
  | none => .done (.error (.missingBootstrap (Kind.name v.bootstrap)))
  | some asset =>
    let payload := v.payload asset
    .put scope.bootstrapKey (.once payload) contentType fun
      | .error e => .done (.error (.blob e))
      | .ok () =>
        .log ⟨.debug, "uploaded bootstrap payload", [("bytes", .number payload.length)]⟩ <|
          match v.sealedSnapshot nonce g with
          | .error e => .done (.error e)
          | .ok (size, bs) =>
            .put scope.graphKey (.once bs) contentType fun
              | .error e => .done (.error (.blob e))
              | .ok () =>
                .log ⟨.info, "persisted asset graph", [("assets", .number size)]⟩ <|
                  .done (.ok ())

/-- The whole content of a blob of a scope. -/
def download {α : Type} (key : String) (scope : Scope)
    (next : Bytes → Session (Except Error α)) : Session (Except Error α) :=
  .get key fun
    | .error (.notFound _) => .done (.error (.notPersisted scope))
    | .error e => .done (.error (.blob e))
    | .ok stream =>
      match stream.collect with
      | .error e => .done (.error (.blob e))
      | .ok content => next content

omit [Kind τ] [DecidableEq τ] in
/-- The snapshot of a sealed form. -/
def openSnapshot (v : Vault τ ν) (bs : Bytes) : Except Error Snapshot :=
  match v.sealer.decrypt bs with
  | .error e => .error (.cipher e)
  | .ok plain =>
    match Snapshot.ofDocument plain with
    | .error p => .error (.decode p)
    | .ok s => .ok s

omit [Kind τ] [DecidableEq τ] in
/-- **Loads the snapshot of a scope**; no asset is decoded. -/
def load (v : Vault τ ν) (scope : Scope) : Session (Except Error Snapshot) :=
  download scope.graphKey scope fun bs =>
    match v.openSnapshot bs with
    | .error e => .done (.error e)
    | .ok s =>
      .log ⟨.debug, "loaded persisted asset graph", [("assets", .number s.size)]⟩ <|
        .done (.ok s)

/-- Loads the payload in the clear, as a booting machine does. -/
def loadBootstrap (scope : Scope) : Session (Except Error Bytes) :=
  download scope.bootstrapKey scope fun bs => .done (.ok bs)

/-- Whether a graph is saved for a scope. Nothing is fetched. -/
def has (scope : Scope) : Session (Except Error Bool) :=
  .has scope.graphKey fun
    | .error e => .done (.error (.blob e))
    | .ok b => .done (.ok b)

/-- Removes a blob that may be absent. -/
def remove (key : String) (next : Session (Except Error Unit)) : Session (Except Error Unit) :=
  .delete key fun
    | .ok () => next
    | .error (.notFound _) => next
    | .error e => .done (.error (.blob e))

/-- **Removes both blobs of a scope**, the sealed graph first. -/
def delete (scope : Scope) : Session (Except Error Unit) :=
  remove scope.graphKey <|
    remove scope.bootstrapKey <|
      .log ⟨.info, "deleted persisted asset graph", [("scope", .text scope.display)]⟩ <|
        .done (.ok ())

end Vault

end Provision
