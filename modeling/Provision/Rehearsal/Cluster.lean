import Provision.Asset.Basic
import Provision.Asset.Snapshot
import Provision.Rehearsal.Assets
/-!
# Rehearsals — the assets of a cluster

Six kinds of assets with the shapes that assets commonly have: records of
texts, a bare number, octets with a mark, and one without any content. They
are read from snapshots and written back.
-/

namespace Provision.Rehearsal

open Asset Json

/-- A kind of asset. -/
inductive Piece where
  | region
  | nodeCount
  | clusterSpec
  | adminKey
  | kubeconfig
  | workerProfile
  deriving Repr, DecidableEq

namespace Piece

/-- The name of a kind. -/
def name : Piece → String
  | region => "region"
  | nodeCount => "node-count"
  | clusterSpec => "cluster-spec"
  | adminKey => "admin-key"
  | kubeconfig => "kubeconfig"
  | workerProfile => "worker-profile"

/-- The name of the type of a kind. -/
def typeName : Piece → String
  | region => "Region"
  | nodeCount => "NodeCount"
  | clusterSpec => "ClusterSpec"
  | adminKey => "AdminKey"
  | kubeconfig => "Kubeconfig"
  | workerProfile => "WorkerProfile"

/-- Every kind. -/
def all : List Piece := [region, nodeCount, clusterSpec, adminKey, kubeconfig, workerProfile]

theorem mem_all (p : Piece) : p ∈ all := by
  cases p <;> simp [all]

instance : Kind Piece where
  name := name
  title := typeName
  all := all
  mem_all := mem_all

/-- The kind of a name. -/
def ofName? (name : String) : Option Piece := all.find? fun p => p.name = name

end Piece

/-- An asset. -/
inductive Holding where
  | region (name : String)
  | nodeCount (n : Nat)
  | clusterSpec (name domain : String)
  | adminKey (pem : String)
  /-- How to reach a cluster, and whether that was generated. -/
  | kubeconfig (data : List Nat) (generated : Bool)
  /-- A worker profile; there is but one. -/
  | workerProfile
  deriving Repr, DecidableEq

/-- The JSON text of an asset. -/
def Holding.write : Holding → String
  | region name => Writer.object [("name", Writer.text name)]
  | nodeCount n => Writer.natural n
  | clusterSpec name domain =>
    Writer.object [("name", Writer.text name), ("domain", Writer.text domain)]
  | adminKey pem => Writer.object [("private_key_pem", Writer.text pem)]
  | kubeconfig data generated =>
    Writer.object
      [("data", Writer.list (data.map Writer.natural)), ("generated", Writer.boolean generated)]
  | workerProfile => "null"

/-- A record of two fields that are both required. -/
def pairRecord {α β γ : Type} (type : String) (first : String × Reader α)
    (second : String × Reader β) (make : α → β → γ) : Record (Option α × Option β) γ where
  wanted := "struct " ++ type
  wantedLength := "struct " ++ type ++ " with 2 elements"
  fields :=
    [⟨first.1, fun bs => do
        let (a, bs) ← first.2 bs
        return (fun s => (some a, s.2), bs)⟩,
     ⟨second.1, fun bs => do
        let (b, bs) ← second.2 bs
        return (fun s => (s.1, some b), bs)⟩]
  openEnd := false
  extensible := true
  start := (none, none)
  finish
    | (none, _) => .error (.missingField first.1)
    | (some _, none) => .error (.missingField second.1)
    | (some a, some b) => .ok (make a b)

/-- The value that a reader reads, as an asset. -/
def asHolding {α : Type} (read : Reader α) (make : α → Holding) : Reader Holding := fun bs => do
  let (a, bs) ← read bs
  return (make a, bs)

/-- Reads an asset of a kind. -/
def Piece.reader (p : Piece) : Reader Holding :=
  match p with
  | region => asHolding (textRecord p.typeName "name").read .region
  | nodeCount => asHolding (Reader.natural 0x100000000 "u32") .nodeCount
  | clusterSpec =>
    (pairRecord p.typeName ("name", Reader.text "a string") ("domain", Reader.text "a string")
      .clusterSpec).read
  | adminKey => asHolding (textRecord p.typeName "private_key_pem").read .adminKey
  | kubeconfig =>
    (pairRecord p.typeName ("data", Reader.list (Reader.natural 0x100 "u8"))
      ("generated", Reader.boolean) .kubeconfig).read
  | workerProfile => asHolding (Reader.null ("unit struct " ++ p.typeName)) fun _ => .workerProfile

/-- How assets are written and read back. -/
def Piece.codec : Codec Piece Holding where
  encode _ h := .ok h.write
  decode p text := document p.reader (Utf8.encode text)

end Provision.Rehearsal
