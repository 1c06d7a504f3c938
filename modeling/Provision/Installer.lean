import Provision.Asset.Resolve
import Provision.Blob.Directory
import Provision.Blob.Within
import Provision.Pipeline.Run
import Provision.Settings
import Provision.Vault.Basic
/-!
# The installer

Ties the parts together. Made of settings and of the key that the environment
holds (`Installer.ofSettings`), it builds steps with the intervals of its
settings and keeps graphs in a vault. Its own contribution is the step that
*persists a graph*: it seeds a fresh graph, resolves an asset in it and
saves the result. **Nothing is written unless the graph is complete**, and
nothing is kept between two runs of the step.
-/

namespace Provision

open Asset Pipeline

/-- What an installer finds around it. -/
structure Installer.Site (τ σ : Type) where
  store : Blob.Store σ
  /-- Draws a nonce that has not been used. -/
  nonce : σ → Cipher.Nonce × σ
  /-- What calling functions of assets does to the world. -/
  witness : List (Happening τ) → σ → σ

/-- What an installer is built of, whatever its settings: assets, and the world
they are worked out in. -/
structure Installer.Kit (τ ν σ : Type) where
  /-- Writes and reads assets. -/
  codec : Codec τ ν
  /-- The kind of the asset whose payload is kept in the clear. -/
  bootstrap : τ
  /-- The payload of that asset. -/
  payload : ν → Bytes
  declarations : Declarations τ ν
  /-- Draws a nonce that has not been used. -/
  nonce : σ → Cipher.Nonce × σ
  /-- What calling functions of assets does to the world. -/
  witness : List (Happening τ) → σ → σ

/-- Builds steps, and saves graphs. -/
structure Installer (τ ν σ : Type) where
  vault : Vault τ ν
  declarations : Declarations τ ν
  /-- How steps try again. -/
  defaults : Settings.StepDefaults
  /-- What it finds around it. -/
  site : Installer.Site τ σ

namespace Installer

variable {τ ν σ : Type}

/-! ## From settings -/

/-- Why there is no installer. -/
inductive Error where
  /-- The environment has no key. -/
  | missingKey (name : String)
  /-- The environment has something that is no key. -/
  | invalidKey (name : String) (source : Cipher.Error)
  deriving Repr, DecidableEq

namespace Error

/-- The wording of an error. -/
def message : Error → String
  | missingKey name => "graph encryption key environment variable '" ++ name ++ "' is not set"
  | invalidKey name _ => "invalid graph encryption key in '" ++ name ++ "'"

/-- The errors behind an error. -/
def sources : Error → List Link
  | missingKey _ => []
  | invalidKey _ source => source.toCause.links

/-- The error as those see it who only report it. -/
def toCause (e : Error) : Cause := ⟨.ofText e.message, e.sources⟩

end Error

/-- The sealer whose key the environment holds under the name that the
settings give. -/
def sealerOf (environment : String → Option String) (s : Settings) :
    Except Error Cipher.Sealer :=
  let name := s.encryption.keyEnv
  match environment name with
  | none => .error (.missingKey name)
  | some text =>
    match Cipher.Sealer.ofText text with
    | .error e => .error (.invalidKey name e)
    | .ok sealer => .ok sealer

/-- Where blobs are kept on disk. -/
def directoryOf (s : Settings) : Blob.Directory := ⟨s.storage.root⟩

/-- What is logged of an installer that keeps blobs on disk. -/
def announcement (s : Settings) : Log.Entry :=
  ⟨.info, "using filesystem blob store", [("root", .text s.storage.root)]⟩

/-- The installer over a store, with a sealer. -/
def ofKit (k : Kit τ ν σ) (store : Blob.Store σ) (sealer : Cipher.Sealer)
    (defaults : Settings.StepDefaults) : Installer τ ν σ where
  vault := ⟨sealer, k.codec, k.bootstrap, k.payload⟩
  declarations := k.declarations
  defaults
  site := ⟨store, k.nonce, k.witness⟩

/-- **The installer of settings**, in a world with files, and what is logged of
it. The key is looked for first: without one nothing is announced. -/
def ofSettings (k : Kit τ ν σ) (files : σ → Files.Tree) (keep : Files.Tree → σ → σ)
    (environment : String → Option String) (s : Settings) :
    Except Error (Installer τ ν σ) × List Log.Entry :=
  match sealerOf environment s with
  | .error e => (.error e, [])
  | .ok sealer =>
    (.ok (ofKit k ((directoryOf s).store.within files keep) sealer s.steps), [announcement s])

/-- **There is an installer just when the environment holds a key**, whatever
else the settings say. It seals with that key, and it is announced. -/
theorem ofSettings_eq_ok_iff {k : Kit τ ν σ} {files : σ → Files.Tree}
    {keep : Files.Tree → σ → σ} {environment : String → Option String} {s : Settings}
    {i : Installer τ ν σ} {log : List Log.Entry} :
    ofSettings k files keep environment s = (.ok i, log) ↔
      ∃ text key, environment s.encryption.keyEnv = some text ∧
        Cipher.Sealer.readKey text = .ok key ∧
        i = ofKit k ((directoryOf s).store.within files keep) (.ofKey key) s.steps ∧
        log = [announcement s] := by
  simp only [ofSettings, sealerOf, Cipher.Sealer.ofText]
  cases environment s.encryption.keyEnv with
  | none => simp
  | some text =>
    cases hkey : Cipher.Sealer.readKey text with
    | error e => simp [hkey, Functor.map, Except.map]
    | ok key => simp [hkey, Functor.map, Except.map, eq_comm]

/-! ## Steps -/

variable (i : Installer τ ν σ)

/-- A condition that is polled at the interval of the settings. -/
def condition (name : String) (f : Function σ (Except Failure Bool)) (timeout : Duration)
    (fails : Bool) : Step σ :=
  .condition ⟨name, f, timeout, fails, i.defaults.conditionPoll, none⟩

/-- An action that is retried as the settings say. -/
def retrying (name : String) (authorizer : Function σ (Except Cause Unit))
    (f : Function σ (Except Failure Unit)) : Step σ :=
  .retrying ⟨name, f, authorizer, i.defaults.authorizationRetry, i.defaults.authorizationPoll⟩

/-- What is logged while assets are resolved. -/
def logged : Happening τ → Option Move
  | .logged e => some (.log e)
  | _ => none

/-- What is logged of a graph that has been resolved. -/
def resolved (scope : Vault.Scope) (size : Nat) : Move :=
  .log ⟨.debug, "resolved asset graph", [("assets", .number size), ("scope", .text scope.display)]⟩

/-- Puts assets into a fresh graph, or fails. -/
abbrev Seed (τ ν : Type) [Kind τ] := Asset.Graph τ ν → Except Asset.Error (Asset.Graph τ ν)

variable [Kind τ] [DecidableEq τ]

/-- **Persists a graph**: seeds a fresh one, resolves `root` in it, and
saves it for the scope. -/
def persist (scope : Vault.Scope) (seed : Seed τ ν) (root : τ)
    (value : ν := i.declarations.blank root) : Function σ (Except Failure Unit) := fun _ world =>
  match seed .empty with
  | .error e => (⟨[], .error (.other e.toCause)⟩, world)
  | .ok g =>
    let r := g.resolve i.declarations root value
    let world := i.site.witness r.happenings world
    let moves := r.happenings.filterMap logged
    match r.verdict with
    | .error e => (⟨moves, .error (.other e.toCause)⟩, world)
    | .ok () =>
      let (nonce, world) := i.site.nonce world
      let saved := (i.vault.save nonce scope r.graph).run i.site.store world
      (⟨moves ++ resolved scope r.graph.size :: saved.log.map .log,
        saved.result.mapError fun e => .other e.toCause⟩, saved.state)

/-- The step that persists a graph. -/
def persistStep (name : String) (scope : Vault.Scope) (seed : Seed τ ν) (root : τ)
    (value : ν := i.declarations.blank root) : Step σ :=
  .action ⟨name, i.persist scope seed root value⟩

end Installer

end Provision
