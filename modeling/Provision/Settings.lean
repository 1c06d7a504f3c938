import Provision.Cause
import Provision.Files.Tree
import Provision.Json.Reader
import Provision.Json.Writer
/-!
# Settings

What an installer is told before it starts: where blobs are kept, which
environment variable holds the key, and how often and how long steps try
again. Settings are read from a JSON document that **overlays the
defaults**: what it does not mention stays as it is, section by section and
field by field.
-/

namespace Provision

/-- Where blobs are kept. -/
structure Settings.Storage where
  /-- The path of the base directory. -/
  root : String
  deriving Repr, DecidableEq

/-- How the key is supplied. It stands in no document. -/
structure Settings.Encryption where
  /-- The environment variable that holds it. -/
  keyEnv : String
  deriving Repr, DecidableEq

/-- How often and how long steps try again, in milliseconds. -/
structure Settings.StepDefaults where
  /-- Between two polls of a condition. -/
  conditionPoll : Nat
  /-- Between fresh credentials and the next attempt. -/
  authorizationPoll : Nat
  /-- How long authorization failures are cured. -/
  authorizationRetry : Nat
  deriving Repr, DecidableEq

/-- What an installer is told. -/
structure Settings where
  /-- Where blobs are kept. -/
  storage : Settings.Storage
  /-- How the key is supplied. -/
  encryption : Settings.Encryption
  /-- How steps try again. -/
  steps : Settings.StepDefaults
  deriving Repr, DecidableEq

namespace Settings

open Json

/-! ## Defaults -/

/-- The base directory below a home directory. -/
def Storage.below (home : String) : Storage :=
  ⟨Files.Path.join (Files.Path.join home ".stratus") "blobs"⟩

/-- The variable that holds the key unless another one is named. -/
def Encryption.standard : Encryption := ⟨"STRATUS_GRAPH_KEY"⟩

/-- Ten seconds, half a minute, ten minutes. -/
def StepDefaults.standard : StepDefaults := ⟨10000, 30000, 600000⟩

/-- The home directory: the one the environment names, else the one of the
account, else the directory one is in. -/
def homeDirectory (environment account : Option String) : String :=
  match environment with
  | some home => if home = "" then account.getD "." else home
  | none => account.getD "."

/-- The settings of one who says nothing. -/
def standard (home : String) : Settings := ⟨.below home, .standard, .standard⟩

/-- Whether two settings say the same: two texts of one path are the same
place. -/
def same (a b : Settings) : Bool :=
  Files.Path.same a.storage.root b.storage.root && a.encryption = b.encryption && a.steps = b.steps

/-! ## Reading -/

/-- What a section looks like: any part of it may be left out, at the end
of a list or anywhere in an object. -/
def overlay {σ : Type} (wanted : String) (fields : List (Json.Field σ)) (start : σ) :
    Record σ σ where
  wanted
  wantedLength := wanted
  fields
  openEnd := true
  extensible := true
  start
  finish := .ok

/-- What the section on storage looks like. -/
def Storage.record (home : String) : Record Storage Storage :=
  overlay "struct StorageConfig"
    [⟨"root", fun bs => do
        let (s, bs) ← Reader.text "path string" bs
        return (fun _ => ⟨s⟩, bs)⟩]
    (.below home)

/-- What the section on encryption looks like. -/
def Encryption.record : Record Encryption Encryption :=
  overlay "struct EncryptionConfig"
    [⟨"key_env", fun bs => do
        let (s, bs) ← Reader.text "a string" bs
        return (fun _ => ⟨s⟩, bs)⟩]
    .standard

/-- A number of milliseconds. -/
def milliseconds {σ : Type} (name : String) (put : Nat → σ → σ) : Json.Field σ :=
  ⟨name, fun bs => do
    let (n, bs) ← Reader.natural Numeral.wordLimit "u64" bs
    return (put n, bs)⟩

/-- What the section on steps looks like. -/
def StepDefaults.record : Record StepDefaults StepDefaults :=
  overlay "struct StepDefaults"
    [milliseconds "condition_poll_interval_ms" fun n s => { s with conditionPoll := n },
     milliseconds "authorization_poll_interval_ms" fun n s => { s with authorizationPoll := n },
     milliseconds "authorization_retry_timeout_ms" fun n s => { s with authorizationRetry := n }]
    .standard

/-- What settings look like. -/
def record (home : String) : Record Settings Settings :=
  overlay "struct InstallerConfig"
    [⟨"storage", fun bs => do
        let (a, bs) ← (Storage.record home).read bs
        return (fun s => { s with storage := a }, bs)⟩,
     ⟨"encryption", fun bs => do
        let (a, bs) ← Encryption.record.read bs
        return (fun s => { s with encryption := a }, bs)⟩,
     ⟨"steps", fun bs => do
        let (a, bs) ← StepDefaults.record.read bs
        return (fun s => { s with steps := a }, bs)⟩]
    (standard home)

/-! ## Writing -/

/-- The JSON text of the section on steps. -/
def StepDefaults.write (d : StepDefaults) : String :=
  Writer.object
    [("condition_poll_interval_ms", Writer.natural d.conditionPoll),
     ("authorization_poll_interval_ms", Writer.natural d.authorizationPoll),
     ("authorization_retry_timeout_ms", Writer.natural d.authorizationRetry)]

/-- The JSON text of settings. -/
def write (s : Settings) : String :=
  Writer.object
    [("storage", Writer.object [("root", Writer.text s.storage.root)]),
     ("encryption", Writer.object [("key_env", Writer.text s.encryption.keyEnv)]),
     ("steps", s.steps.write)]

/-! ## Documents and files -/

/-- Why there are no settings. -/
inductive Error where
  /-- The file cannot be read. -/
  | read (path : String) (source : Files.Error)
  /-- The document cannot be understood. -/
  | parse (problem : Problem)
  deriving Repr, DecidableEq

namespace Error

/-- The wording of an error. -/
def message : Error → String
  | read path _ => "failed to read config file '" ++ path ++ "'"
  | parse problem => "invalid config: " ++ problem.message

/-- The errors behind an error. -/
def sources : Error → List Link
  | read _ source => [.ofText source.message]
  | parse problem => [.ofText problem.message]

/-- The error as those see it who only report it. -/
def toCause (e : Error) : Cause := ⟨.ofText e.message, e.sources⟩

end Error

/-- **The settings of a document.** -/
def ofDocument (home document : String) : Except Error Settings :=
  (Json.document (record home).read (Utf8.encode document)).mapError .parse

/-- The text of a file. -/
def readText (t : Files.Tree) (path : String) : Except Files.Error String := do
  match Utf8.decode? (← t.read path) with
  | some text => return text
  | none => throw .notText

/-- The settings of a file. -/
def load (home : String) (t : Files.Tree) (path : String) : Except Error Settings := do
  ofDocument home (← (readText t path).mapError (.read path))

end Settings

end Provision
