import Provision.Cause
import Provision.Files.Error
import Provision.Text.Utf8
/-!
# Blobs — errors and streams

What a blob store answers when it refuses, and content on its way: the
chunks that arrive, and the error that ends them too early, if one does.
-/

namespace Provision.Blob

/-- What is wrong with the medium. -/
inductive Trouble where
  /-- The file system refused. -/
  | system (e : Files.Error)
  /-- The other end reported this. -/
  | reported (text : String)
  deriving Repr, DecidableEq

/-- The wording of a trouble. -/
def Trouble.message : Trouble → String
  | system e => e.message
  | reported text => text

/-- Why a store refused. -/
inductive Error where
  | notFound (key : String)
  | invalidKey (key : String)
  /-- Reading or writing failed. -/
  | io (trouble : Trouble)
  deriving Repr, DecidableEq

namespace Error

/-- The wording of an error. -/
def message : Error → String
  | notFound key => "blob not found: " ++ key
  | invalidKey key => "invalid blob key: " ++ key
  | io trouble => "io error: " ++ trouble.message

/-- The errors behind an error. -/
def sources : Error → List Link
  | io trouble => [.ofText trouble.message]
  | _ => []

/-- The error as those see it who only report it. -/
def toCause (e : Error) : Cause := ⟨.ofText e.message, e.sources⟩

end Error

/-- Content that arrives in chunks. -/
structure Stream where
  /-- The chunks in order. -/
  chunks : List Bytes
  /-- What broke the stream off behind the last chunk. -/
  failure : Option Error
  deriving Repr, DecidableEq

namespace Stream

/-- Content that arrives at once. -/
def once (content : Bytes) : Stream := ⟨[content], none⟩

/-- The whole content, unless the stream breaks off. -/
def collect (s : Stream) : Except Error Bytes :=
  match s.failure with
  | none => .ok s.chunks.flatten
  | some e => .error e

@[simp] theorem collect_once (content : Bytes) : (once content).collect = .ok content := by
  simp [once, collect]

end Stream

end Provision.Blob
