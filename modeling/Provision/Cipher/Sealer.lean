import Provision.Cause
import Provision.Cipher.Base64
import Provision.Cipher.Gcm
import Provision.Text.Blank
/-!
# Ciphers — sealing payloads

A `Sealer` seals payloads so that nobody without its key can read them or
make one that it opens. The one used is AES-256 in Galois counter mode; it
is built from a key written in base 64.
-/

namespace Provision.Cipher

/-- Why a payload could not be sealed or opened. -/
inductive Error where
  | invalidKey (reason : String)
  | sealing
  /-- The payload was cut, changed, or sealed under another key. -/
  | authentication
  deriving Repr, DecidableEq

namespace Error

/-- The wording of an error. -/
def message : Error → String
  | invalidKey reason => "invalid encryption key: " ++ reason
  | sealing => "encryption failed"
  | authentication => "ciphertext failed authentication"

/-- The error as those see it who only report it. -/
def toCause (e : Error) : Cause := .ofText e.message

end Error

/-- Seals and opens payloads. The nonce makes two sealed forms of one
payload differ; who seals sees to it that none is used twice. -/
structure Sealer where
  /-- The sealed form of a payload. -/
  encrypt : Nonce → Bytes → Except Error Bytes
  /-- The payload of a sealed form. -/
  decrypt : Bytes → Except Error Bytes

namespace Sealer

/-- The greatest number of octets that can be sealed at once. -/
def lengthLimit : Nat := 0x1000000000

/-- The sealer of a key. What is too long to have been sealed is not opened
either. -/
def ofKey (key : Aes.Key) : Sealer :=
  let cipher := Aes.encrypt (.ofKey key)
  { encrypt := fun nonce plain =>
      if lengthLimit < plain.length then .error .sealing else .ok (Gcm.sealed cipher nonce plain)
    decrypt := fun bs =>
      if Gcm.nonceLength + lengthLimit + Gcm.tagLength < bs.length then .error .authentication
      else
        match Gcm.unsealed cipher bs with
        | some plain => .ok plain
        | none => .error .authentication }

/-- The number of octets of a key. -/
def keyLength : Nat := 32

/-- The key of 32 octets. -/
def key? (bs : Bytes) : Option Aes.Key :=
  if h : bs.toArray.size = 32 then some ⟨bs.toArray, h⟩ else none

/-- **The key of a text**: its written form in base 64, with or without
white space around it. -/
def readKey (text : String) : Except Error Aes.Key :=
  match Base64.decode (Utf8.encode (Blank.trim text)) with
  | .error e => .error (.invalidKey ("invalid base64: " ++ e.message))
  | .ok bs =>
    match key? bs with
    | some key => .ok key
    | none =>
      .error (.invalidKey
        ("key must be " ++ toString keyLength ++ " bytes, got " ++ toString bs.length))

/-- The text of a key. -/
def writeKey (key : Aes.Key) : String := Base64.encodeText key.toList

/-- The sealer of a key given as a text. -/
def ofText (text : String) : Except Error Sealer := ofKey <$> readKey text

end Sealer

end Provision.Cipher
