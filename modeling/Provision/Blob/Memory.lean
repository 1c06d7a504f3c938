import Provision.Blob.Key
import Provision.Blob.Session
import Provision.Table
/-!
# Blobs — in memory

A store that is a table of blobs. A blob is put only after all of it has
arrived, so a stream that breaks off changes nothing.
-/

namespace Provision.Blob

/-- Blobs by key. -/
abbrev Memory := Table String Bytes

namespace Memory

/-- The content of a blob. -/
def get (m : Memory) (key : String) : Except Error Stream := do
  Key.check key
  match m.get? key with
  | some content => return .once content
  | none => throw (.notFound key)

/-- The blobs with another one put, or why it was not. -/
def put (m : Memory) (key : String) (data : Stream) : Except Error Memory := do
  Key.check key
  return m.insert key (← data.collect)

/-- The blobs without one of them, or why it was not removed. -/
def delete (m : Memory) (key : String) : Except Error Memory := do
  Key.check key
  if m.contains key then return m.erase key else throw (.notFound key)

/-- Whether there is a blob. -/
def has (m : Memory) (key : String) : Except Error Bool := do
  Key.check key
  return m.contains key

/-- A change of the blobs as a store makes it: what is refused changes
nothing. -/
def step (m : Memory) : Except Error Memory → Except Error Unit × Memory
  | .ok m' => (.ok (), m')
  | .error e => (.error e, m)

/-- The store of blobs in memory. -/
def store : Store Memory where
  get key m := (m.get key, m)
  put key data _ m := m.step (m.put key data)
  delete key m := m.step (m.delete key)
  has key m := (m.has key, m)

end Memory

end Provision.Blob
