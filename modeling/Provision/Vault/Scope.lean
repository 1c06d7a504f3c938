/-!
# The vault — scopes

A scope says whose state it is: the resource group and the account of one
cluster. It fixes the keys of the two blobs of that state.
-/

namespace Provision.Vault

/-- Whose state it is. -/
structure Scope where
  group : String
  account : String
  deriving Repr, DecidableEq

namespace Scope

/-- The scope as messages show it. -/
def display (s : Scope) : String := s.group ++ "/" ++ s.account

/-- The key of a blob of the scope. -/
def key (s : Scope) (blob : String) : String := s.group ++ "/" ++ s.account ++ "/" ++ blob

/-- The key of the payload that is kept in the clear. -/
def bootstrapKey (s : Scope) : String := s.key "ignition/bootstrap.ign"

/-- The key of the sealed graph. -/
def graphKey (s : Scope) : String := s.key "aro/graph"

end Scope

end Provision.Vault
