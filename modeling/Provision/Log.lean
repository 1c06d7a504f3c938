/-!
# The log

What the library tells an operator while it works: a level, a message, and
named values.
-/

namespace Provision.Log

/-- How much a message matters. -/
inductive Level where
  | trace
  | debug
  | info
  | warn
  | error
  deriving Repr, DecidableEq

/-- The name of a level. -/
def Level.name : Level → String
  | .trace => "TRACE"
  | .debug => "DEBUG"
  | .info => "INFO"
  | .warn => "WARN"
  | .error => "ERROR"

/-- A value that accompanies a message. -/
inductive Value where
  | text (s : String)
  | number (n : Nat)
  deriving Repr, DecidableEq

/-- One message. -/
structure Entry where
  level : Level
  message : String
  fields : List (String × Value)
  deriving Repr, DecidableEq

end Provision.Log
