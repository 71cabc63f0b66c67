import Conform.Bytes

/-! What the library reports while it works, for a log. -/
namespace Conform

inductive Level where
  | debug | info | warn | error
  deriving DecidableEq, Repr

def Level.name : Level → Bytes
  | .debug => "DEBUG"
  | .info => "INFO"
  | .warn => "WARN"
  | .error => "ERROR"

/-- A log entry with its attributes in order. -/
structure Event where
  level : Level
  message : Bytes
  attributes : List (Bytes × Bytes)
  deriving DecidableEq, Repr

end Conform
