/-
  Log entries: a level, a message, and fields with a name and a text each.
-/

namespace PhpSharp.Log

/-- How much a log entry matters, the least first. -/
inductive Level
  | trace
  | debug
  | info
  | warn
  | error
  deriving DecidableEq, Repr

/-- The word for a level. -/
def Level.word : Level → String
  | .trace => "TRACE"
  | .debug => "DEBUG"
  | .info => "INFO"
  | .warn => "WARN"
  | .error => "ERROR"

/-- One line of a log. -/
structure Entry where
  level : Level
  message : String
  fields : List (String × String)
  deriving DecidableEq, Repr

end PhpSharp.Log
