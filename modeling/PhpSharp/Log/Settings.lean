/-
  What is logged and how, from the environment and the command line.
-/
import PhpSharp.Log.Entry
import PhpSharp.Text.Letters

namespace PhpSharp.Log

/-- The forms of a log. -/
inductive Format
  /-- Several lines for an entry, to be read. -/
  | pretty
  /-- A JSON object for an entry. -/
  | json
  deriving DecidableEq, Repr

/-- A text in lower case. -/
def lowered (s : String) : String := String.ofList (s.toList.flatMap Text.lower)

/-- The format of a name; one that is not known means `pretty`. -/
def Format.ofName (name : String) : Format := if lowered name = "json" then .json else .pretty

/-- The level of a name; one that is not known means `info`. -/
def Level.ofName (name : String) : Level :=
  match lowered name with
  | "trace" => .trace
  | "debug" => .debug
  | "warn" => .warn
  | "error" => .error
  | _ => .info

/-- The settings of the log. -/
structure Settings where
  /-- The name of the least level that is logged. -/
  levelName : String
  format : Format
  /-- More rules on what is logged. -/
  filter? : Option String := none
  /-- Whether an entry tells the place in the program. -/
  includesLocation : Bool := false
  deriving DecidableEq, Repr

namespace Settings

/-- The least level that is logged. -/
def level (s : Settings) : Level := .ofName s.levelName

/-- The settings for a run that is told to be verbose, or not. -/
def verbose (s : Settings) (isVerbose : Bool) : Settings :=
  if isVerbose then { s with levelName := "debug" } else s

/-- The settings that environment variables give. -/
def ofEnvironment (valueOf? : String → Option String) : Settings where
  levelName := (valueOf? "SDKPORT_LOG_LEVEL").getD "info"
  format := .ofName ((valueOf? "SDKPORT_LOG_FORMAT").getD "pretty")
  filter? := valueOf? "SDKPORT_LOG_TARGET_FILTER"
  includesLocation := valueOf? "SDKPORT_LOG_INCLUDE_LOCATION" == some "true"

end Settings

/-- Whether an entry of a level is logged when `least` is the least level. -/
def Level.passes (level least : Level) : Bool := least.ctorIdx ≤ level.ctorIdx

end PhpSharp.Log
