/-
  What the commands do: `convert` converts the classes of an SDK, `inspect` tells what would be
  generated, and `init-config` writes a settings file to start from.

  The settings are those of the file that is given or found, with what the options say put in
  its place.
-/
import PhpSharp.Command.Arguments
import PhpSharp.Conversion.Run
import PhpSharp.Settings.Load

namespace PhpSharp.Command

open Conversion (Inspection Report)
open Files (Host OsError)

/-- Why a command was not carried out. -/
inductive Fault
  /-- The working directory is not known. -/
  | noWorkingDirectory (cause : OsError)
  /-- The settings file cannot be read or written. -/
  | settingsFile (fault : Settings.FileFault)
  /-- The settings file that is asked for is not there. -/
  | noSettingsFile (path : Path)
  /-- The settings do not make sense. -/
  | settings (fault : Settings.Fault)
  /-- A conversion was given up. -/
  | conversion (error : Conversion.Error)
  /-- An inspection was given up. -/
  | inspection (error : Conversion.Error)
  deriving DecidableEq, Repr

/-- The fault in words, with its causes. -/
def Fault.message : Fault → String
  | .noWorkingDirectory cause => "Failed to determine the working directory: " ++ cause.message
  | .settingsFile fault => fault.fullMessage
  | .noSettingsFile path => "Config file not found: " ++ path.text
  | .settings fault => fault.message
  | .conversion error => "Conversion aborted: " ++ error.message
  | .inspection error => "Inspection aborted: " ++ error.message

/-- A text with spaces behind it, to at least `width` characters. -/
def padRight (width : Nat) (s : String) : String :=
  s ++ String.ofList (List.replicate (width - s.length) ' ')

/-- What is known of a class, in words. -/
def detail (i : Inspection) : String :=
  match i.error?, i.descriptor.facts? with
  | some e, _ => e.labelled
  | none, some (.object endpoint? connections) =>
    let endpoint := match endpoint? with
      | some endpoint => "\"" ++ endpoint ++ "\""
      | none => "<undefined>"
    s!"endpoint={endpoint} methods={connections.countP fun c => c.endpoint?.isSome}"
  | none, some (.enumeration constants) => s!"constants={constants.size}"
  | none, none => "not reflected"

/-- What is known of a class, as a line. -/
def describe (i : Inspection) : String :=
  padRight 7 i.descriptor.kind.key ++ " " ++ padRight 40 i.descriptor.shortName ++ " " ++ detail i

variable {m : Type → Type} [Monad m] [Host m]

/-- The settings of the file that is asked for or found in the working directory, or else the
    defaults as seen from there. -/
def loadSettings (asked? : Option Path) : m (Except Fault Settings) := do
  match ← Host.workingDirectory with
  | .error e => pure (.error (.noWorkingDirectory e))
  | .ok here =>
    match ← Settings.resolve asked? here with
    | none => pure (.ok (Settings.defaults.rebase here))
    | some path =>
      match ← Settings.load path with
      | .error fault => pure (.error (.settingsFile fault))
      | .ok none => pure (.error (.noSettingsFile path))
      | .ok (some s) => pure (.ok s)

/-- Settings with what the options say. -/
def override (s : Settings) (o : Options) : Settings :=
  { s with
    sdkRoot := o.sdkRoot?.getD s.sdkRoot
    outputRoot := o.output?.getD s.outputRoot
    jobs := o.jobs?.getD s.jobs }

/-- Converts the classes of an SDK and prints the report. -/
def convert (o : Options) : m (Except Fault Unit) := do
  match ← loadSettings o.config? with
  | .error fault => pure (.error fault)
  | .ok loaded =>
    let settings := override loaded o
    match settings.fault? with
    | some fault => pure (.error (.settings fault))
    | none => do
      let date ← Host.now
      match ← Conversion.run { settings, isDry := o.dryRun, date } with
      | .error e => pure (.error (.conversion e))
      | .ok report => do
        Host.print (if o.json then report.document.pretty else report.text)
        pure (.ok ())

/-- Prints a line for every class of an SDK, or for those of one kind. -/
def inspect (o : Options) : m (Except Fault Unit) := do
  match ← loadSettings o.config? with
  | .error fault => pure (.error fault)
  | .ok loaded =>
    match ← Conversion.inspect (override loaded o) with
    | .error e => pure (.error (.inspection e))
    | .ok inspections => do
      let wanted := inspections.filter fun i => o.kind?.all (· == i.descriptor.kind)
      wanted.forM fun i => Host.print (describe i)
      pure (.ok ())

/-- Writes a settings file to start from, unless there is one. -/
def initConfig (o : Options) : m (Except Fault Unit) := do
  let path := o.path?.getD ⟨Settings.fileName⟩
  match ← Settings.writeDefaults path with
  | .error fault => pure (.error (.settingsFile fault))
  | .ok isNew => do
    Host.print ((if isNew then "Wrote default configuration to "
      else "Configuration already exists at ") ++ path.text)
    pure (.ok ())

/-- Does what a program is asked to do. -/
def execute (i : Invocation) : m (Except Fault Unit) :=
  match i.name with
  | .convert => convert i.options
  | .inspect => inspect i.options
  | .initConfig => initConfig i.options

end PhpSharp.Command
