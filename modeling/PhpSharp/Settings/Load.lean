/-
  Settings files: finding, reading and writing them.

  A file is YAML if its name ends so and TOML otherwise. The roots in it are seen from the
  directory of the file.
-/
import PhpSharp.Document.Toml
import PhpSharp.Document.TomlText
import PhpSharp.Document.Yaml
import PhpSharp.Files.Host
import PhpSharp.Settings.Decode

namespace PhpSharp.Settings

open Files (Host OsError)

/-- Why settings could not be read or written. -/
inductive FileFault
  /-- The file cannot be read. -/
  | unreadable (path : Path) (cause : OsError)
  /-- The file is no settings file. -/
  | malformed (path : Path)
  /-- The settings do not make sense. -/
  | invalid (path : Path) (fault : Fault)
  /-- The directory for the file cannot be made. -/
  | noDirectory (path : Path) (cause : OsError)
  /-- The file cannot be written. -/
  | unwritable (path : Path) (cause : OsError)
  deriving DecidableEq, Repr

/-- The fault in words, without its cause. -/
def FileFault.message : FileFault → String
  | .unreadable path _ => "Failed to read converter config: " ++ path.text
  | .malformed path => "Failed to parse converter config: " ++ path.text
  | .invalid path _ => "Invalid converter config: " ++ path.text
  | .noDirectory path _ => "Failed to create directory for " ++ path.text
  | .unwritable path _ => "Failed to write converter config: " ++ path.text

/-- The cause of a fault, in words. -/
def FileFault.cause? : FileFault → Option String
  | .malformed _ => none
  | .invalid _ fault => some fault.message
  | .unreadable _ e | .noDirectory _ e | .unwritable _ e => some e.message

/-- The fault in words, with its cause. -/
def FileFault.fullMessage (f : FileFault) : String :=
  match f.cause? with
  | some cause => f.message ++ ": " ++ cause
  | none => f.message

/-- The name of the settings file that is looked for. -/
def fileName : String := "sdkport.toml"

/-- How many mentions may stand inside each other: settings are tables with tables with lists. -/
def mentionDepth : Nat := 3

/-- The settings that a text in the format of a file stands for. -/
def ofText? (path : Path) (text : String) : Option Settings :=
  if path.extension? = some "yaml" || path.extension? = some "yml" then
    (Document.Yaml.parse? mentionDepth text).bind (ofDocument? .yaml)
  else (Document.Toml.parse? text).bind (ofDocument? .toml)

/-- The settings in a file of some text. -/
def ofFile (path : Path) (text : String) : Except FileFault Settings :=
  match ofText? path text with
  | none => .error (.malformed path)
  | some s =>
    let s := match path.parent? with
      | some directory => s.rebase directory
      | none => s
    match s.fault? with
    | some fault => .error (.invalid path fault)
    | none => .ok s

variable {m : Type → Type} [Monad m] [Host m]

/-- The settings in a file, if it is there. -/
def load (path : Path) : m (Except FileFault (Option Settings)) := do
  if ← Host.isThere path then
    match ← Host.readText path with
    | .error e => pure (.error (.unreadable path e))
    | .ok text => pure ((ofFile path text).map some)
  else pure (.ok none)

/-- The settings file to read: the one that is asked for, or else the one of the usual name in a
    directory, if it is there. -/
def resolve (asked? : Option Path) (directory : Path) : m (Option Path) := do
  match asked? with
  | some path => pure (some path)
  | none =>
    let path := directory.entry fileName
    if ← Host.isThere path then pure (some path) else pure none

/-- The text of a settings file with all defaults. -/
def defaultText : String := defaults.document.toml

/-- Writes a settings file with all defaults, unless something is there already, and tells
    whether it did. -/
def writeDefaults (path : Path) : m (Except FileFault Bool) := do
  if ← Host.isThere path then pure (.ok false)
  else
    let made : Except OsError Unit ← match path.parent? with
      | some directory => Files.createDirectories directory
      | none => pure (.ok ())
    match made with
    | .error e => pure (.error (.noDirectory path e))
    | .ok () =>
      match ← Host.writeText path defaultText with
      | .error e => pure (.error (.unwritable path e))
      | .ok () => pure (.ok true)

end PhpSharp.Settings
