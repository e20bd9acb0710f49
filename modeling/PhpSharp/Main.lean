/-
  The program: the commands on the files, the clock and the terminal of the system it runs on.

  What a command prints goes to standard output; the log and what goes wrong go to standard
  error.
-/
import PhpSharp.Command.Execute
import PhpSharp.Log.Printed
import Std.Time.Zoned

namespace PhpSharp

open Files (Host OsError)

/-! ## Files -/

/-- What the system says when it refuses a call. -/
def refusal : IO.Error → OsError
  | .noFileOrDirectory _ code words | .interrupted _ code words
  | .alreadyExists _ code words | .invalidArgument _ code words
  | .permissionDenied _ code words | .resourceExhausted _ code words
  | .inappropriateType _ code words | .noSuchThing _ code words
  | .otherError code words | .resourceBusy code words | .resourceVanished code words
  | .unsupportedOperation code words | .hardwareFault code words
  | .unsatisfiedConstraints code words | .illegalOperation code words
  | .protocolError code words | .timeExpired code words => .ofCode code.toNat words
  | .unexpectedEof => .other "unexpected end of file"
  | .userError words => .other words

/-- Makes a call. -/
def attempt {α : Type} (call : IO α) : IO (Except OsError α) := do
  try return .ok (← call)
  catch e => return .error (refusal e)

/-- Makes a call on a path, unless the system has no such paths. -/
def onPath {α : Type} (p : Path) (call : String → IO α) : IO (Except OsError α) :=
  if p.text = "" then pure (.error .notFound)
  else if p.text.contains '\x00' then pure (.error .nulInName)
  else attempt (call p.text)

/-- The text of a file. -/
def readText (p : Path) : IO (Except OsError String) := do
  match ← onPath p fun name => IO.FS.readBinFile name with
  | .error e => return .error e
  | .ok bytes => return (String.fromUTF8? bytes).elim (.error .notText) .ok

/-- The letters in the names of temporary files. -/
def nameLetters : List Char := "abcdefghijklmnopqrstuvwxyz0123456789".toList

/-- Some letters, at random. -/
def randomLetters : Nat → IO (List Char)
  | 0 => pure []
  | n + 1 => do
    let i ← IO.rand 0 (nameLetters.length - 1)
    return nameLetters.getD i 'a' :: (← randomLetters n)

/-- Makes an empty file of a new name in a directory, with so many names to try. -/
def createTemporary (directory : Path) : Nat → IO (Except OsError Path)
  | 0 => pure (.error .alreadyExists)
  | n + 1 => do
    let file := directory.join ⟨".tmp" ++ String.ofList (← randomLetters 8)⟩
    match ← onPath file fun name => IO.FS.Handle.mk name .writeNew with
    | .ok _ => return .ok file
    | .error .alreadyExists => createTemporary directory n
    | .error e => return .error e

/-- Everybody reads the file, and its owner writes it. -/
def shared : IO.FileRight where
  user := { read := true, write := true }
  group := { read := true }
  other := { read := true }

/-! ## Clock -/

/-- The local time. -/
def localTime : IO Text.Timestamp := do
  let t ← Std.Time.PlainDateTime.now
  return {
    year := t.date.year.toInt
    month := t.date.month.val.toNat
    day := t.date.day.val.toNat
    hour := t.time.hour.val.toNat
    minute := t.time.minute.val.toNat
    second := t.time.second.val.toNat }

/-! ## Commands -/

/-- What a command runs in: the system, with the settings of the log. -/
abbrev Program := ReaderT Log.Settings IO

/-- Puts an entry into the log, unless its level is too low. -/
def printEntry (e : Log.Entry) : Program Unit := do
  let settings ← read
  if e.level.passes settings.level then IO.eprintln (e.printed settings.format)

instance : Host Program where
  workingDirectory := attempt do return ⟨(← IO.currentDir).toString⟩
  isThere p := do
    match ← onPath p fun name => do return ← ((← IO.currentDir) / name).pathExists with
    | .ok answer => return answer
    | .error _ => return false
  isDirectory p := do
    match ← onPath p fun name => do return ← ((← IO.currentDir) / name).isDir with
    | .ok answer => return answer
    | .error _ => return false
  list p := onPath p fun name => do
    return (← ((← IO.currentDir) / name).readDir).toList.map (·.fileName)
  readText p := readText p
  writeText p text := onPath p fun name => IO.FS.writeFile name text
  makeDirectory p := onPath p fun name => IO.FS.createDir name
  createTemporary p := createTemporary p 100
  writeTemporary p text := onPath p fun name => IO.FS.writeFile name text
  flushTemporary _ := pure (.ok ())
  shareTemporary p := onPath p fun name => IO.setAccessRights name shared
  persist p target := do
    match ← onPath target pure with
    | .error e => return .error e
    | .ok there => onPath p fun name => IO.FS.rename name there
  discard p := do
    let _ ← onPath p fun name => IO.FS.removeFile name
  now := localTime
  clock := IO.monoNanosNow
  log := printEntry
  print text := IO.println text

/-- How the program is called. -/
def usage : String := "\n".intercalate [
  "Usage: sdkport [--verbose] <COMMAND>",
  "",
  "Commands:",
  "  convert      Convert every class of the SDK into a C# file",
  "               [--config FILE] [--sdk-root DIR] [--output DIR] [--jobs N] [--dry-run] [--json]",
  "  inspect      Reflect the SDK classes and print what would be generated",
  "               [--config FILE] [--sdk-root DIR] [--kind object|fields|values]",
  "  init-config  Write a starter configuration file (never overwrites)",
  "               [--path FILE]"]

/-- The settings of the log that the environment gives. -/
def logSettings : IO Log.Settings := do
  let names := ["SDKPORT_LOG_LEVEL", "SDKPORT_LOG_FORMAT", "SDKPORT_LOG_TARGET_FILTER",
    "SDKPORT_LOG_INCLUDE_LOCATION"]
  let values ← names.mapM fun name => do return (name, ← IO.getEnv name)
  return .ofEnvironment fun name => (values.lookup name).join

end PhpSharp

open PhpSharp in
/-- Runs the program. -/
def main (arguments : List String) : IO UInt32 := do
  match Command.Invocation.parse arguments with
  | .error .displayHelp => do
    IO.println usage
    return 0
  | .error e => do
    IO.eprintln s!"error: {e.label}\n\n{usage}"
    return 2
  | .ok invocation => do
    let settings := (← logSettings).verbose invocation.options.verbose
    match ← (Command.execute invocation : Program (Except Command.Fault Unit)) settings with
    | .ok () => return 0
    | .error fault => do
      IO.eprintln s!"Error: {fault.message}"
      return 1
