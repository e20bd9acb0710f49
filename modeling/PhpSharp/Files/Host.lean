/-
  What a program asks of the system it runs on: files, a clock, a log and a place to print.

  The calls are the smallest ones that the system offers; what is made of them
  (`createDirectories`, `replaceFile`) is written here once, for every system.
-/
import PhpSharp.Files.OsError
import PhpSharp.Files.Path
import PhpSharp.Log.Entry
import PhpSharp.Text.Timestamp

namespace PhpSharp.Files

/-- A system that programs in `m` run on. -/
class Host (m : Type → Type) where
  /-- The directory that relative paths start from. -/
  workingDirectory : m (Except OsError Path)
  /-- Whether something is at a path. -/
  isThere : Path → m Bool
  /-- Whether a directory is at a path. -/
  isDirectory : Path → m Bool
  /-- The names in a directory, in an order of the system's. -/
  list : Path → m (Except OsError (List String))
  /-- The text of a file. -/
  readText : Path → m (Except OsError String)
  /-- Writes a file, a new one or in place of another. -/
  writeText : Path → String → m (Except OsError Unit)
  /-- Makes a directory in one that exists. -/
  makeDirectory : Path → m (Except OsError Unit)
  /-- Makes an empty file of a name that is not in use in a directory. -/
  createTemporary : Path → m (Except OsError Path)
  /-- Writes a file of that kind. -/
  writeTemporary : Path → String → m (Except OsError Unit)
  /-- Hands what was written over to the system. -/
  flushTemporary : Path → m (Except OsError Unit)
  /-- Lets everybody read the file. -/
  shareTemporary : Path → m (Except OsError Unit)
  /-- Moves the file to the second path, in place of a file that is there. -/
  persist : Path → Path → m (Except OsError Unit)
  /-- Removes the file. -/
  discard : Path → m Unit
  /-- The local time. -/
  now : m Text.Timestamp
  /-- The nanoseconds since some moment. -/
  clock : m Nat
  /-- Puts an entry into the log. -/
  log : Log.Entry → m Unit
  /-- Prints a text and ends the line. -/
  print : String → m Unit

variable {m : Type → Type} [Monad m] [Host m]

/-- A directory that could not be made, unless it is there all the same. -/
def unlessDirectory (p : Path) (e : OsError) : m (Except OsError Unit) := do
  if ← Host.isDirectory p then pure (.ok ()) else pure (.error e)

/-- Makes the first of the paths a directory; each path is in the next one. If that one is
    missing, it is made first. -/
def createAlong : List Path → m (Except OsError Unit)
  | [] => pure (.error .noBase)
  | p :: ps => do
    if p.text = "" then pure (.ok ())
    else match ← Host.makeDirectory p with
      | .ok () => pure (.ok ())
      | .error .notFound =>
        match ← createAlong ps with
        | .error e => pure (.error e)
        | .ok () =>
          match ← Host.makeDirectory p with
          | .ok () => pure (.ok ())
          | .error e => unlessDirectory p e
      | .error e => unlessDirectory p e

/-- Makes a path a directory, and those on the way to it. One that is there is kept. -/
def createDirectories (p : Path) : m (Except OsError Unit) := createAlong (p :: p.parents)

/-- Does the next step with a temporary file, which is removed if the step fails. -/
def orDiscard (temporary : Path) (step : m (Except OsError Unit))
    (next : m (Except OsError Unit)) : m (Except OsError Unit) := do
  match ← step with
  | .ok () => next
  | .error e => do
    Host.discard temporary
    pure (.error e)

/-- Puts a text into the file at `target`, in place of what is there, by way of a temporary file
    in `directory`. If that fails, the target is as before. -/
def replaceFile (directory target : Path) (text : String) : m (Except OsError Unit) := do
  match ← Host.createTemporary directory with
  | .error e => pure (.error e)
  | .ok temporary =>
    orDiscard temporary (Host.writeTemporary temporary text) <|
    orDiscard temporary (Host.flushTemporary temporary) <|
    orDiscard temporary (Host.shareTemporary temporary) <|
    orDiscard temporary (Host.persist temporary target) (pure (.ok ()))

end PhpSharp.Files
