/-
  A host that is a value: a disk, a working directory, a clock that stands still, and what was
  logged and printed.

  Every call that changes the disk may be refused (`refuses`), so that what a program does
  when the system fails it can be said of this host as well.
-/
import PhpSharp.Files.Disk
import PhpSharp.Files.Host

namespace PhpSharp.Files

/-- A call that changes the disk. -/
inductive Action
  | makeDirectory (p : Path)
  | writeText (p : Path)
  | createTemporary (directory : Path)
  | writeTemporary (p : Path)
  | flushTemporary (p : Path)
  | shareTemporary (p : Path)
  | persist (p target : Path)
  deriving DecidableEq, Repr

/-- A host as a value. -/
structure Machine where
  disk : Disk
  /-- The working directory. -/
  base : Location
  /-- The calls that the system refuses, whatever the disk says. -/
  refuses : Action → Option OsError := fun _ => none
  time : Text.Timestamp
  /-- What was logged, first to last. -/
  entries : List Log.Entry := []
  /-- What was printed, first to last. -/
  printed : List String := []

namespace Machine

/-- The path of a location from the root. -/
def pathOf (l : Location) : Path := ⟨"/" ++ String.ofList (['/'].intercalate (l.map String.toList))⟩

/-- The names of temporary files. -/
def temporaryName (n : Nat) : String := ".tmp" ++ String.ofList (List.replicate n '0')

/-- The first of these names that nothing in a directory has. -/
def freshName (d : Disk) (directory : Location) : String :=
  let taken := d.children directory
  let free? := (List.range (taken.length + 1)).find? fun n => !taken.contains (temporaryName n)
  temporaryName (free?.getD taken.length)

/-- A question about the disk. -/
def ask {α : Type} (f : Disk → Location → α) : StateM Machine α := do
  let s ← get
  pure (f s.disk s.base)

/-- A call that gives a disk and an answer, or is refused. -/
def call {α : Type} (action : Action) (f : Disk → Location → Except OsError (Disk × α)) :
    StateM Machine (Except OsError α) := do
  let s ← get
  match s.refuses action with
  | some e => pure (.error e)
  | none =>
    match f s.disk s.base with
    | .error e => pure (.error e)
    | .ok (disk, answer) => do
      set { s with disk }
      pure (.ok answer)

/-- A call that gives a disk, or is refused. -/
def change (action : Action) (f : Disk → Location → Except OsError Disk) :
    StateM Machine (Except OsError Unit) :=
  call action fun d base => (f d base).map (·, ())

/-- Makes an empty file of a fresh name in a directory. The path is checked with a name as long as
    a system makes them, whatever the fresh one is. -/
def createTemporary (d : Disk) (base : Location) (directory : Path) :
    Except OsError (Disk × Path) :=
  match d.locate base (((pathOf base).join directory).entry (temporaryName 6)) with
  | .error e => .error e
  | .ok l =>
    let file := l.dropLast ++ [freshName d l.dropLast]
    .ok (d.put file (.file (.text "")), pathOf file)

/-- Moves a file that was made so to another path. -/
def persist (d : Disk) (base : Location) (p target : Path) : Except OsError Disk :=
  match d.get? p.names with
  | some (.file content) => d.replace base p.names content target
  | _ => .error .notFound

/-- The disk without a file that was made so. -/
def discard (d : Disk) (p : Path) : Disk :=
  match d.get? p.names with
  | some (.file _) => d.erase p.names
  | _ => d

instance : Host (StateM Machine) where
  workingDirectory := ask fun _ base => .ok (pathOf base)
  isThere p := ask fun d base => (d.stat base p).toOption.isSome
  isDirectory p := ask fun d base => d.isDirectory base p
  list p := ask fun d base => d.list base p
  readText p := ask fun d base => d.readText base p
  writeText p text := change (.writeText p) fun d base => d.writeFile base p (.text text)
  makeDirectory p := change (.makeDirectory p) fun d base => d.makeDirectory base p
  createTemporary p := call (.createTemporary p) fun d base => createTemporary d base p
  writeTemporary p text := change (.writeTemporary p) fun d _ =>
    .ok (d.put p.names (.file (.text text)))
  flushTemporary p := change (.flushTemporary p) fun d _ => .ok d
  shareTemporary p := change (.shareTemporary p) fun d _ => .ok d
  persist p target := change (.persist p target) fun d base => persist d base p target
  discard p := modify fun s => { s with disk := discard s.disk p }
  now := do pure (← get).time
  clock := pure 0
  log e := modify fun s => { s with entries := s.entries ++ [e] }
  print text := modify fun s => { s with printed := s.printed ++ [text] }

end Machine

end PhpSharp.Files
