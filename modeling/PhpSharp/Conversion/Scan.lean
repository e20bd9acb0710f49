/-
  The classes in an input directory.

  `classify` sorts the entries of a directory into four kinds by their names alone; `scan`
  makes a descriptor of every entry that stands for a class, in the order of the listing.
-/
import PhpSharp.Conversion.Error
import PhpSharp.Settings.Basic
import PhpSharp.Files.Host

namespace PhpSharp.Conversion

open Files (Host)

/-- What an entry of an input directory is. -/
inductive Candidate
  /-- A directory, which is not looked into. -/
  | directory
  /-- A file on the list of those that are no classes. -/
  | denied
  /-- A file whose name is no class name. -/
  | skipped
  /-- A file that stands for a class. -/
  | described
  deriving DecidableEq, Repr

/-- What the entry of a name is. -/
def classify (denylist : List String) (name : String) (isDirectory : Bool) : Candidate :=
  if isDirectory then .directory
  else if denylist.contains name then .denied
  else if Sdk.isClassName (Sdk.shortName name) then .described
  else .skipped

/-- What is looked for in an input directory. -/
structure Target where
  kind : Sdk.Kind
  root : Path
  /-- The namespace of the generated classes. -/
  nameSpace : String
  /-- The namespace of the source classes. -/
  sourceNamespace : String
  deriving DecidableEq, Repr

/-- The descriptor of the class that a file stands for. -/
def Target.descriptor (t : Target) (name : String) : Sdk.Descriptor where
  kind := t.kind
  shortName := Sdk.shortName name
  nameSpace := t.nameSpace
  qualifiedName := Sdk.qualify t.sourceNamespace (Sdk.shortName name)
  sourceFile := t.root.entry name

/-- What was found. -/
structure Scan where
  descriptors : List Sdk.Descriptor := []
  /-- The files whose names are no class names. -/
  skipped : List Path := []
  deriving DecidableEq, Repr

/-- What is found among entries, each with whether it is a directory. -/
def Target.select (t : Target) (denylist : List String) (entries : List (String × Bool)) :
    Scan where
  descriptors := (entries.filter fun (name, isDirectory) =>
    classify denylist name isDirectory = .described).map fun (name, _) => t.descriptor name
  skipped := (entries.filter fun (name, isDirectory) =>
    classify denylist name isDirectory = .skipped).map fun (name, _) => t.root.entry name

/-- The log entry for a file whose name is no class name. -/
def skippedEntry (root : Path) (name : String) : Log.Entry :=
  ⟨.warn, "Skipping file whose name is not a valid class name",
    [("file", (root.entry name).text), ("class", Sdk.shortName name)]⟩

variable {m : Type → Type} [Monad m] [Host m]

/-- The names in a directory, each with whether it is that of a directory. -/
def markDirectories (root : Path) (names : List String) : m (List (String × Bool)) :=
  names.mapM fun name => do pure (name, ← Host.isDirectory (root.entry name))

/-- The classes in an input directory. -/
def scan (t : Target) (denylist : List String) : m (Except Error Scan) := do
  if ← Host.isDirectory t.root then
    match ← Host.list t.root with
    | .error _ => pure (.error (.directoryNotFound t.kind t.root))
    | .ok names => do
      let entries ← markDirectories t.root names
      (entries.filter fun (name, isDirectory) =>
        classify denylist name isDirectory = .skipped).forM fun (name, _) =>
          Host.log (skippedEntry t.root name)
      pure (.ok (t.select denylist entries))
  else pure (.error (.directoryNotFound t.kind t.root))

/-- What is looked for in the input directory of a kind. -/
def target (s : Settings) (k : Sdk.Kind) : Target :=
  ⟨k, s.inputDirectory k, s.namespaces.get k, s.sourceNamespaces.get k⟩

/-- The classes in the input directories of some kinds, one kind after the other. -/
def scanAll (s : Settings) : List Sdk.Kind → m (Except Error Scan)
  | [] => pure (.ok {})
  | k :: ks => do
    match ← scan (target s k) s.denylist with
    | .error e => pure (.error e)
    | .ok found =>
      match ← scanAll s ks with
      | .error e => pure (.error e)
      | .ok rest =>
        pure (.ok ⟨found.descriptors ++ rest.descriptors, found.skipped ++ rest.skipped⟩)

/-- The classes in all input directories. -/
def discover (s : Settings) : m (Except Error Scan) := scanAll s Sdk.Kind.all

end PhpSharp.Conversion
