/-
  A run: every class that is found is read, generated and written.

  What happens to a class is its outcome and stays with it (`convert`, `process`). Only a
  missing input directory ends a run, and that is found before anything is written.
-/
import PhpSharp.Conversion.Output
import PhpSharp.Conversion.Pool
import PhpSharp.Conversion.Report
import PhpSharp.Conversion.Scan

namespace PhpSharp.Conversion

open Files (Host)

variable {m : Type → Type} [Monad m] [Host m]

/-! ## One class -/

/-- The sources of other classes, by name, as far as they can be read. -/
def readSources (root : Path) (names : List String) : m (List (String × Option String)) :=
  names.mapM fun name => do
    pure (name, (← Host.readText (root.entry (name ++ ".php"))).toOption)

/-- The facts of a class, from its source file and those of the objects that it refers to. -/
def reflect (s : Settings) (d : Sdk.Descriptor) : m (Except Error Sdk.Facts) := do
  match ← Host.readText d.sourceFile with
  | .error e => pure (.error (.reflection d.sourceFile (.unreadable e.message)))
  | .ok source => do
    let sources ← readSources (s.inputDirectory .object) (Reflection.neededClasses d source)
    let (result, entries) :=
      Reflection.reflect s.sourceNamespaces (fun name => (sources.lookup name).join) d source
    entries.forM Host.log
    match result with
    | .error fault => pure (.error (.reflection d.sourceFile fault))
    | .ok facts => pure (.ok facts)

/-- Writes the source generated for a class into its file. -/
def write (o : Output) (k : Sdk.Kind) (shortName text : String) : m (Except Error Path) := do
  let directory := o.directories.get k
  let target := o.path k shortName
  match ← Files.createDirectories directory with
  | .error e => pure (.error (.write directory e))
  | .ok () =>
    match ← Files.replaceFile directory target text with
    | .error e => pure (.error (.write target e))
    | .ok () => pure (.ok target)

/-- What to do with the classes that are found. -/
structure Plan where
  settings : Settings
  /-- Whether to write nothing. -/
  isDry : Bool
  /-- The date in the generated files. -/
  date : Text.Timestamp
  deriving DecidableEq, Repr

/-- Converts a class: how that ended, and the nanoseconds that its generation took, if it came
    to that. -/
def convert (p : Plan) (d : Sdk.Descriptor) : m (Status × Option Nat) := do
  match ← reflect p.settings d with
  | .error e => pure (.failed e, none)
  | .ok facts => do
    let started ← Host.clock
    match CSharp.render p.settings.profile { d with facts? := some facts } p.date with
    | .error fault => pure (.failed (.template d.shortName fault), none)
    | .ok text => do
      let took := (← Host.clock) - started
      let output := Output.ofSettings p.settings
      if p.isDry then pure (.planned (output.path d.kind d.shortName), some took)
      else match ← write output d.kind d.shortName text with
        | .error e => pure (.failed e, some took)
        | .ok path => pure (.written path, some took)

/-- The log entry for a class that failed. -/
def failedEntry (d : Sdk.Descriptor) (e : Error) : Log.Entry :=
  ⟨.warn, "Failed to convert class", [("file", d.sourceFile.text), ("kind", d.kind.key),
    ("error_kind", e.label), ("error", e.message)]⟩

/-- Converts the class at a place among all that were found. -/
def process (p : Plan) (index : Nat) (d : Sdk.Descriptor) : m Outcome := do
  let started ← Host.clock
  let (status, renderDuration?) ← convert p d
  match status with
  | .failed e => Host.log (failedEntry d e)
  | _ => pure ()
  let duration := (← Host.clock) - started
  pure { index, kind := d.kind, shortName := d.shortName, sourceFile := d.sourceFile, duration,
         renderDuration?, status }

/-! ## All classes -/

/-- Converts classes one after the other. -/
def processInOrder (p : Plan) (index : Nat) : List Sdk.Descriptor → m (List Outcome)
  | [] => pure []
  | d :: ds => do
    let outcome ← process p index d
    pure (outcome :: (← processInOrder p (index + 1) ds))

/-- Outcomes in the order in which their classes were found. -/
def inOrder (outcomes : List Outcome) : List Outcome :=
  outcomes.mergeSort fun a b => a.index ≤ b.index

/-- The number of workers for a number of classes: as many as the settings say, but at least
    one, and no more than there are classes. -/
def workerCount (s : Settings) (count : Nat) : Nat := max 1 (min s.jobs (max count 1))

/-- Converts classes, with more than one worker if the settings say so. -/
def processAll (p : Plan) (ds : List Sdk.Descriptor) : m (List Outcome) := do
  let workers := workerCount p.settings ds.length
  if workers = 1 then processInOrder p 0 ds
  else do
    let done ← (Pool.fresh workers).run ds (process p) (Pool.rounds ds.length workers)
    pure (inOrder done.results)

/-- Converts all classes. -/
def run (p : Plan) : m (Except Error Report) := do
  let started ← Host.clock
  match ← discover p.settings with
  | .error e => pure (.error e)
  | .ok found => do
    let outcomes ← processAll p found.descriptors
    pure (.ok {
      discovered := found.descriptors.length, skipped := found.skipped.length, outcomes,
      startedAt := p.date, elapsed := (← Host.clock) - started })

/-! ## Looking without converting -/

/-- A class with its facts, or the error that kept them from being read. -/
structure Inspection where
  descriptor : Sdk.Descriptor
  error? : Option Error
  deriving DecidableEq, Repr

/-- Reads the facts of a class. -/
def inspectOne (s : Settings) (d : Sdk.Descriptor) : m Inspection := do
  match ← reflect s d with
  | .error e => pure ⟨d, some e⟩
  | .ok facts => pure ⟨{ d with facts? := some facts }, none⟩

/-- Reads the facts of all classes. -/
def inspect (s : Settings) : m (Except Error (List Inspection)) := do
  match ← discover s with
  | .error e => pure (.error e)
  | .ok found => do pure (.ok (← found.descriptors.mapM (inspectOne s)))

end PhpSharp.Conversion
