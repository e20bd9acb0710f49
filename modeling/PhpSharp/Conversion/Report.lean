/-
  What a run did: an outcome for every class, and the totals.

  A report is printed as lines (`Report.text`) or as a document (`Report.document`).
-/
import PhpSharp.Conversion.Error
import PhpSharp.Decimal.Fixed
import PhpSharp.Document.Json

namespace PhpSharp.Conversion

/-- How the conversion of a class ended. -/
inductive Status
  /-- Its file was written. -/
  | written (path : Path)
  /-- Its file would be written. -/
  | planned (path : Path)
  /-- It failed. -/
  | failed (error : Error)
  deriving DecidableEq, Repr

/-- The outcome of a class. -/
structure Outcome where
  /-- The place of the class among all that were found. -/
  index : Nat
  kind : Sdk.Kind
  shortName : String
  sourceFile : Path
  /-- The nanoseconds it took. -/
  duration : Nat
  /-- The nanoseconds its generation took; none if that was not reached or failed. -/
  renderDuration? : Option Nat
  status : Status
  deriving DecidableEq, Repr

namespace Outcome

/-- The error of a class that failed. -/
def error? (o : Outcome) : Option Error :=
  match o.status with
  | .failed e => some e
  | _ => none

/-- The file of a class that did not fail. -/
def output? (o : Outcome) : Option Path :=
  match o.status with
  | .written p | .planned p => some p
  | .failed _ => none

/-- Whether the class did not fail. -/
def isSuccess (o : Outcome) : Bool := o.error?.isNone

/-- The outcome as a line. -/
def line (o : Outcome) : String :=
  match o.status with
  | .written p => "File saved to: " ++ p.text
  | .planned p => "File would be saved to: " ++ p.text
  | .failed e => "Failed to convert " ++ o.sourceFile.text ++ ": " ++ e.labelled

end Outcome

/-- What a run did. -/
structure Report where
  /-- The number of classes that were found. -/
  discovered : Nat
  /-- The number of files whose names are no class names. -/
  skipped : Nat
  /-- The outcomes in the order in which the classes were found. -/
  outcomes : List Outcome
  startedAt : Text.Timestamp
  /-- The nanoseconds it took. -/
  elapsed : Nat
  deriving DecidableEq, Repr

/-! ## Time -/

/-- Nanoseconds as seconds: the whole seconds and the fraction, each rounded, and their sum. -/
def seconds (nanoseconds : Nat) : Decimal.Double :=
  (Decimal.Double.ofNat (nanoseconds / Decimal.tenTo 9)).add
    (.nearest (nanoseconds % Decimal.tenTo 9) (Decimal.tenTo 9))

/-- Nanoseconds as milliseconds. -/
def milliseconds (nanoseconds : Nat) : Decimal.Double := (seconds nanoseconds).scale 1000

/-! ## Reports -/

/-- The outcome as a document. -/
def Outcome.document (o : Outcome) : Document :=
  .table [("kind", .string o.kind.label), ("class", .string o.shortName),
    ("source", .string o.sourceFile.text),
    ("output", .ofOption (o.output?.map Path.text)),
    ("error", .ofOption (o.error?.map Error.labelled)),
    ("duration_ms", .ofDouble (milliseconds o.duration)),
    ("render_ms", match o.renderDuration? with
      | some n => .ofDouble (milliseconds n)
      | none => .null)]

namespace Report

/-- The number of classes that did not fail. -/
def succeeded (r : Report) : Nat := r.outcomes.countP Outcome.isSuccess

/-- The outcomes of the classes that failed. -/
def failures (r : Report) : List Outcome := r.outcomes.filter fun o => !o.isSuccess

/-- The number of classes that failed. -/
def failed (r : Report) : Nat := r.outcomes.length - r.succeeded

/-- The outcomes as lines. -/
def lines (r : Report) : List String := r.outcomes.map Outcome.line

/-- The last line, with the time it took in the given words. -/
def closingLine (r : Report) (time : String) : String :=
  s!"Converter finished in {time} seconds and generated {r.succeeded} classes ({r.failed} failed)"

/-- The last line. -/
def summaryLine (r : Report) : String := r.closingLine ((seconds r.elapsed).fixed 4)

/-- The report as text. -/
def text (r : Report) : String := Text.joinLines (r.lines ++ [r.summaryLine])

/-- The report as a document. -/
def document (r : Report) : Document :=
  .table [("discovered", .integer r.discovered), ("skipped", .integer r.skipped),
    ("succeeded", .integer r.succeeded), ("failed", .integer r.failed),
    ("started_at", .string r.startedAt.text), ("elapsed_seconds", .ofDouble (seconds r.elapsed)),
    ("files", .list (r.outcomes.map Outcome.document))]

end Report

end PhpSharp.Conversion
