/-
  What can go wrong with a class, or with a run as a whole.

  Only a missing input directory ends a run (`isFatal`); every other error belongs to one
  class and is told in the report.
-/
import PhpSharp.CSharp.Render
import PhpSharp.Files.OsError
import PhpSharp.Files.Path
import PhpSharp.Reflection.Reflect

namespace PhpSharp.Conversion

/-- An error of a conversion. -/
inductive Error
  /-- The input directory of a kind is missing or no directory. -/
  | directoryNotFound (kind : Sdk.Kind) (path : Path)
  /-- The facts of the class in a source file could not be read. -/
  | reflection (path : Path) (fault : Reflection.Fault)
  /-- No source could be generated for a class. -/
  | template (className : String) (fault : CSharp.Fault)
  /-- The generated source could not be written. -/
  | write (path : Path) (cause : Files.OsError)
  deriving DecidableEq, Repr

namespace Error

/-- The label of an error in reports. -/
def label : Error → String
  | .directoryNotFound .. => "DirectoryNotFound"
  | .reflection .. => "ReflectionError"
  | .template .. => "TemplateError"
  | .write .. => "WriteError"

/-- The error in words. -/
def message : Error → String
  | .directoryNotFound kind path =>
    kind.key ++ " input directory '" ++ path.text ++ "' not found or is not a valid directory"
  | .reflection path fault => "cannot reflect '" ++ path.text ++ "': " ++ fault.message
  | .template name fault => "cannot render class '" ++ name ++ "': " ++ fault.message
  | .write path cause => "cannot write '" ++ path.text ++ "': " ++ cause.message

/-- The error with its label. -/
def labelled (e : Error) : String := e.label ++ ": " ++ e.message

/-- Whether the error ends a run. -/
def isFatal : Error → Bool
  | .directoryNotFound .. => true
  | _ => false

end Error

end PhpSharp.Conversion
