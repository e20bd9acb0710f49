/-
  Where generated files go.
-/
import PhpSharp.Settings.Basic

namespace PhpSharp.Conversion

/-- The directories for generated files, and their extension without points in front. -/
structure Output where
  directories : Sdk.PerKind Path
  extension : String
  deriving DecidableEq, Repr

namespace Output

/-- The output for an extension that may be written with points in front. -/
def of (directories : Sdk.PerKind Path) (extension : String) : Output :=
  ⟨directories, String.ofList (extension.toList.dropWhile (· = '.'))⟩

/-- The output of a conversion. -/
def ofSettings (s : Settings) : Output := of (.ofFn s.outputDirectory) s.extension

/-- The name of the file for a class. -/
def fileName (o : Output) (shortName : String) : String :=
  if o.extension = "" then shortName else shortName ++ "." ++ o.extension

/-- The path of the file for a class. -/
def path (o : Output) (k : Sdk.Kind) (shortName : String) : Path :=
  (o.directories.get k).entry (o.fileName shortName)

end Output

end PhpSharp.Conversion
