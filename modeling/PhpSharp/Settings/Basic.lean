/-
  The settings of a conversion: where classes come from, where generated files go, and what
  these look like.
-/
import PhpSharp.CSharp.Render
import PhpSharp.Files.Path
import PhpSharp.Sdk.Identifier

namespace PhpSharp

open Sdk (Kind PerKind)

/-- The settings of a conversion. -/
structure Settings where
  /-- The directory that the input directories are relative to. -/
  sdkRoot : Path
  /-- The directory that the output directories are relative to. -/
  outputRoot : Path
  inputs : PerKind Path
  outputs : PerKind Path
  /-- The namespaces of the generated classes. -/
  namespaces : PerKind String
  /-- The namespaces of the source classes. -/
  sourceNamespaces : PerKind String
  /-- The names of files that are no classes. -/
  denylist : List String
  /-- The extension of generated files. -/
  extension : String
  /-- The number of workers. -/
  jobs : Nat
  /-- What the generated files have in common. -/
  profile : CSharp.Profile
  deriving DecidableEq, Repr

namespace Settings

/-- The directory with the classes of a kind. -/
def inputDirectory (s : Settings) (k : Kind) : Path := s.sdkRoot.join (s.inputs.get k)

/-- The directory for the generated files of a kind. -/
def outputDirectory (s : Settings) (k : Kind) : Path := s.outputRoot.join (s.outputs.get k)

/-- A path seen from a directory, unless it is absolute. -/
def rebasePath (base p : Path) : Path := if p.isAbsolute then p else base.join p

/-- The settings with relative roots seen from a directory. -/
def rebase (s : Settings) (base : Path) : Settings :=
  { s with sdkRoot := rebasePath base s.sdkRoot, outputRoot := rebasePath base s.outputRoot }

/-! ## Defaults -/

/-- The text of the licence that generated files carry unless told otherwise. -/
def defaultLicense : List String :=
  ["Permission is hereby granted, free of charge, to any person obtaining a copy",
    "of this software and associated documentation files (the \"Software\"), to deal",
    "in the Software without restriction, including without limitation the rights",
    "to use, copy, modify, merge, publish, distribute, sublicense, and/or sell",
    "copies of the Software, and to permit persons to whom the Software is",
    "furnished to do so, subject to the following conditions:",
    "",
    "The above copyright notice and this permission notice shall be included in all",
    "copies or substantial portions of the Software.",
    "",
    "THE SOFTWARE IS PROVIDED \"AS IS\", WITHOUT WARRANTY OF ANY KIND, EXPRESS OR",
    "IMPLIED, INCLUDING BUT NOT LIMITED TO THE WARRANTIES OF MERCHANTABILITY,",
    "FITNESS FOR A PARTICULAR PURPOSE AND NONINFRINGEMENT. IN NO EVENT SHALL THE",
    "AUTHORS OR COPYRIGHT HOLDERS BE LIABLE FOR ANY CLAIM, DAMAGES OR OTHER",
    "LIABILITY, WHETHER IN AN ACTION OF CONTRACT, TORT OR OTHERWISE, ARISING FROM,",
    "OUT OF OR IN CONNECTION WITH THE SOFTWARE OR THE USE OR OTHER DEALINGS IN THE",
    "SOFTWARE."]

/-- The header of generated files unless told otherwise. -/
def defaultHeader : CSharp.Header where
  usings := ["System.Collections.Generic", "Facebook", "FacebookAds.Interfaces"]
  copyright := ["The MIT License (MIT)", "",
    "Copyright (c) Luke Paris (Paradoxis) | Searchresult Performancemarketing"]
  license := defaultLicense

/-- The settings for an SDK where its installer puts it. -/
def defaults : Settings where
  sdkRoot := ⟨"vendor/facebook/php-business-sdk/src"⟩
  outputRoot := ⟨"."⟩
  inputs := ⟨⟨"FacebookAds/Object"⟩, ⟨"FacebookAds/Object/Fields"⟩, ⟨"FacebookAds/Object/Values"⟩⟩
  outputs := ⟨⟨"Output"⟩, ⟨"Output/Fields"⟩, ⟨"Output/Values"⟩⟩
  namespaces := ⟨"FacebookAds.Object", "FacebookAds.Object.Fields", "FacebookAds.Object.Values"⟩
  sourceNamespaces :=
    ⟨"\\FacebookAds\\Object\\", "\\FacebookAds\\Object\\Fields\\",
      "\\FacebookAds\\Object\\Values\\"⟩
  denylist := ["AbstractArchivableCrudObjectFields.php", "AbstractArchivableCrudObject.php",
    "AbstractAsyncJobObject.php", "AbstractCrudObject.php", "AbstractObject.php",
    "CanRedownloadInterface.php"]
  extension := "cs"
  jobs := 1
  profile := {
    objectBase := "AbstractCrudObject"
    enumerationBase := "AbstractCrudObjectFields"
    header := defaultHeader }

/-! ## Validity -/

/-- What is wrong with settings that are well formed. -/
inductive Fault
  /-- There are no workers. -/
  | noJobs
  /-- The extension of generated files leads to another directory. -/
  | separatorInExtension (extension : String)
  /-- The namespace of a kind is not made of names with points between them. -/
  | badNamespace (kind : Kind) (name : String)
  deriving DecidableEq, Repr

/-- The fault in words. -/
def Fault.message : Fault → String
  | .noJobs => "jobs must be at least 1"
  | .separatorInExtension e => "extension '" ++ e ++ "' must not contain a path separator"
  | .badNamespace kind name =>
    kind.key ++ " namespace '" ++ name ++ "' is not a valid C# namespace"

/-- Whether generated code can use the namespace. -/
def isNamespace (name : String) : Bool :=
  (name.toList.splitOn '.').all fun part => Sdk.isClassName (String.ofList part)

/-- The first thing that is wrong with the settings. -/
def fault? (s : Settings) : Option Fault :=
  if s.jobs = 0 then some .noJobs
  else if s.extension.toList.any fun c => c == '/' || c == '\\' then
    some (.separatorInExtension s.extension)
  else Kind.all.findSome? fun k =>
    if isNamespace (s.namespaces.get k) then none else some (.badNamespace k (s.namespaces.get k))

end Settings

end PhpSharp
