/-
  Descriptors: what is known of one class of the SDK. A scan fills in where the class
  comes from and what it will be called; reading its source adds the facts.
-/
import PhpSharp.Files.Path
import PhpSharp.Sdk.Kind
import PhpSharp.Sdk.Constants

namespace PhpSharp.Sdk

/-- How a connection is fetched. -/
inductive ConnectionKind
  /-- By a call that waits for the answer -/
  | synchronous
  /-- By a call that returns a task -/
  | asynchronous
  deriving DecidableEq, Repr

/-- The word for it in summaries. -/
def ConnectionKind.label : ConnectionKind → String
  | .synchronous => "Synchronous"
  | .asynchronous => "Asynchronous"

/-- A method of an object that fetches the objects on one of its edges. -/
structure Connection where
  /-- The name of the generated method. -/
  name : String
  /-- The edge; a method without one is not generated. -/
  endpoint? : Option String
  /-- One line of description, without its final stop. -/
  documentation : String
  kind : ConnectionKind
  deriving DecidableEq, Repr

/-- What a class declares. -/
inductive Facts
  /-- The endpoint of an object, if its source states one, and its connections. -/
  | object (endpoint? : Option String) (connections : List Connection)
  /-- The constants of an enumeration. -/
  | enumeration (constants : Constants)
  deriving DecidableEq, Repr

/-- One class of the SDK. -/
structure Descriptor where
  kind : Kind
  /-- The name of the class in the source and in the generated code. -/
  shortName : String
  /-- The namespace of the generated class. -/
  nameSpace : String
  /-- The full name of the source class: `\Sdk\Object\Campaign` -/
  qualifiedName : String
  /-- The path of the source file. -/
  sourceFile : Path
  /-- What the source declares; none before it is read. -/
  facts? : Option Facts := none
  deriving DecidableEq, Repr

namespace Descriptor

/-- The endpoint of an object. -/
def endpoint? (d : Descriptor) : Option String :=
  match d.facts? with
  | some (.object endpoint? _) => endpoint?
  | _ => none

/-- The connections of an object. -/
def connections (d : Descriptor) : List Connection :=
  match d.facts? with
  | some (.object _ connections) => connections
  | _ => []

/-- The constants of an enumeration. -/
def constants? (d : Descriptor) : Option Constants :=
  match d.facts? with
  | some (.enumeration constants) => some constants
  | _ => none

/-- The full name of the generated class. -/
def targetName (d : Descriptor) : String :=
  if d.nameSpace = "" then d.shortName else d.nameSpace ++ "." ++ d.shortName

end Descriptor

end PhpSharp.Sdk
