/-
  Reading the facts of a descriptor from the source of its class.

  `reflect` is a function of that source and, for objects, of the sources of the classes
  that `neededClasses` names; nothing else is read.
-/
import PhpSharp.Reflection.Connection
import PhpSharp.Sdk.Identifier

namespace PhpSharp.Reflection

/-- Why the facts of a class could not be read. -/
inductive Fault
  /-- The source file could not be read, for the reason in words. -/
  | unreadable (reason : String)
  /-- The source is not well formed. -/
  | malformed (error : Php.SyntaxError)
  /-- The source does not declare the class. -/
  | noClass (name : String)
  /-- A constant of an enumeration is at fault. -/
  | constant (name : String) (line : Nat) (fault : ConstantFault)
  /-- A reason in words. -/
  | stated (reason : String)
  deriving DecidableEq, Repr

/-- The fault in words. -/
def Fault.message : Fault → String
  | .unreadable reason => "cannot read file: " ++ reason
  | .malformed error => "syntax error at " ++ error.message
  | .noClass name => "no class \x60" ++ name ++ "\x60 in file"
  | .constant name line fault => s!"constant {name} (line {line})" ++ match fault with
    | .noValue fault => ": " ++ fault.message
    | .declaredTwice => " is declared twice"
  | .stated reason => reason

/-- The entry for a source in another namespace than the expected one. An empty expectation
    is met by all. -/
def namespaceEntries (expected : String) (d : Sdk.Descriptor) (file : Php.ClassFile) :
    List Log.Entry :=
  let expected := Sdk.bareNamespace expected
  let found := Sdk.bareNamespace (file.nameSpace?.getD "")
  if expected = "" || Text.sameLetters expected found then []
  else [⟨.warn, "Source namespace does not match the configured namespace",
    [("file", d.sourceFile.text), ("expected", expected), ("found", found)]⟩]

/-- The facts of a class of the given kind, and the entries for the log. -/
def classFacts (sources : String → Option String) (c : Php.ClassDecl) :
    Sdk.Kind → Except Fault Sdk.Facts × List Log.Entry
  | .object =>
    let (facts, entries) := objectFacts sources c
    (.ok facts, entries)
  | .fields | .values =>
    match enumerationConstants c with
    | .ok constants => (.ok (.enumeration constants), [])
    | .error (d, fault) => (.error (.constant d.name d.line fault), [])

/-- The facts of a descriptor from the source of its class, and the entries for the log. The
    namespace of each kind is `expected`; `sources` gives the sources of other objects. -/
def reflect (expected : Sdk.PerKind String) (sources : String → Option String)
    (d : Sdk.Descriptor) (source : String) : Except Fault Sdk.Facts × List Log.Entry :=
  match Php.ClassFile.ofSource source with
  | .error e => (.error (.malformed e), [])
  | .ok file =>
    let warnings := namespaceEntries (expected.get d.kind) d file
    match file.class? d.shortName with
    | none => (.error (.noClass d.shortName), warnings)
    | some c =>
      match classFacts sources c d.kind with
      | (.error fault, entries) => (.error fault, warnings ++ entries)
      | (.ok facts, entries) => (.ok facts, warnings ++ entries ++
        [⟨.debug, "Reflected class", [("class", d.shortName), ("kind", d.kind.key)]⟩])

/-- The other classes whose sources `reflect` asks for. -/
def neededClasses (d : Sdk.Descriptor) (source : String) : List String :=
  match d.kind with
  | .object => ((findClass? (some source) d.shortName).map otherClasses).getD []
  | .fields | .values => []

end PhpSharp.Reflection
