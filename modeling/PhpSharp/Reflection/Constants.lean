/-
  The constants of a class. For an enumeration every constant needs a value and a name of
  its own (`enumerationConstants`); for an object, where they only serve other expressions,
  those without are left out (`knownConstants`).
-/
import PhpSharp.Php.Expression
import PhpSharp.Php.ClassFile.Basic

namespace PhpSharp.Reflection

/-- What is wrong with a constant of an enumeration. -/
inductive ConstantFault
  /-- Its value cannot be evaluated. -/
  | noValue (fault : Php.EvalFault)
  /-- Its name is taken. -/
  | declaredTwice
  deriving DecidableEq, Repr

/-- The constants after those already known; the first fault and its constant end it. -/
def declareAll (className : String) (known : Sdk.Constants) :
    List Php.ConstantDecl → Except (Php.ConstantDecl × ConstantFault) Sdk.Constants
  | [] => .ok known
  | d :: ds =>
    match Php.Scope.evaluate ⟨className, known⟩ d.value with
    | .error fault => .error (d, .noValue fault)
    | .ok value =>
      match known.insert? d.name value with
      | none => .error (d, .declaredTwice)
      | some known => declareAll className known ds

/-- The constants of an enumeration. -/
def enumerationConstants (c : Php.ClassDecl) :
    Except (Php.ConstantDecl × ConstantFault) Sdk.Constants :=
  declareAll c.name .empty c.constants

/-- The constants that have a value, each name at its first such declaration, after those
    already known; and the names that came again. -/
def declareEach (className : String) (known : Sdk.Constants) :
    List Php.ConstantDecl → Sdk.Constants × List String
  | [] => (known, [])
  | d :: ds =>
    match Php.Scope.evaluate ⟨className, known⟩ d.value with
    | .error _ => declareEach className known ds
    | .ok value =>
      match known.insert? d.name value with
      | none =>
        let (all, repeated) := declareEach className known ds
        (all, d.name :: repeated)
      | some known => declareEach className known ds

/-- The constants of an object that have a value. -/
def knownConstants (c : Php.ClassDecl) : Sdk.Constants := (declareEach c.name .empty c.constants).1

/-- The names that an object declares again. -/
def redeclared (c : Php.ClassDecl) : List String := (declareEach c.name .empty c.constants).2

end PhpSharp.Reflection
