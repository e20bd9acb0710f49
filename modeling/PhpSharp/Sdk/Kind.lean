/-
  The three kinds of class an SDK consists of, and tables with one value per kind.
-/
import PhpSharp.Text.Letters

namespace PhpSharp.Sdk

/-- What a class is for. It decides what is read from the class, what is generated for it
    and where that goes. -/
inductive Kind
  /-- An API object with an endpoint and connection methods -/
  | object
  /-- A class of constants that name the fields of an object -/
  | fields
  /-- A class of constants that list allowed values -/
  | values
  deriving DecidableEq, Repr

namespace Kind

/-- All kinds, in the order of a run. -/
def all : List Kind := [.object, .fields, .values]

/-- The word for the kind in settings and log fields. -/
def key : Kind → String
  | .object => "object"
  | .fields => "fields"
  | .values => "values"

/-- The kind of a word, in any letter case. -/
def ofKey? (key : String) : Option Kind := all.find? fun k => Text.sameLetters key k.key

/-- The word for the kind in summaries. -/
def label : Kind → String
  | .object => "object"
  | .fields => "field_enumeration"
  | .values => "value_enumeration"

/-- Whether classes of the kind are read for their constants. -/
def isEnumeration : Kind → Bool
  | .object => false
  | .fields | .values => true

theorem mem_all (k : Kind) : k ∈ all := by cases k <;> decide

end Kind

/-- One value per kind. -/
structure PerKind (α : Type) where
  object : α
  fields : α
  values : α
  deriving DecidableEq, Repr

namespace PerKind

variable {α β : Type}

/-- The value for a kind. -/
def get (p : PerKind α) : Kind → α
  | .object => p.object
  | .fields => p.fields
  | .values => p.values

/-- The table of a function. -/
def ofFn (f : Kind → α) : PerKind α := ⟨f .object, f .fields, f .values⟩

/-- The table with every value changed. -/
def map (f : α → β) (p : PerKind α) : PerKind β := ⟨f p.object, f p.fields, f p.values⟩

@[simp] theorem get_ofFn (f : Kind → α) (k : Kind) : (ofFn f).get k = f k := by cases k <;> rfl

end PerKind

end PhpSharp.Sdk
