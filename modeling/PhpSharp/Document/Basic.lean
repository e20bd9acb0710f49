/-
  Documents: trees of values, as settings files hold them and as reports are printed.
-/

namespace PhpSharp

/-- A tree of values. The entries of a table keep their order. -/
inductive Document
  | null
  | bool (b : Bool)
  | integer (n : Int)
  /-- A number with a fraction or an exponent, as it is written. -/
  | real (text : String)
  | string (s : String)
  /-- A scalar without quotes, which is text or something else as the reader expects. -/
  | plain (text : String)
  | list (items : List Document)
  | table (entries : List (String × Document))
  deriving Repr, Inhabited

namespace Document

/-- A text, or null. -/
def ofOption : Option String → Document
  | some s => .string s
  | none => .null

/-- A list of texts. -/
def ofTexts (texts : List String) : Document := .list (texts.map .string)

/-- The value of a name in a table. -/
def get? (name : String) : Document → Option Document
  | .table entries => entries.lookup name
  | _ => none

mutual

/-- Whether there is a null in a document. -/
def hasNull : Document → Bool
  | .null => true
  | .bool _ | .integer _ | .real _ | .string _ | .plain _ => false
  | .list items => anyItemNull items
  | .table entries => anyEntryNull entries

/-- Whether there is a null in one of the items. -/
def anyItemNull : List Document → Bool
  | [] => false
  | d :: ds => d.hasNull || anyItemNull ds

/-- Whether there is a null in one of the entries. -/
def anyEntryNull : List (String × Document) → Bool
  | [] => false
  | (_, d) :: es => d.hasNull || anyEntryNull es

end

end Document

end PhpSharp
