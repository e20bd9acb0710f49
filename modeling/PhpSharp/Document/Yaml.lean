/-
  Reading YAML.

  The values of a text may mention each other, so that as a tree they can be very large or
  without an end. A document has them down to a depth: where more mentions than that stand
  inside each other, there is nothing.
-/
import PhpSharp.Document.Yaml.Layout
import PhpSharp.Document.Yaml.Node

namespace PhpSharp.Document.Yaml

/-! ## Values as documents -/

/-- A scalar as a document. It may be something else than text if it has no quotes, or if it is a
    block of lines with the tag of a number. -/
def scalarDocument (style : Style) (tag? : Option String) (text : String) : Document :=
  let isNumber := style = .literal && tag? = some "tag:yaml.org,2002:int" && text ≠ ""
  if style = .plain || isNumber then .plain text else .string text

/-- The text of a document. -/
def textOf? : Document → Option String
  | .string s | .plain s => some s
  | _ => none

namespace Node

mutual

/-- A value as a document, with documents for the values that it mentions. A mapping whose keys
    are not all texts is nothing. -/
def document (values : List (Nat × Document)) : Node → Document
  | .scalar style tag? text => scalarDocument style tag? text
  | .list items => .list (itemDocuments values items)
  | .table entries =>
    match entryDocuments values entries with
    | some es => .table es
    | none => .null
  | .named _ value => document values value
  | .mention n => (values.lookup n).getD .null

/-- The items of a list as documents. -/
def itemDocuments (values : List (Nat × Document)) : List Node → List Document
  | [] => []
  | d :: ds => document values d :: itemDocuments values ds

/-- The entries of a mapping, if their keys are texts. -/
def entryDocuments (values : List (Nat × Document)) :
    List (Node × Node) → Option (List (String × Document))
  | [] => some []
  | (name, value) :: es =>
    match textOf? (document values name), entryDocuments values es with
    | some name, some es => some ((name, document values value) :: es)
    | _, _ => none

end

mutual

/-- The values with numbers, in reverse of the order in which they start, and before them those
    that are known. -/
def collect (known : List (Nat × Node)) : Node → List (Nat × Node)
  | .scalar _ _ _ | .mention _ => known
  | .list items => collectItems known items
  | .table entries => collectEntries known entries
  | .named n value => collect ((n, value) :: known) value

/-- The values with numbers among items. -/
def collectItems (known : List (Nat × Node)) : List Node → List (Nat × Node)
  | [] => known
  | d :: ds => collectItems (collect known d) ds

/-- The values with numbers among entries. -/
def collectEntries (known : List (Nat × Node)) : List (Node × Node) → List (Nat × Node)
  | [] => known
  | (name, value) :: es => collectEntries (collect (collect known name) value) es

end

/-- The documents of values with numbers, with mentions down to a depth. -/
def values (nodes : List (Nat × Node)) : Nat → List (Nat × Document)
  | 0 => []
  | depth + 1 =>
    let inner := values nodes depth
    nodes.map fun (n, value) => (n, value.document inner)

end Node

/-! ## Texts -/

/-- Whether a text may have the character: a tab, the end of a line, or one that is printed. -/
def isTextChar (c : Char) : Bool :=
  c = '\t' || c = '\n' || c = '\r' || c = '\u0085' || (' ' ≤ c && c ≤ '~') ||
    ('\u00A0' ≤ c && c ≠ '\uFFFE' && c ≠ '\uFFFF')

/-- The document of a text, if it is one of YAML, with mentions down to a depth. A text without
    values is an empty scalar. -/
def parse? (depth : Nat) (text : String) : Option Document := do
  guard (text.toList.all isTextChar)
  let tokens ← tokens? text.toList
  let value ← Node.ofTokens? tokens
  some (value.document (Node.values (value.collect []) depth))

end PhpSharp.Document.Yaml
