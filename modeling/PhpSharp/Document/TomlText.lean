/-
  Documents as TOML: the plain values of a table first, then its tables, each under its name
  in square brackets. A list of two items or more has a line for each of them.

  What has no form in TOML is left out: null, and tables inside lists.
-/
import PhpSharp.Document.Json

namespace PhpSharp.Document

/-- How a character is written in a TOML string between double quotes. -/
def tomlChar (c : Char) : List Char :=
  if c.toNat = 0x7F then "\\u007F".toList else jsonChar c

/-- A TOML string: between apostrophes if it has a double quote or a backslash and can be,
    between double quotes otherwise. -/
def tomlString (s : String) : String :=
  let cs := s.toList
  let needsEscape := cs.any fun c => c == '"' || c == '\\'
  let allowsLiteral := cs.all fun c => c != '\'' && (c == '\t' || 0x20 ≤ c.toNat) && c.toNat != 0x7F
  if needsEscape && allowsLiteral then "'" ++ s ++ "'"
  else "\"" ++ String.ofList (cs.flatMap tomlChar) ++ "\""

/-- A value that is no table. -/
def tomlScalar : Document → String
  | .bool b => if b then "true" else "false"
  | .integer n => toString n
  | .real text => text
  | .string s | .plain s => tomlString s
  | .null | .list _ | .table _ => ""

/-- A value behind its name. -/
def tomlValue : Document → String
  | .list [] => "[]"
  | .list [item] => "[" ++ tomlScalar item ++ "]"
  | .list items =>
    "[\n" ++ String.join (items.map fun d => "    " ++ tomlScalar d ++ ",\n") ++ "]"
  | d => tomlScalar d

/-- The lines of the entries of a table that are no tables. -/
def tomlEntries (entries : List (String × Document)) : String :=
  String.join (entries.map fun (name, d) =>
    match d with
    | .table _ => ""
    | d => name ++ " = " ++ tomlValue d ++ "\n")

/-- A table of values and of tables of values. -/
def toml : Document → String
  | .table entries =>
    tomlEntries entries ++ String.join (entries.map fun (name, d) =>
      match d with
      | .table inner => "\n[" ++ name ++ "]\n" ++ tomlEntries inner
      | _ => "")
  | _ => ""

end PhpSharp.Document
