/-
  Documents as JSON, on one line (`compact`) or indented by two spaces (`pretty`).
-/
import PhpSharp.Document.Basic
import PhpSharp.Decimal.Shortest

namespace PhpSharp.Document

/-! ## Numbers -/

/-- A double as a JSON number: with a point from `0.00001` on and below `10 ^ 16`, and with an
    exponent outside that range. -/
def realText : Decimal.Double → String
  | .infinite => "null"
  | .finite m q =>
    let d := Decimal.shortest m q
    let ds := Decimal.digitChars d.digits
    let point : Int := ds.length + d.exponent
    if m = 0 then "0.0"
    else if 0 ≤ d.exponent && point ≤ 16 then Decimal.positional d ++ ".0"
    else if -5 < point && point ≤ 16 then Decimal.positional d
    else
      let fraction := ds.drop 1
      String.ofList (ds.take 1 ++ (if fraction = [] then [] else '.' :: fraction)) ++
        "e" ++ toString (point - 1)

/-- A double as a document. -/
def ofDouble (x : Decimal.Double) : Document := .real (realText x)

/-! ## Strings -/

/-- How a character is written in a JSON string. -/
def jsonChar (c : Char) : List Char :=
  if c = '"' then ['\\', '"']
  else if c = '\\' then ['\\', '\\']
  else if c = '\x08' then ['\\', 'b']
  else if c = '\x0c' then ['\\', 'f']
  else if c = '\n' then ['\\', 'n']
  else if c = '\r' then ['\\', 'r']
  else if c = '\t' then ['\\', 't']
  else if c.toNat < 0x20 then
    ['\\', 'u', '0', '0', Nat.digitChar (c.toNat / 16), Nat.digitChar (c.toNat % 16)]
  else [c]

/-- A JSON string. -/
def jsonString (s : String) : String :=
  "\"" ++ String.ofList (s.toList.flatMap jsonChar) ++ "\""

/-! ## Values -/

/-- The end of a line and the indentation of the next one, at a depth; nothing without one. -/
def newLine : Option Nat → String
  | none => ""
  | some depth => "\n" ++ String.ofList (List.replicate (2 * depth) ' ')

/-- What stands between a name and its value. -/
def colon : Option Nat → String
  | none => ":"
  | some _ => ": "

/-- One level deeper. -/
def deeper (depth? : Option Nat) : Option Nat := depth?.map (· + 1)

mutual

/-- Writes a document behind a text: on one line, or over several lines at a depth. -/
def writeJson (depth? : Option Nat) (out : String) : Document → String
  | .null => out ++ "null"
  | .bool b => out ++ if b then "true" else "false"
  | .integer n => out ++ toString n
  | .real text => out ++ text
  | .string s | .plain s => out ++ jsonString s
  | .list [] => out ++ "[]"
  | .list items => writeItems (deeper depth?) (out ++ "[") items ++ newLine depth? ++ "]"
  | .table [] => out ++ "\x7b\x7d"
  | .table entries =>
    writeEntries (deeper depth?) (out ++ "\x7b") entries ++ newLine depth? ++ "\x7d"

/-- Writes the items of a list. -/
def writeItems (depth? : Option Nat) (out : String) : List Document → String
  | [] => out
  | [d] => d.writeJson depth? (out ++ newLine depth?)
  | d :: ds => writeItems depth? (d.writeJson depth? (out ++ newLine depth?) ++ ",") ds

/-- Writes the entries of a table. -/
def writeEntries (depth? : Option Nat) (out : String) : List (String × Document) → String
  | [] => out
  | [(name, d)] =>
    d.writeJson depth? (out ++ newLine depth? ++ jsonString name ++ colon depth?)
  | (name, d) :: es =>
    writeEntries depth?
      (d.writeJson depth? (out ++ newLine depth? ++ jsonString name ++ colon depth?) ++ ",") es

end

/-- A document on one line. -/
def compact (d : Document) : String := d.writeJson none ""

/-- A document over several lines. -/
def pretty (d : Document) : String := d.writeJson (some 0) ""

end PhpSharp.Document
