/-
  What may stand before a value of YAML (names and tags) and before a document (directives).

  A tag is kept as octets, one character for each: those that are written with `%` stand for
  themselves, and one that is zero ends the tag.
-/
import PhpSharp.Document.Yaml.Place
import PhpSharp.Document.Yaml.Token
import PhpSharp.Php.StringLiteral

namespace PhpSharp.Document.Yaml

/-! ## Names -/

/-- The name behind `&` or `*`. A blank or one of some marks has to follow it. -/
def name? (p : Place) : Option (String × Place) :=
  let cs := p.rest.takeWhile isNameChar
  let last := p.skip cs.length
  let ends := endsWord last.rest || last.rest.head?.any "?:,]\x7d%@\x60".toList.contains
  if cs ≠ [] && ends then some (String.ofList cs, last) else none

/-! ## Tags -/

/-- The characters of a tag. Some more may stand between `<` and `>` and in directives. -/
def isTagChar (isVerbatim : Bool) (c : Char) : Bool :=
  isNameChar c || ";/?:@&=+$.%!~*'()".toList.contains c ||
    (isVerbatim && (c = ',' || c = '[' || c = ']'))

/-- How many octets a character takes whose first octet this is. -/
def octetCount (n : Nat) : Option Nat :=
  if n < 0x80 then some 1
  else if n < 0xC0 then none
  else if n < 0xE0 then some 2
  else if n < 0xF0 then some 3
  else if n < 0xF8 then some 4
  else none

/-- The octets of a tag. `more` of those that are written with `%` have to follow. -/
def octets (more : Nat) : List Char → Option (List Char)
  | [] => if more = 0 then some [] else none
  | '%' :: a :: b :: cs =>
    if Php.isHexDigit a && Php.isHexDigit b then
      let n := Php.numberOf 16 [a, b]
      let rest? := match more with
        | 0 => (octetCount n).bind fun count => octets (count - 1) cs
        | more + 1 => if 0x80 ≤ n && n < 0xC0 then octets more cs else none
      rest?.map (Char.ofNat n :: ·)
    else none
  | c :: cs => if more = 0 && c ≠ '%' then (octets 0 cs).map (c :: ·) else none

/-- The characters of a tag from here. -/
def tagText? (isVerbatim mayBeEmpty : Bool) (p : Place) : Option (List Char × Place) :=
  let cs := p.rest.takeWhile (isTagChar isVerbatim)
  if cs = [] && !mayBeEmpty then none
  else (octets 0 cs).map fun s => (s.takeWhile (· ≠ '\x00'), p.skip cs.length)

/-- The start of a tag that may be a handle: `!`, or a name after it, or a name between two. -/
def tagHandle (p : Place) : List Char × Place :=
  let name := (p.rest.drop 1).takeWhile isNameChar
  let last := p.skip (name.length + 1)
  if last.rest.head? = some '!' then ('!' :: name ++ ['!'], last.skip 1) else ('!' :: name, last)

/-- The tag that starts here, in one of its forms: `!<tag>`, `!name!suffix` and `!suffix`. -/
def tag? (isFlow : Bool) (p : Place) : Option (Token × Place) := do
  let (name, suffix, last) ←
    if p.rest.take 2 = ['!', '<'] then do
      let (s, last) ← tagText? true false (p.skip 2)
      if last.rest.head? = some '>' then some ([], s, last.skip 1) else none
    else do
      let (handle, last) := tagHandle p
      if handle.length > 1 && handle.getLast? = some '!' then do
        let (s, last) ← tagText? false false last
        some (handle, s, last)
      else do
        let (s, last) ← tagText? false true last
        match handle.drop 1 ++ s with
        | [] => some ([], ['!'], last)
        | suffix => some (['!'], suffix, last)
  if endsWord last.rest || (isFlow && last.rest.head? = some ',') then
    some (.tag (String.ofList name) (String.ofList suffix), last)
  else none

/-! ## Directives -/

/-- One of the two numbers of a version, of at most nine digits. -/
def versionNumber? (p : Place) : Option (Nat × Place) :=
  let ds := p.rest.takeWhile Char.isDigit
  if ds ≠ [] && ds.length ≤ 9 then some (Php.numberOf 10 ds, p.skip ds.length) else none

/-- A version. -/
def version? (p : Place) : Option (Token × Place) := do
  let (major, p) ← versionNumber? p
  if p.rest.head? = some '.' then do
    let (minor, p) ← versionNumber? (p.skip 1)
    some (.version major minor, p)
  else none

/-- A handle and its meaning. -/
def handle? (p : Place) : Option (Token × Place) :=
  if p.rest.head? = some '!' then
    let (handle, last) := tagHandle p
    if handle.getLast? = some '!' && last.rest.head?.any isBlank then do
      let (s, last) ← tagText? true false (last.skipWhile isBlank)
      if endsWord last.rest then some (.handle (String.ofList handle) (String.ofList s), last)
      else none
    else none
  else none

/-- The directive whose `%` is here, and the start of the next line. -/
def directive? (p : Place) : Option (Token × Place) := do
  let name := (p.rest.drop 1).takeWhile isNameChar
  let last := p.skip (name.length + 1)
  let (t, last) ←
    if !endsWord last.rest then none
    else if name = "YAML".toList then version? (last.skipWhile isBlank)
    else if name = "TAG".toList then handle? (last.skipWhile isBlank)
    else none
  some (t, ← last.endLine?)

end PhpSharp.Document.Yaml
