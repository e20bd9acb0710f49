/-
  The scalars of YAML: with quotes, without quotes, and as blocks of lines.

  Each reader starts at a place in the text and returns the text of the scalar and the place
  behind it. The readers of words keep what they have read so far last character first, with
  the gap behind it: the gap becomes text only when another word follows.
-/
import PhpSharp.Document.Yaml.Place
import PhpSharp.Php.StringLiteral

namespace PhpSharp.Document.Yaml

/-! ## With quotes -/

/-- The characters that have an escape of one letter. -/
def namedEscapes : List (Char × Char) :=
  [('0', '\x00'), ('a', '\x07'), ('b', '\x08'), ('t', '\t'), ('\t', '\t'), ('n', '\n'),
    ('v', '\x0b'), ('f', '\x0c'), ('r', '\r'), ('e', '\x1b'), (' ', ' '), ('"', '"'),
    ('/', '/'), ('\\', '\\'), ('N', '\u0085'), ('_', '\u00A0'), ('L', '\u2028'),
    ('P', '\u2029')]

/-- A character by its number in hexadecimal digits. -/
def numbered (digits : Nat) (cs : List Char) : Option (Char × Nat) :=
  let ds := cs.take digits
  if ds.length = digits && ds.all Php.isHexDigit && (Php.numberOf 16 ds).isValidChar then
    some (Char.ofNat (Php.numberOf 16 ds), digits + 1)
  else none

/-- The character of an escape after its backslash, and the length of what names it. -/
def escape : List Char → Option (Char × Nat)
  | [] => none
  | c :: cs =>
    match namedEscapes.lookup c with
    | some e => some (e, 1)
    | none =>
      if c = 'x' then numbered 2 cs
      else if c = 'u' then numbered 4 cs
      else if c = 'U' then numbered 8 cs
      else none

/-- A scalar between apostrophes (`isSingle`) or double quotes, after the first. Two apostrophes
    stand for one; a backslash between double quotes starts an escape, or takes away the end of
    its line. -/
def quoted (isSingle : Bool) (text : List Char) (gap : Gap) (p : Place) :
    Option (List Char × Place) :=
  if p.atDocumentMark then none
  else match _h : p.rest with
    | [] => none
    | c :: cs =>
      if isBlank c then quoted isSingle text (gap.addBlank c) (p.skip 1)
      else match _hl : p.nextLine? with
        | some (feed, next) => quoted isSingle text (gap.addBreak feed) next
        | none =>
          let text := gap.text ++ text
          if isSingle && c = '\'' then
            if cs.head? = some '\'' then quoted isSingle ('\'' :: text) .empty (p.skip 2)
            else some (text.reverse, p.skip 1)
          else if !isSingle && c = '"' then some (text.reverse, p.skip 1)
          else if !isSingle && c = '\\' then
            match _hj : (p.skip 1).nextLine? with
            | some (_, next) => quoted isSingle text .joined next
            | none =>
              match escape cs with
              | some (e, n) => quoted isSingle (e :: text) .empty (p.skip (n + 1))
              | none => none
          else quoted isSingle (c :: text) .empty (p.skip 1)
termination_by p.rest.length
decreasing_by
  · exact Place.skip_length_lt _h (by omega)
  · exact Place.nextLine?_length_lt _hl
  · exact Place.skip_length_lt _h (by omega)
  · exact Nat.lt_of_lt_of_le (Place.nextLine?_length_lt _hj) (Place.skip_length_le p 1)
  · exact Place.skip_length_lt _h (by omega)
  · exact Place.skip_length_lt _h (by omega)

/-! ## Without quotes -/

/-- Whether a scalar without quotes can start here. -/
def startsPlain (isFlow : Bool) : List Char → Bool
  | [] => false
  | c :: cs =>
    if c = '-' then !cs.head?.any isBlank
    else if c = '?' || c = ':' then !isFlow && !endsWord cs
    else !isBlank c && !isBreak c && !isFlowMark c && !"#&*!|>'\"%@\x60".toList.contains c

/-- Whether a colon is followed at once by a mark, so that it is neither text nor clearly the
    mark of a value. -/
def isUnclearMark : List Char → Bool
  | ':' :: c :: _ => isFlowMark c || c = '?'
  | _ => false

/-- Whether a scalar without quotes ends here, within a line. -/
def endsPlain (isFlow : Bool) : List Char → Bool
  | [] => true
  | c :: cs => (c = ':' && endsWord cs) || (isFlow && isFlowMark c)

/-- A scalar without quotes, and whether the place behind it is in a later line. It goes on in
    lines that are indented by `indent` or more, inside brackets in all lines; no tab may stand
    in that indentation. -/
def plain (isFlow : Bool) (indent : Nat) (text : List Char) (gap : Gap) (p : Place) :
    Option (List Char × Bool × Place) :=
  match _h : p.rest with
  | [] => some (text.reverse, gap.hasLine, p)
  | c :: cs =>
    if isBlank c then
      if gap.hasLine && c = '\t' && p.column < indent then none
      else plain isFlow indent text (gap.addBlank c) (p.skip 1)
    else match _hl : p.nextLine? with
      | some (feed, next) => plain isFlow indent text (gap.addBreak feed) next
      | none =>
        let ends := !gap.isEmpty &&
          (c = '#' || p.atDocumentMark || (!isFlow && p.column < indent))
        if ends then some (text.reverse, gap.hasLine, p)
        else if isFlow && isUnclearMark (c :: cs) then none
        else if endsPlain isFlow (c :: cs) then some (text.reverse, gap.hasLine, p)
        else plain isFlow indent (c :: (gap.text ++ text)) .empty (p.skip 1)
termination_by p.rest.length
decreasing_by
  · exact Place.skip_length_lt _h (by omega)
  · exact Place.nextLine?_length_lt _hl
  · exact Place.skip_length_lt _h (by omega)

/-! ## Blocks of lines -/

/-- How the line ends at the end of a block are kept. -/
inductive Chomp
  /-- None of them -/
  | strip
  /-- The one behind the last text -/
  | clip
  /-- All of them -/
  | keep
  deriving DecidableEq, Repr

/-- The mark for a way of keeping line ends. -/
def Chomp.ofMark? (c : Char) : Option Chomp :=
  if c = '+' then some .keep else if c = '-' then some .strip else none

/-- A digit from one to nine. -/
def indentDigit? (c : Char) : Option Nat :=
  if c.isDigit && c ≠ '0' then some (c.toNat - '0'.toNat) else none

/-- The marks behind `|` or `>`, in either order: how line ends are kept, and the indentation
    that is given. With them comes the number of characters that they take. -/
def blockMarks : List Char → Option (Chomp × Option Nat × Nat)
  | [] => some (.clip, none, 0)
  | c :: cs =>
    match Chomp.ofMark? c, cs with
    | some chomp, d :: _ =>
      if d.isDigit then (indentDigit? d).map fun n => (chomp, some n, 2)
      else some (chomp, none, 1)
    | some chomp, [] => some (chomp, none, 1)
    | none, _ =>
      if c.isDigit then (indentDigit? c).map fun n =>
        match cs.head?.bind Chomp.ofMark? with
        | some chomp => (chomp, some n, 2)
        | none => (.clip, some n, 1)
      else some (.clip, none, 0)

/-- The empty lines before the first text of a block: the ends of these lines, last first, and
    the most blanks in one of them or before the text. -/
def emptyLines (deepest : Nat) (feeds : List Char) (p : Place) :
    Option (Nat × List Char × Place) :=
  let here := p.skipWhile (· = ' ')
  let deepest := max deepest here.column
  if here.rest.head? = some '\t' then none
  else match _h : here.nextLine? with
    | some (feed, next) => emptyLines deepest (feed :: feeds) next
    | none => some (deepest, feeds, here)
termination_by p.rest.length
decreasing_by
  exact Nat.lt_of_lt_of_le (Place.nextLine?_length_lt _h) (Place.skip_length_le p _)

/-- A line of a block: its text behind the indentation, and its end if it has one. -/
structure BlockLine where
  text : List Char
  feed? : Option Char
  deriving DecidableEq, Repr

/-- The lines of a block at an indentation, and those before them, last first. -/
def blockLines (indent : Nat) (lines : List BlockLine) (p : Place) :
    Option (List BlockLine × Place) :=
  let spaces := (p.rest.takeWhile (· = ' ')).length
  let here := p.skip (min spaces (indent - p.column))
  if here.column < indent && here.rest.head? = some '\t' then none
  else match _h : here.nextLine? with
    | some (feed, next) => blockLines indent (⟨[], some feed⟩ :: lines) next
    | none =>
      if here.column = indent && here.rest ≠ [] then
        let text := here.rest.takeWhile fun c => !isBreak c
        let last := here.skip text.length
        match _hl : last.nextLine? with
        | some (feed, next) => blockLines indent (⟨text, some feed⟩ :: lines) next
        | none => some (⟨text, none⟩ :: lines, last)
      else some (lines, here)
termination_by p.rest.length
decreasing_by
  · exact Nat.lt_of_lt_of_le (Place.nextLine?_length_lt _h) (Place.skip_length_le p _)
  · exact Nat.lt_of_lt_of_le (Place.nextLine?_length_lt _hl)
      (Nat.le_trans (Place.skip_length_le _ _) (Place.skip_length_le p _))

/-- The lines of a block, joined so far. -/
structure Joined where
  /-- The text, last character first -/
  text : List Char
  /-- The end of the last line with text -/
  feed? : Option Char
  /-- Whether the last line with text starts with a blank -/
  isIndented : Bool
  /-- The ends of the empty lines behind it, last first -/
  empties : List Char
  deriving DecidableEq, Repr

/-- One more line. With `folds`, a line feed between two lines of text that are not indented
    further becomes a space, or nothing if empty lines follow it. -/
def Joined.add (folds : Bool) (j : Joined) (line : BlockLine) : Joined :=
  if line.text = [] then { j with empties := line.feed?.toList ++ j.empties }
  else
    let isIndented := line.text.head?.any isBlank
    let between :=
      if folds && j.feed? = some '\n' && !j.isIndented && !isIndented then
        if j.empties = [] then [' '] else []
      else j.feed?.toList
    ⟨line.text.reverse ++ j.empties ++ between ++ j.text, line.feed?, isIndented, []⟩

/-- A block of lines after its mark, inside a block at a column. Without a given indentation, it
    is that of the first line with text. -/
def blockScalar (folds : Bool) (outer? : Option Nat) (p : Place) :
    Option (List Char × Place) := do
  let (chomp, given?, n) ← blockMarks p.rest
  let p ← (p.skip n).endLine?
  let (lines, p) ← match given? with
    | some n => blockLines (outer?.getD 0 + n) [] p
    | none => do
      let (deepest, feeds, p) ← emptyLines 0 [] p
      let least := match outer? with
        | some column => column + 1
        | none => 1
      blockLines (max deepest least) (feeds.map fun feed => ⟨[], some feed⟩) p
  let j := lines.reverse.foldl (Joined.add folds) ⟨[], none, false, []⟩
  let text := match chomp with
    | .strip => j.text
    | .clip => j.feed?.toList ++ j.text
    | .keep => j.empties ++ j.feed?.toList ++ j.text
  some (text.reverse, p)

end PhpSharp.Document.Yaml
