/-
  Places in a text of YAML, and what may stand between two words: blanks and ends of lines.

  * `Place.skip` and `Place.nextLine?` go on in a line and to the next one; both leave less of
    the text (`skip_length_lt`, `nextLine?_length_lt`), so that a reader comes to an end.
  * `Gap` is what stands between two words of a scalar. A line end between them counts as one
    space, and of several line ends the first does not count (`Gap.text`).
-/
import PhpSharp.Document.Basic

namespace PhpSharp.Document.Yaml

/-! ## Characters -/

/-- A space or a tab. -/
def isBlank (c : Char) : Bool := c = ' ' || c = '\t'

/-- A character that ends a line. -/
def isBreak (c : Char) : Bool :=
  c = '\n' || c = '\r' || c = '\u0085' || c = '\u2028' || c = '\u2029'

/-- Whether a blank, the end of a line or the end of the text follows. -/
def endsWord : List Char → Bool
  | [] => true
  | c :: _ => isBlank c || isBreak c

/-- The characters with a meaning inside brackets and braces. -/
def isFlowMark (c : Char) : Bool := c = ',' || c = '[' || c = ']' || c = '\x7b' || c = '\x7d'

/-- The characters of a name: ASCII letters, digits, `_` and `-`. -/
def isNameChar (c : Char) : Bool := c.isAlphanum || c = '_' || c = '-'

/-! ## Places -/

/-- A place in a text. -/
structure Place where
  /-- The number of lines before it -/
  line : Nat
  /-- The number of characters before it in its line -/
  column : Nat
  /-- The number of characters before it in the text -/
  index : Nat
  /-- The characters that follow -/
  rest : List Char
  deriving DecidableEq, Repr

namespace Place

/-- The start of a text. -/
def start (text : List Char) : Place := ⟨0, 0, 0, text⟩

/-- The place behind some characters of a line. -/
def skip (p : Place) (n : Nat) : Place := ⟨p.line, p.column + n, p.index + n, p.rest.drop n⟩

/-- The place behind the characters of a class, none of which ends a line. -/
def skipWhile (p : Place) (q : Char → Bool) : Place := p.skip (p.rest.takeWhile q).length

/-- The line end that follows, if one does, and the start of the next line. All line ends count
    as a line feed but the two that Unicode has for lines and paragraphs. -/
def nextLine? (p : Place) : Option (Char × Place) :=
  match p.rest with
  | [] => none
  | '\r' :: '\n' :: cs => some ('\n', ⟨p.line + 1, 0, p.index + 2, cs⟩)
  | c :: cs =>
    if isBreak c then
      let feed := if c = '\u2028' || c = '\u2029' then c else '\n'
      some (feed, ⟨p.line + 1, 0, p.index + 1, cs⟩)
    else none

theorem skip_length_le (p : Place) (n : Nat) : (p.skip n).rest.length ≤ p.rest.length := by
  simp [skip]

theorem skip_length_lt {p : Place} {c : Char} {cs : List Char} (h : p.rest = c :: cs) {n : Nat}
    (hn : 0 < n) : (p.skip n).rest.length < p.rest.length := by
  simp only [skip, h, List.length_drop, List.length_cons]; omega

theorem nextLine?_length_lt {p q : Place} {c : Char} (h : p.nextLine? = some (c, q)) :
    q.rest.length < p.rest.length := by
  unfold nextLine? at h
  split at h
  · cases h
  · next cs hr => cases h; simp only [hr, List.length_cons]; omega
  · next d cs _ hr =>
    split at h
    · cases h; simp only [hr, List.length_cons]; omega
    · cases h

/-- Whether a line that marks the start or the end of a document starts here. -/
def atDocumentMark (p : Place) : Bool :=
  p.column = 0 && (p.rest.take 3 = ['-', '-', '-'] || p.rest.take 3 = ['.', '.', '.']) &&
    endsWord (p.rest.drop 3)

/-- The place behind blanks and a comment, which goes on to the end of its line. -/
def skipComment (p : Place) : Place :=
  let p := p.skipWhile isBlank
  if p.rest.head? = some '#' then p.skipWhile fun c => !isBreak c else p

/-- The place behind blanks, a comment and the end of the line; nothing else may follow. -/
def endLine? (p : Place) : Option Place :=
  let p := p.skipComment
  match p.nextLine? with
  | some (_, next) => some next
  | none => if p.rest = [] then some p else none

end Place

/-! ## Gaps -/

/-- What stands between two words of a scalar, so far. -/
structure Gap where
  /-- The blanks before the first line end, last first -/
  blanks : List Char
  /-- The line ends, last first -/
  breaks : List Char
  /-- Whether a backslash has taken the first line end away -/
  isJoined : Bool
  deriving DecidableEq, Repr

namespace Gap

/-- Nothing between two words. -/
def empty : Gap := ⟨[], [], false⟩

/-- What a backslash at the end of a line leaves. -/
def joined : Gap := ⟨[], [], true⟩

/-- Whether there is nothing. -/
def isEmpty (g : Gap) : Bool := g.blanks.isEmpty && g.breaks.isEmpty && !g.isJoined

/-- Whether a new line has begun. -/
def hasLine (g : Gap) : Bool := !g.breaks.isEmpty || g.isJoined

/-- The gap with one more blank. Those at the start of a line do not count. -/
def addBlank (g : Gap) (c : Char) : Gap :=
  if g.hasLine then g else { g with blanks := c :: g.blanks }

/-- The gap with one more line end. Blanks before it do not count. -/
def addBreak (g : Gap) (c : Char) : Gap := { g with blanks := [], breaks := c :: g.breaks }

/-- The text that a gap stands for, last character first. -/
def text (g : Gap) : List Char :=
  if g.isJoined then g.breaks
  else match g.breaks with
    | [] => g.blanks
    | ['\n'] => [' ']
    | feeds => if feeds.getLast? = some '\n' then feeds.dropLast else feeds

end Gap

end PhpSharp.Document.Yaml
