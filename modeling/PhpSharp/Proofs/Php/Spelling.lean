/-
  Spelling: token kinds as source text, with what may stand between two tokens.

  * `TokenKind.Valid`: the kinds that a source can spell;
  * `TokenKind.spell`: the text of a kind, a string in quotes of either sort;
  * `Separator`: blanks and comments. A `WrittenToken` has any of them behind it, or none;
  * `Gap`: separators of which the first is a blank, so that every token ends there. `printed` is
    the text of a list of tokens, each with the gap behind it.
-/
import PhpSharp.Php.Lexeme

namespace PhpSharp.Php

/-! ## Comments -/

/-- A text that a block comment can hold: no `*/` ends it early, not even with a `*` behind it. -/
def IsBlockBody (body : List Char) : Prop := ¬['*', '/'] <:+: body ++ ['*']

/-- A text that a line comment can hold: neither its line nor the PHP code ends in it. -/
def IsLineBody (body : List Char) : Prop := '\n' ∉ body ∧ ¬['?', '>'] <:+: body

/-- The text of a documentation comment, which `/**/` is not. -/
structure IsDocText (cs : List Char) : Prop where
  opens : ['/', '*', '*'] <+: cs
  fourth : cs[3]? ≠ some '/'
  closes : ['*', '/'] <:+ cs
  /-- No earlier `*/` stands behind the opening `/*`. -/
  once : ¬['*', '/'] <:+: (cs.drop 2).dropLast

/-! ## Tokens -/

/-- Whether a text is a name. -/
def isNameText : List Char → Bool
  | [] => false
  | c :: cs => !Text.isBlank c && isNameStart c && cs.all isNameChar

/-- Whether a text is a number literal. -/
def isNumberText : List Char → Bool
  | [] => false
  | c :: cs => c.isDigit && cs.all isNumberChar

/-- Whether a character is a token of its own. -/
def isMark (c : Char) : Bool :=
  !Text.isBlank c && !c.isDigit && !isNameStart c && !(['\'', '"', '\x60', '#'].contains c)

/-- The kinds of token that a source can spell. -/
def TokenKind.Valid : TokenKind → Prop
  | .name text => isNameText text.toList = true
  | .variable text => isNameText text.toList = true ∧ text.toList.head? ≠ some '\\'
  | .number text => isNumberText text.toList = true
  | .docComment text => IsDocText text.toList
  | .punctuation c => isMark c = true
  | .string _ | .arrow | .doubleColon | .doubleArrow => True

/-- The quotes a string can stand in. -/
inductive Quote
  | single
  | double
  deriving DecidableEq, Repr

def Quote.char : Quote → Char
  | .single => '\''
  | .double => '"'

/-- A text with a backslash before each backslash and each of the quotes. -/
def Quote.escape (q : Quote) (cs : List Char) : List Char :=
  cs.flatMap fun c => if c = '\\' ∨ c = q.char then ['\\', c] else [c]

/-- The text of a token; a string stands in the given quotes. -/
def TokenKind.spell (q : Quote) : TokenKind → List Char
  | .name text => text.toList
  | .variable text => '$' :: text.toList
  | .string value => q.char :: q.escape value.toList ++ [q.char]
  | .number text => text.toList
  | .docComment text => text.toList
  | .arrow => ['-', '>']
  | .doubleColon => [':', ':']
  | .doubleArrow => ['=', '>']
  | .punctuation c => [c]

/-! ## Between tokens -/

/-- The blanks within ASCII. -/
def isAsciiBlank (c : Char) : Bool := Text.isBlank c && c.toNat < 128

/-- What can stand between tokens. -/
inductive Separator
  | blank (c : Char) (h : Text.isBlank c = true)
  /-- `/* … */`, which `/** … */` is not -/
  | block (body : List Char) (h : IsBlockBody body) (plain : body.head? ≠ some '*')
  /-- `// …`, with the line feed -/
  | slashes (body : List Char) (h : IsLineBody body)
  /-- `# …`, with the line feed -/
  | hash (body : List Char) (h : IsLineBody body) (plain : body.head? ≠ some '[')

def Separator.text : Separator → List Char
  | blank c _ => [c]
  | block body _ _ => '/' :: '*' :: body ++ ['*', '/']
  | slashes body _ => '/' :: '/' :: body ++ ['\n']
  | hash body _ _ => '#' :: body ++ ['\n']

/-- A token as it is written, and what stands between it and the next one. -/
structure WrittenToken where
  kind : TokenKind
  valid : kind.Valid
  /-- The quotes of a string. -/
  quote : Quote
  /-- Nothing, if the next token can stand right behind this one. -/
  behind : List Separator

def WrittenToken.text (t : WrittenToken) : List Char :=
  t.kind.spell t.quote ++ t.behind.flatMap Separator.text

/-- The text of a list of tokens, with what stands between them. -/
def joined (ts : List WrittenToken) : List Char := ts.flatMap WrittenToken.text

/-- What stands behind a token: a blank and any separators. -/
structure Gap where
  first : Char
  isAscii : isAsciiBlank first = true
  more : List Separator

def Gap.text (g : Gap) : List Char := g.first :: g.more.flatMap Separator.text

/-- The blank of a gap is a separator like others. -/
def Gap.separators (g : Gap) : List Separator :=
  .blank g.first (Bool.and_eq_true_iff.1 g.isAscii).1 :: g.more

/-- A token as it is written. -/
structure Spelled where
  kind : TokenKind
  valid : kind.Valid
  /-- The quotes of a string. -/
  quote : Quote
  /-- What stands behind the token. -/
  gap : Gap

def Spelled.text (t : Spelled) : List Char := t.kind.spell t.quote ++ t.gap.text

def Spelled.written (t : Spelled) : WrittenToken := ⟨t.kind, t.valid, t.quote, t.gap.separators⟩

/-- The text of a list of tokens. -/
def printed (ts : List Spelled) : List Char := ts.flatMap Spelled.text

theorem joined_written (ts : List Spelled) : joined (ts.map Spelled.written) = printed ts := by
  rw [joined, List.flatMap_map]
  rfl

end PhpSharp.Php
