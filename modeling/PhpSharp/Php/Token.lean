/-
  The tokens of a PHP source: names, variables, literals, documentation comments,
  the three compound operators that class files use, and single characters.

  A token knows the line it starts on. Keywords are names and compare without regard
  to letter case.
-/
import PhpSharp.Text.Letters

namespace PhpSharp.Php

/-- What a token is, without its place. -/
inductive TokenKind
  /-- An identifier, a keyword or a name with backslashes: `Foo\Bar` -/
  | name (text : String)
  /-- A variable, without its dollar sign: `$x` -/
  | variable (text : String)
  /-- A string literal, its escapes decoded: `'a\'b'` -/
  | string (value : String)
  /-- A number as written: `0x1F` -/
  | number (text : String)
  /-- A documentation comment with its delimiters: `/** … */` -/
  | docComment (text : String)
  /-- The member arrows `->` and `?->` -/
  | arrow
  /-- The scope operator `::` -/
  | doubleColon
  /-- The pair arrow `=>` -/
  | doubleArrow
  /-- Any other character -/
  | punctuation (c : Char)
  deriving DecidableEq, Repr

/-- A token and the line it starts on, counted from one. -/
structure Token where
  kind : TokenKind
  line : Nat
  deriving DecidableEq, Repr

namespace Token

/-- The text of a name. -/
def name? (t : Token) : Option String :=
  match t.kind with
  | .name text => some text
  | _ => none

/-- The character of a punctuation token. -/
def punctuation? (t : Token) : Option Char :=
  match t.kind with
  | .punctuation c => some c
  | _ => none

/-- Whether the token is the given word, in any letter case. -/
def isName (t : Token) (word : String) : Bool :=
  match t.kind with
  | .name text => Text.sameLetters text word
  | _ => false

/-- Whether the token is the given character. -/
def isPunctuation (t : Token) (c : Char) : Bool := t.kind == .punctuation c

end Token

end PhpSharp.Php
