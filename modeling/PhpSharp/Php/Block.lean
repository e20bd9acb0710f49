/-
  Blocks: runs of tokens between an opening bracket and the bracket that closes it.

  `readBlock` reads one block; inside it the three kinds of bracket have to nest
  (`closeBlock` keeps the open ones on a stack).
-/
import PhpSharp.Result
import PhpSharp.Php.Token
import PhpSharp.Php.SyntaxError

namespace PhpSharp.Php

/-- The three kinds of bracket. -/
inductive Bracket
  /-- `{ }` -/
  | brace
  /-- `( )` -/
  | parenthesis
  /-- `[ ]` -/
  | square
  deriving DecidableEq, Repr

def Bracket.opening : Bracket → Char
  | .brace => '{'
  | .parenthesis => '('
  | .square => '['

def Bracket.closing : Bracket → Char
  | .brace => '}'
  | .parenthesis => ')'
  | .square => ']'

/-- The bracket that a character opens. -/
def Bracket.ofOpening? (c : Char) : Option Bracket :=
  if c = '{' then some .brace
  else if c = '(' then some .parenthesis
  else if c = '[' then some .square
  else none

/-- The bracket that a character closes. -/
def Bracket.ofClosing? (c : Char) : Option Bracket :=
  if c = '}' then some .brace
  else if c = ')' then some .parenthesis
  else if c = ']' then some .square
  else none

/-- The bracket that a token opens. -/
def Token.opens? (t : Token) : Option Bracket := t.punctuation?.bind Bracket.ofOpening?

/-- The bracket that a token closes. -/
def Token.closes? (t : Token) : Option Bracket := t.punctuation?.bind Bracket.ofClosing?

/-- The result of reading: a value and the tokens that are left. -/
abbrev Parsed (α : Type) := Except SyntaxError (α × List Token)

/-- A token in front of what was read. -/
def Parsed.push (t : Token) (p : Parsed (List Token)) : Parsed (List Token) :=
  p.map fun (body, rest) => (t :: body, rest)

/-- The tokens up to the bracket that closes the outermost open one, and those behind it.
    `inner` was opened last, `outer` before it, the latest first; `unclosed` is the error
    if the tokens end. -/
def closeBlock (unclosed : SyntaxError) (inner : Bracket) (outer : List Bracket) :
    List Token → Parsed (List Token)
  | [] => .error unclosed
  | t :: ts =>
    match t.opens?, t.closes? with
    | some b, _ => .push t (closeBlock unclosed b (inner :: outer) ts)
    | none, none => .push t (closeBlock unclosed inner outer ts)
    | none, some b =>
      if b ≠ inner then .error ⟨t.line, .mismatchedBracket b.closing inner.closing⟩
      else match outer with
        | [] => .ok ([], ts)
        | inner :: outer => .push t (closeBlock unclosed inner outer ts)

/-- Reads the block that starts at the first token; `eof` is the line to blame if there is
    none. -/
def readBlock (eof : Nat) : List Token → Parsed (List Token)
  | [] => .error ⟨eof, .expectedBracket⟩
  | t :: ts =>
    match t.opens? with
    | some b => closeBlock ⟨t.line, .unclosedBracket b.opening⟩ b [] ts
    | none => .error ⟨t.line, .expectedBracket⟩

theorem Parsed.push_eq_ok {t : Token} {p : Parsed (List Token)} {body rest : List Token}
    (h : Parsed.push t p = .ok (body, rest)) : ∃ b, p = .ok (b, rest) ∧ body = t :: b := by
  obtain ⟨⟨b, r⟩, hp, he⟩ := map_eq_ok h
  cases he
  exact ⟨b, hp, rfl⟩

theorem closeBlock_suffix {unclosed : SyntaxError} {inner : Bracket} {outer : List Bracket}
    {ts body rest : List Token} (h : closeBlock unclosed inner outer ts = .ok (body, rest)) :
    rest <:+ ts := by
  induction ts generalizing inner outer body with
  | nil => simp [closeBlock] at h
  | cons t ts ih =>
    unfold closeBlock at h
    split at h
    · obtain ⟨b, hb, -⟩ := Parsed.push_eq_ok h
      exact (ih hb).trans (List.suffix_cons _ _)
    · obtain ⟨b, hb, -⟩ := Parsed.push_eq_ok h
      exact (ih hb).trans (List.suffix_cons _ _)
    · split at h
      · simp at h
      split at h
      · cases h
        exact List.suffix_cons _ _
      · obtain ⟨b, hb, -⟩ := Parsed.push_eq_ok h
        exact (ih hb).trans (List.suffix_cons _ _)

/-- A block is at least its opening bracket. -/
theorem readBlock_length {eof : Nat} {ts body rest : List Token}
    (h : readBlock eof ts = .ok (body, rest)) : rest.length < ts.length := by
  match ts with
  | [] => simp [readBlock] at h
  | t :: ts =>
    rw [readBlock] at h
    split at h
    · have := (closeBlock_suffix h).length_le
      simp only [List.length_cons]; omega
    · simp at h

end PhpSharp.Php
