/-
  Heredocs: text between an opening line `<<<LABEL` and the first line that starts,
  after its indentation, with the label.

  * the indentation of the closing label is taken off every line of the body;
  * a label in single quotes makes the body literal, any other one decodes escapes;
  * what follows the closing label on its line is ordinary source again.
-/
import PhpSharp.Php.StringLiteral
import PhpSharp.Php.SyntaxError
import PhpSharp.Text.Blank

namespace PhpSharp.Php

/-- The characters of a heredoc label. -/
def isLabelChar (c : Char) : Bool := c.isAlphanum || c == '_'

/-- The bytes a text takes in UTF-8. -/
def byteLength (cs : List Char) : Nat := cs.foldr (fun c n => c.utf8Size + n) 0

/-- How a heredoc opens. -/
structure HeredocOpening where
  /-- The quote around the label. -/
  quote? : Option Char
  label : List Char
  deriving DecidableEq, Repr

/-- The source after the end of the current line. -/
def afterLine (cs : List Char) : List Char := (cs.dropWhile (· ≠ '\n')).drop 1

theorem afterLine_suffix (cs : List Char) : afterLine cs <:+ cs :=
  (List.drop_suffix 1 _).trans (List.dropWhile_suffix _)

/-- Reads a label, the quote behind it if there is one before it, and the rest of the line. -/
def HeredocOpening.readLabel (quote? : Option Char) (cs : List Char) :
    Except SyntaxFault (HeredocOpening × List Char) :=
  let label := cs.takeWhile isLabelChar
  let rest := cs.dropWhile isLabelChar
  if label = [] then .error .heredocWithoutLabel
  else if quote? = none then .ok (⟨none, label⟩, afterLine rest)
  else if rest.head? = quote? then .ok (⟨quote?, label⟩, afterLine (rest.drop 1))
  else .error .malformedHeredocLabel

/-- Reads what follows `<<<`, up to the end of the line. -/
def HeredocOpening.read (cs : List Char) : Except SyntaxFault (HeredocOpening × List Char) :=
  let cs := cs.dropWhile fun c => c == ' ' || c == '\t'
  if cs.head? = some '\'' || cs.head? = some '"' then readLabel cs.head? (cs.drop 1)
  else readLabel none cs

/-- If a line closes the heredoc: the bytes of its indentation and what follows the label. -/
def closingLine? (label line : List Char) : Option (Nat × List Char) :=
  let trimmed := Text.trimStart line
  let tail := trimmed.drop label.length
  if label.isPrefixOf trimmed && !tail.head?.any isLabelChar then
    some (byteLength line - byteLength trimmed, tail)
  else none

/-- A line without the blanks at its start that begin within the first `indent` bytes. -/
def dropIndent : Nat → List Char → List Char
  | _, [] => []
  | indent, c :: cs =>
    if indent = 0 || !Text.isBlank c then c :: cs else dropIndent (indent - c.utf8Size) cs

/-- The lines before the closing label, its indentation, and the source after it. -/
structure HeredocBody where
  lines : List (List Char)
  indent : Nat
  rest : List Char
  deriving DecidableEq, Repr

/-- Reads the body from the start of its first line. -/
def HeredocBody.read (label : List Char) (cs : List Char) : Option HeredocBody :=
  if cs = [] then none
  else
    let line := cs.takeWhile (· ≠ '\n')
    match closingLine? label line with
    | some (indent, tail) => some ⟨[], indent, tail ++ cs.dropWhile (· ≠ '\n')⟩
    | none =>
      match _h : cs.dropWhile (· ≠ '\n') with
      | [] => none
      | _ :: rest => (HeredocBody.read label rest).map fun b => { b with lines := line :: b.lines }
  termination_by cs.length
  decreasing_by
    have h₁ := congrArg List.length _h
    have h₂ := (List.dropWhile_suffix (l := cs) (p := (· ≠ '\n'))).length_le
    simp at h₁ h₂; omega

/-- The text of the body: its lines without the closing label's indentation. -/
def HeredocBody.text (b : HeredocBody) : List Char :=
  ['\n'].intercalate (b.lines.map (dropIndent b.indent))

/-- Reads a heredoc after its `<<<`: the text it denotes and the source after its label. -/
def readHeredoc (cs : List Char) : Except SyntaxFault (String × List Char) := do
  let (opening, body) ← HeredocOpening.read cs
  match HeredocBody.read opening.label body with
  | none => .error (.unterminatedHeredoc (String.ofList opening.label))
  | some b =>
    let text := if opening.quote? = some '\'' then b.text else decodeEscapes '\x00' b.text
    .ok (String.ofList text, b.rest)

theorem HeredocOpening.readLabel_suffix {quote? : Option Char} {cs rest : List Char}
    {o : HeredocOpening} (h : readLabel quote? cs = .ok (o, rest)) : rest <:+ cs := by
  have hl := List.dropWhile_suffix isLabelChar (l := cs)
  unfold readLabel at h
  dsimp only at h
  split at h
  · simp at h
  split at h
  · cases h
    exact (afterLine_suffix _).trans hl
  split at h
  · cases h
    exact (afterLine_suffix _).trans ((List.drop_suffix 1 _).trans hl)
  · simp at h

theorem HeredocOpening.read_suffix {cs rest : List Char} {o : HeredocOpening}
    (h : HeredocOpening.read cs = .ok (o, rest)) : rest <:+ cs := by
  have hb := List.dropWhile_suffix (fun c => c == ' ' || c == '\t') (l := cs)
  unfold HeredocOpening.read at h
  dsimp only at h
  split at h
  · exact (readLabel_suffix h).trans ((List.drop_suffix 1 _).trans hb)
  · exact (readLabel_suffix h).trans hb

theorem closingLine?_suffix {label line tail : List Char} {indent : Nat}
    (h : closingLine? label line = some (indent, tail)) : tail <:+ line := by
  unfold closingLine? at h
  dsimp only at h
  split at h
  · cases h
    exact (List.drop_suffix _ _).trans (List.dropWhile_suffix _)
  · simp at h

theorem HeredocBody.read_suffix {label cs : List Char} {b : HeredocBody}
    (h : HeredocBody.read label cs = some b) : b.rest <:+ cs := by
  fun_induction HeredocBody.read label cs generalizing b with
  | case1 => simp at h
  | case2 cs _ line indent tail =>
    rename_i hc
    cases h
    obtain ⟨before, hb⟩ := closingLine?_suffix hc
    exact ⟨before, by rw [← List.append_assoc, hb]; exact List.takeWhile_append_dropWhile⟩
  | case3 => simp at h
  | case4 cs _ line _ _ rest hd =>
    rename_i ih
    obtain ⟨b', hb, rfl⟩ := Option.map_eq_some_iff.1 h
    exact (ih hb).trans ((List.suffix_cons _ _).trans (hd ▸ List.dropWhile_suffix _))

theorem readHeredoc_suffix {cs rest : List Char} {value : String}
    (h : readHeredoc cs = .ok (value, rest)) : rest <:+ cs := by
  unfold readHeredoc at h
  match ho : HeredocOpening.read cs with
  | .error e => simp [ho, bind, Except.bind] at h
  | .ok (o, body) =>
    simp only [ho, bind, Except.bind] at h
    split at h
    · simp at h
    · rename_i hb
      cases h
      exact (HeredocBody.read_suffix hb).trans (HeredocOpening.read_suffix ho)

/-- What stands before a suffix, and the suffix. -/
theorem take_append_rest {cs rest : List Char} (h : rest <:+ cs) :
    cs.take (cs.length - rest.length) ++ rest = cs := by
  obtain ⟨before, rfl⟩ := h
  simp

end PhpSharp.Php
