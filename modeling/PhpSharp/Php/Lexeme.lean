/-
  Lexemes: the pieces a PHP source falls into, each with the token it denotes, if any.

  * `Lexeme.next` reads one lexeme of source inside PHP tags; `next_eq_ok` says that the
    lexeme and what is left make up the input, so no character is lost or read twice;
  * a close tag is a lexeme with the text up to the next open tag, and denotes `;`;
  * `tokenize` reads a whole file and gives every token the line it starts on.
-/
import PhpSharp.Php.Token
import PhpSharp.Php.Heredoc

namespace PhpSharp.Php

/-- A piece of source and the token it denotes. -/
structure Lexeme where
  /-- The characters of the piece. -/
  text : List Char
  token? : Option TokenKind
  deriving DecidableEq, Repr

/-- A fault and the number of line feeds between the start of the lexeme and its place. -/
abbrev LexicalFault := Nat × SyntaxFault

/-- The line feeds of a text. -/
def lineFeeds (cs : List Char) : Nat := cs.count '\n'

/-- The first characters of names and keywords; all of non-ASCII is among them. -/
def isNameStart (c : Char) : Bool := c.isAlpha || c == '_' || c == '\\' || c.toNat ≥ 128

/-- The further characters of names and keywords. -/
def isNameChar (c : Char) : Bool := c.isAlphanum || c == '_' || c == '\\' || c.toNat ≥ 128

theorem isNameChar_of_isNameStart {c : Char} (h : isNameStart c = true) : isNameChar c = true := by
  simp only [isNameStart, isNameChar, Char.isAlphanum, Bool.or_eq_true] at h ⊢
  rcases h with ((h | h) | h) | h <;> simp only [h, true_or, or_true]

/-- The further characters of numbers: all that could belong to one. -/
def isNumberChar (c : Char) : Bool := c.isAlphanum || c == '_' || c == '.'

/-- An open tag at the start of the text, and what follows it: `<?php`, `<?=` or `<?`. -/
def openTag? : List Char → Option (List Char × List Char)
  | '<' :: '?' :: cs =>
    if Text.sameLetters (String.ofList (cs.take 3)) "php" then
      some ('<' :: '?' :: cs.take 3, cs.drop 3)
    else if cs.head? = some '=' then some (['<', '?', '='], cs.drop 1)
    else some (['<', '?'], cs)
  | _ => none

/-- The text up to the next open tag, the tag included, after the characters `skipped`
    (last first), and what follows the tag. -/
def skipHtml (skipped : List Char) (cs : List Char) : List Char × List Char :=
  match cs with
  | [] => (skipped.reverse, [])
  | c :: rest =>
    match openTag? (c :: rest) with
    | some (tag, after) => (skipped.reverse ++ tag, after)
    | none => skipHtml (c :: skipped) rest

/-- A line comment up to its end, a line feed or a close tag, and what follows. -/
def lineComment : List Char → List Char × List Char
  | [] => ([], [])
  | c :: cs =>
    if c = '\n' || (c = '?' && cs.head? = some '>') then ([], c :: cs)
    else
      let (comment, rest) := lineComment cs
      (c :: comment, rest)

/-- A block comment after its `/*`, the closing `*/` included, and what follows. -/
def blockComment : List Char → Option (List Char × List Char)
  | [] => none
  | c :: cs =>
    if c = '*' && cs.head? = some '/' then some (['*', '/'], cs.drop 1)
    else (blockComment cs).map fun (comment, rest) => (c :: comment, rest)

theorem openTag?_eq_some {cs tag rest : List Char} (h : openTag? cs = some (tag, rest)) :
    tag ++ rest = cs := by
  unfold openTag? at h
  split at h
  · split at h
    · cases h; simp
    · split at h
      · cases h
        rename_i cs _ hc
        cases cs <;> simp_all
      · cases h; simp
  · simp at h

theorem skipHtml_append (skipped cs : List Char) :
    (skipHtml skipped cs).1 ++ (skipHtml skipped cs).2 = skipped.reverse ++ cs := by
  induction cs generalizing skipped with
  | nil => simp [skipHtml]
  | cons c cs ih =>
    unfold skipHtml
    split
    · rename_i h
      simp [← openTag?_eq_some h]
    · simp [ih]

theorem lineComment_append (cs : List Char) : (lineComment cs).1 ++ (lineComment cs).2 = cs := by
  induction cs with
  | nil => rfl
  | cons c cs ih =>
    unfold lineComment
    split <;> simp [ih]

theorem blockComment_eq_some {cs comment rest : List Char}
    (h : blockComment cs = some (comment, rest)) : comment ++ rest = cs := by
  induction cs generalizing comment with
  | nil => simp [blockComment] at h
  | cons c cs ih =>
    unfold blockComment at h
    split at h
    · rename_i hc
      simp only [Bool.and_eq_true, decide_eq_true_eq] at hc
      cases h
      cases cs <;> simp_all
    · obtain ⟨⟨b, r⟩, hb, he⟩ := Option.map_eq_some_iff.1 h
      cases he; simp [ih hb]

/-- An attribute after its `#[`, up to the matching `]`, and what follows. Brackets inside
    quoted strings do not count; `depth` brackets are open beyond the first, and `feeds`
    line feeds stand before. -/
def readAttribute (depth feeds : Nat) (cs : List Char) :
    Except LexicalFault (List Char × List Char) :=
  match cs with
  | [] => .error (0, .unterminatedAttribute)
  | c :: cs =>
    if c = '\'' || c = '"' then
      match _h : splitQuoted c cs with
      | none => .error (feeds, .unterminatedString)
      | some (body, rest) =>
        (readAttribute depth (feeds + lineFeeds body) rest).map fun (text, after) =>
          (c :: body ++ c :: text, after)
    else if c = ']' && depth = 0 then .ok ([']'], cs)
    else
      let depth := if c = '[' then depth + 1 else if c = ']' then depth - 1 else depth
      (readAttribute depth (feeds + lineFeeds [c]) cs).map fun (text, after) => (c :: text, after)
  termination_by cs.length
  decreasing_by
    · have := congrArg List.length (splitQuoted_eq_some _h)
      simp at this ⊢; omega
    · simp

theorem readAttribute_eq_ok {depth feeds : Nat} {cs text rest : List Char}
    (h : readAttribute depth feeds cs = .ok (text, rest)) : text ++ rest = cs := by
  fun_induction readAttribute depth feeds cs generalizing text with
  | case1 => simp at h
  | case2 => simp at h
  | case3 depth feeds c cs hc body rest' hq ih =>
    match ha : readAttribute depth (feeds + lineFeeds body) rest' with
    | .error e => simp [ha, Except.map] at h
    | .ok (t, a) =>
      simp only [ha, Except.map] at h
      cases h
      simp [ih ha, splitQuoted_eq_some hq]
  | case4 depth feeds c cs hc hb =>
    simp only [Bool.and_eq_true, decide_eq_true_eq] at hb
    cases h; simp [hb.1]
  | case5 depth feeds c cs hc hb depth' =>
    rename_i ih
    match ha : readAttribute depth' (feeds + lineFeeds [c]) cs with
    | .error e => simp [ha, Except.map] at h
    | .ok (t, a) =>
      simp only [ha, Except.map] at h
      cases h
      simp [ih ha]

namespace Lexeme

/-- What reading one lexeme gives: it and the rest of the source. -/
abbrev Reading := Except LexicalFault (Lexeme × List Char)

/-- The lexeme of the first `n` characters. -/
def ofLength (n : Nat) (token? : Option TokenKind) (cs : List Char) : Reading :=
  .ok (⟨cs.take n, token?⟩, cs.drop n)

/-- A single character as a token of its own. -/
def punctuation (c : Char) (cs : List Char) : Reading :=
  ofLength 1 (some (.punctuation c)) (c :: cs)

/-- The lexeme of a run of characters, and the token that its text makes. -/
def run (p : Char → Bool) (token : String → TokenKind) (cs : List Char) : Reading :=
  .ok (⟨cs.takeWhile p, some (token (String.ofList (cs.takeWhile p)))⟩, cs.dropWhile p)

/-- After `?`: a close tag, a null-safe arrow, or the character itself. -/
def afterQuestion : List Char → Reading
  | '>' :: cs =>
    let (html, rest) := skipHtml [] cs
    .ok (⟨'?' :: '>' :: html, some (.punctuation ';')⟩, rest)
  | '-' :: '>' :: cs => .ok (⟨['?', '-', '>'], some .arrow⟩, cs)
  | cs => punctuation '?' cs

/-- After `#`: an attribute or a line comment, neither a token. -/
def afterHash : List Char → Reading
  | '[' :: cs => (readAttribute 0 0 cs).map fun (text, rest) => (⟨'#' :: '[' :: text, none⟩, rest)
  | cs =>
    let (comment, rest) := lineComment cs
    .ok (⟨'#' :: comment, none⟩, rest)

/-- After `/`: a comment, or the character itself. A block comment that opens with `/**` is a
    documentation comment, but `/**/` is none. -/
def afterSlash : List Char → Reading
  | '/' :: cs =>
    let (comment, rest) := lineComment cs
    .ok (⟨'/' :: '/' :: comment, none⟩, rest)
  | '*' :: cs =>
    match blockComment cs with
    | none => .error (0, .unterminatedComment)
    | some (comment, rest) =>
      let text := '/' :: '*' :: comment
      let isDoc := cs.head? = some '*' && (cs.drop 1).head? ≠ some '/'
      .ok (⟨text, if isDoc then some (.docComment (String.ofList text)) else none⟩, rest)
  | cs => punctuation '/' cs

/-- After a quote: the literal up to its closing quote. -/
def quoted (quote : Char) (split : List Char → Option (List Char × List Char))
    (value : List Char → List Char) (cs : List Char) : Reading :=
  match split cs with
  | none => .error (0, .unterminatedString)
  | some (body, rest) =>
    .ok (⟨quote :: body ++ [quote], some (.string (String.ofList (value body)))⟩, rest)

/-- After `<`: a heredoc, or the character itself. -/
def afterLess : List Char → Reading
  | '<' :: '<' :: cs =>
    match readHeredoc cs with
    | .error fault => .error (0, fault)
    | .ok (value, rest) =>
      .ok (⟨'<' :: '<' :: '<' :: cs.take (cs.length - rest.length), some (.string value)⟩, rest)
  | cs => punctuation '<' cs

/-- After `$`: a variable, or the character itself. -/
def afterDollar (cs : List Char) : Reading :=
  if cs.head?.any fun c => isNameStart c && c != '\\' then
    (run isNameChar .variable cs).map fun (l, rest) => ({ l with text := '$' :: l.text }, rest)
  else punctuation '$' cs

/-- A character that makes an operator with `second`, or stands for itself. -/
def operator (first second : Char) (token : TokenKind) (cs : List Char) : Reading :=
  if cs.head? = some second then ofLength 2 (some token) (first :: cs) else punctuation first cs

/-- Reads the lexeme that starts with `c`, before the characters `cs`. -/
def next (c : Char) (cs : List Char) : Reading :=
  if Text.isBlank c then ofLength 1 none (c :: cs)
  else if c = '?' then afterQuestion cs
  else if c = '#' then afterHash cs
  else if c = '/' then afterSlash cs
  else if c = '\'' then quoted c (splitQuoted c) unquoteSingle cs
  else if c = '"' then quoted c (splitQuoted c) (decodeEscapes c) cs
  else if c = '\x60' then quoted c (splitRaw c) id cs
  else if c = '<' then afterLess cs
  else if c = '$' then afterDollar cs
  else if c.isDigit then run isNumberChar .number (c :: cs)
  else if isNameStart c then run isNameChar .name (c :: cs)
  else if c = '-' then operator c '>' .arrow cs
  else if c = ':' then operator c ':' .doubleColon cs
  else if c = '=' then operator c '>' .doubleArrow cs
  else punctuation c cs

theorem punctuation_eq_ok {c : Char} {cs rest : List Char} {l : Lexeme}
    (h : punctuation c cs = .ok (l, rest)) : l.text ++ rest = c :: cs ∧ l.text ≠ [] := by
  cases h; simp

theorem run_eq_ok {p : Char → Bool} {token : String → TokenKind} {cs rest : List Char} {l : Lexeme}
    (h : run p token cs = .ok (l, rest)) : l.text ++ rest = cs := by
  cases h; simp

theorem run_ne_nil {p : Char → Bool} {token : String → TokenKind} {c : Char} {cs rest : List Char}
    {l : Lexeme} (h : run p token (c :: cs) = .ok (l, rest)) (hp : p c = true) : l.text ≠ [] := by
  cases h; simp [hp]

theorem afterQuestion_eq_ok {cs rest : List Char} {l : Lexeme}
    (h : afterQuestion cs = .ok (l, rest)) : l.text ++ rest = '?' :: cs ∧ l.text ≠ [] := by
  unfold afterQuestion at h
  split at h
  · cases h
    simpa using skipHtml_append [] _
  · cases h; simp
  · exact punctuation_eq_ok h

theorem afterHash_eq_ok {cs rest : List Char} {l : Lexeme}
    (h : afterHash cs = .ok (l, rest)) : l.text ++ rest = '#' :: cs ∧ l.text ≠ [] := by
  unfold afterHash at h
  split at h
  · rename_i cs
    match ha : readAttribute 0 0 cs with
    | .error e => simp [ha, Except.map] at h
    | .ok (t, a) =>
      simp only [ha, Except.map] at h
      cases h
      simp [readAttribute_eq_ok ha]
  · cases h
    simp [lineComment_append]

theorem afterSlash_eq_ok {cs rest : List Char} {l : Lexeme}
    (h : afterSlash cs = .ok (l, rest)) : l.text ++ rest = '/' :: cs ∧ l.text ≠ [] := by
  unfold afterSlash at h
  split at h
  · cases h
    simp [lineComment_append]
  · split at h
    · simp at h
    · rename_i hb
      cases h
      simp [blockComment_eq_some hb]
  · exact punctuation_eq_ok h

theorem quoted_eq_ok {quote : Char} {split : List Char → Option (List Char × List Char)}
    {value : List Char → List Char} {cs rest : List Char} {l : Lexeme}
    (hs : ∀ {body after}, split cs = some (body, after) → body ++ quote :: after = cs)
    (h : quoted quote split value cs = .ok (l, rest)) :
    l.text ++ rest = quote :: cs ∧ l.text ≠ [] := by
  unfold quoted at h
  split at h
  · simp at h
  · rename_i hq
    cases h
    simp [← hs hq]

theorem afterLess_eq_ok {cs rest : List Char} {l : Lexeme}
    (h : afterLess cs = .ok (l, rest)) : l.text ++ rest = '<' :: cs ∧ l.text ≠ [] := by
  unfold afterLess at h
  split at h
  · split at h
    · simp at h
    · rename_i hr
      cases h
      simp [take_append_rest (readHeredoc_suffix hr)]
  · exact punctuation_eq_ok h

theorem afterDollar_eq_ok {cs rest : List Char} {l : Lexeme}
    (h : afterDollar cs = .ok (l, rest)) : l.text ++ rest = '$' :: cs ∧ l.text ≠ [] := by
  unfold afterDollar at h
  split at h
  · cases h
    simp
  · exact punctuation_eq_ok h

theorem operator_eq_ok {first second : Char} {token : TokenKind} {cs rest : List Char} {l : Lexeme}
    (h : operator first second token cs = .ok (l, rest)) :
    l.text ++ rest = first :: cs ∧ l.text ≠ [] := by
  unfold operator at h
  split at h
  · cases h
    cases cs <;> simp
  · exact punctuation_eq_ok h

/-- **A lexeme and the rest of the source are the source**, and a lexeme is not empty. -/
theorem next_eq_ok {c : Char} {cs rest : List Char} {l : Lexeme}
    (h : next c cs = .ok (l, rest)) : l.text ++ rest = c :: cs ∧ l.text ≠ [] := by
  unfold next at h
  by_cases hc : Text.isBlank c = true
  · rw [if_pos hc] at h; cases h; simp
  rw [if_neg hc] at h; clear hc
  by_cases hc : c = '?'
  · rw [if_pos hc] at h; subst hc; exact afterQuestion_eq_ok h
  rw [if_neg hc] at h; clear hc
  by_cases hc : c = '#'
  · rw [if_pos hc] at h; subst hc; exact afterHash_eq_ok h
  rw [if_neg hc] at h; clear hc
  by_cases hc : c = '/'
  · rw [if_pos hc] at h; subst hc; exact afterSlash_eq_ok h
  rw [if_neg hc] at h; clear hc
  by_cases hc : c = '\''
  · rw [if_pos hc] at h; exact quoted_eq_ok splitQuoted_eq_some h
  rw [if_neg hc] at h; clear hc
  by_cases hc : c = '"'
  · rw [if_pos hc] at h; exact quoted_eq_ok splitQuoted_eq_some h
  rw [if_neg hc] at h; clear hc
  by_cases hc : c = '\x60'
  · rw [if_pos hc] at h; exact quoted_eq_ok splitRaw_eq_some h
  rw [if_neg hc] at h; clear hc
  by_cases hc : c = '<'
  · rw [if_pos hc] at h; subst hc; exact afterLess_eq_ok h
  rw [if_neg hc] at h; clear hc
  by_cases hc : c = '$'
  · rw [if_pos hc] at h; subst hc; exact afterDollar_eq_ok h
  rw [if_neg hc] at h; clear hc
  by_cases hc : c.isDigit = true
  · rw [if_pos hc] at h
    exact ⟨run_eq_ok h, run_ne_nil h (by simp [isNumberChar, Char.isAlphanum, hc])⟩
  rw [if_neg hc] at h; clear hc
  by_cases hc : isNameStart c = true
  · rw [if_pos hc] at h; exact ⟨run_eq_ok h, run_ne_nil h (isNameChar_of_isNameStart hc)⟩
  rw [if_neg hc] at h; clear hc
  by_cases hc : c = '-'
  · rw [if_pos hc] at h; exact operator_eq_ok h
  rw [if_neg hc] at h; clear hc
  by_cases hc : c = ':'
  · rw [if_pos hc] at h; exact operator_eq_ok h
  rw [if_neg hc] at h; clear hc
  by_cases hc : c = '='
  · rw [if_pos hc] at h; exact operator_eq_ok h
  rw [if_neg hc] at h; clear hc
  exact punctuation_eq_ok h

theorem length_lt_of_next {c : Char} {cs rest : List Char} {l : Lexeme}
    (h : next c cs = .ok (l, rest)) : rest.length < (c :: cs).length := by
  obtain ⟨ht, hl⟩ := next_eq_ok h
  have := congrArg List.length ht
  have := List.length_pos_iff.2 hl
  simp only [List.length_append] at *
  omega

end Lexeme

/-- The tokens of source inside PHP tags that starts on the given line, after those already
    read (last first). -/
def tokensFrom (line : Nat) (done : List Token) (cs : List Char) :
    Except SyntaxError (List Token) :=
  match cs with
  | [] => .ok done.reverse
  | c :: cs =>
    match _h : Lexeme.next c cs with
    | .error (feeds, fault) => .error ⟨line + feeds, fault⟩
    | .ok (lexeme, rest) =>
      let read := lexeme.token?.toList.map (Token.mk · line)
      tokensFrom (line + lineFeeds lexeme.text) (read ++ done) rest
  termination_by cs.length
  decreasing_by exact Lexeme.length_lt_of_next _h

/-- The tokens of a file. What stands before the first open tag is skipped. -/
def tokenize (source : String) : Except SyntaxError (List Token) :=
  let (html, rest) := skipHtml [] source.toList
  tokensFrom (1 + lineFeeds html) [] rest

end PhpSharp.Php
