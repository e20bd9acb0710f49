/-
  Lexing undoes spelling: the text of a token, before anything that cannot belong to it, is
  read as that token, and what stands between tokens is read as nothing.

  * `Heads l rest`: the lexeme `l` is what is read first from its text with `rest` behind it;
  * `heads_spell`: it is, for the text of every token that a source can spell and every text behind
    it that it does not go on in (`Ends`);
  * `tokenize_joined`: written tokens that stand apart are read back, with their lines;
  * `tokenize_printed`: so is a printed list of tokens.
-/
import Mathlib.Tactic.SplitIfs
import PhpSharp.Proofs.Php.Spelling

namespace PhpSharp.Php

open Lexeme

/-! ## Literals -/

/-- **Unescaping undoes escaping**, in single quotes. -/
theorem unquoteSingle_escape (cs : List Char) : unquoteSingle (Quote.single.escape cs) = cs := by
  induction cs with
  | nil => rfl
  | cons c cs ih =>
    rw [Quote.escape, List.flatMap_cons, ← Quote.escape]
    by_cases hb : c = '\\'
    · simp [hb, unquoteSingle, ih]
    by_cases hq : c = '\''
    · simp [hq, Quote.char, unquoteSingle, ih]
    · rw [if_neg (by simp [hb, hq, Quote.char]), List.singleton_append, unquoteSingle, ih]
      all_goals intro _ h; exact absurd h hb

theorem decodeEscapes_plain {quote c : Char} (hc : c ≠ '\\') (cs : List Char) :
    decodeEscapes quote (c :: cs) = c :: decodeEscapes quote cs := by
  rw [decodeEscapes.eq_def]
  exact if_pos hc

theorem decodeEscapes_simple {quote c e : Char} (h : simpleEscape? quote c = some e)
    (cs : List Char) :
    decodeEscapes quote ('\\' :: c :: cs) = e :: decodeEscapes quote cs := by
  rw [decodeEscapes.eq_def]
  simp [h]

/-- Unescaping undoes escaping, in double quotes. -/
theorem decodeEscapes_escape (cs : List Char) :
    decodeEscapes '"' (Quote.double.escape cs) = cs := by
  induction cs with
  | nil => simp [Quote.escape, decodeEscapes]
  | cons c cs ih =>
    rw [Quote.escape, List.flatMap_cons, ← Quote.escape]
    by_cases hb : c = '\\'
    · rw [if_pos (.inl hb), hb]
      exact (decodeEscapes_simple rfl _).trans (congrArg _ ih)
    by_cases hq : c = '"'
    · rw [if_pos (.inr hq), hq]
      exact (decodeEscapes_simple rfl _).trans (congrArg _ ih)
    · rw [if_neg (by simp [hb, hq, Quote.char])]
      exact (decodeEscapes_plain hb _).trans (congrArg _ ih)

/-- An escaped text ends at the quote behind it. -/
theorem splitQuoted_escape (q : Quote) (cs rest : List Char) :
    splitQuoted q.char (q.escape cs ++ q.char :: rest) = some (q.escape cs, rest) := by
  have hq : '\\' ≠ q.char := by cases q <;> decide
  induction cs with
  | nil =>
    rw [splitQuoted.eq_def]
    exact if_pos rfl
  | cons c cs ih =>
    rw [Quote.escape, List.flatMap_cons, ← Quote.escape, List.append_assoc]
    by_cases hc : c = '\\' ∨ c = q.char
    · rw [if_pos hc]
      simp [splitQuoted, hq, ih]
    · obtain ⟨hb, hq'⟩ := not_or.1 hc
      rw [if_neg hc, List.singleton_append, splitQuoted.eq_def]
      simp [hb, hq', ih]

/-! ## Comments -/

/-- A block comment ends at the first `*/`. -/
theorem blockComment_append {body : List Char} (h : IsBlockBody body) (rest : List Char) :
    blockComment (body ++ '*' :: '/' :: rest) = some (body ++ ['*', '/'], rest) := by
  induction body with
  | nil => simp [blockComment]
  | cons c body ih =>
    have hend : ¬(c = '*' ∧ (body ++ '*' :: '/' :: rest).head? = some '/') := by
      rintro ⟨rfl, hslash⟩
      refine h ?_
      cases body with
      | nil => simp at hslash
      | cons d body =>
        obtain rfl : d = '/' := by simpa using hslash
        exact ⟨[], body ++ ['*'], rfl⟩
    have hbody : IsBlockBody body := fun hi => h (hi.trans (List.suffix_cons _ _).isInfix)
    rw [List.cons_append, blockComment, if_neg (by simpa using hend), ih hbody]
    rfl

/-- A line comment ends at the line feed. -/
theorem lineComment_append_feed {body : List Char} (h : IsLineBody body) (rest : List Char) :
    lineComment (body ++ '\n' :: rest) = (body, '\n' :: rest) := by
  induction body with
  | nil => simp [lineComment]
  | cons c body ih =>
    obtain ⟨hfeed, htag⟩ := h
    have htag' : ¬(c = '?' ∧ (body ++ '\n' :: rest).head? = some '>') := by
      rintro ⟨rfl, hangle⟩
      refine htag ?_
      cases body with
      | nil => simp at hangle
      | cons d body =>
        obtain rfl : d = '>' := by simpa using hangle
        exact ⟨[], body, rfl⟩
    have hbody : IsLineBody body := ⟨fun hm => hfeed (by simp [hm]),
      fun hi => htag (hi.trans (List.suffix_cons _ _).isInfix)⟩
    have hc : c ≠ '\n' := fun hc => hfeed (by simp [hc])
    rw [List.cons_append, lineComment, if_neg (by simpa [hc] using htag'), ih hbody]

/-! ## Lexemes -/

/-- The lexeme is what is read first from its text with `rest` behind it. -/
def Heads (l : Lexeme) (rest : List Char) : Prop :=
  ∃ c cs, l.text = c :: cs ∧ next c (cs ++ rest) = .ok (l, rest)

theorem tokensFrom_nil (line : Nat) (done : List Token) :
    tokensFrom line done [] = .ok done.reverse := by
  rw [tokensFrom.eq_def]

/-- What is read first goes in front, with the line it starts on. -/
theorem tokensFrom_heads {l : Lexeme} {rest : List Char} (h : Heads l rest) (line : Nat)
    (done : List Token) :
    tokensFrom line done (l.text ++ rest) =
      tokensFrom (line + lineFeeds l.text) (l.token?.toList.map (⟨·, line⟩) ++ done) rest := by
  obtain ⟨c, cs, htext, hnext⟩ := h
  rw [htext, List.cons_append, tokensFrom.eq_def]
  simp only
  split
  · rename_i h'
    rw [hnext] at h'; cases h'
  · rename_i h'
    rw [hnext] at h'; cases h'
    rw [htext]

theorem takeWhile_append_stop {p : Char → Bool} {cs rest : List Char} (h : cs.all p = true)
    (hr : rest.head?.any p = false) : (cs ++ rest).takeWhile p = cs := by
  rw [List.takeWhile_append_of_pos (by simpa using h)]
  cases rest with
  | nil => simp
  | cons c rest => simp_all

theorem dropWhile_append_stop {p : Char → Bool} {cs rest : List Char} (h : cs.all p = true)
    (hr : rest.head?.any p = false) : (cs ++ rest).dropWhile p = rest := by
  rw [List.dropWhile_append_of_pos (by simpa using h)]
  cases rest with
  | nil => rfl
  | cons c rest => simp_all

/-- A run ends where another character stands. -/
theorem run_append {p : Char → Bool} (token : String → TokenKind) {cs rest : List Char}
    (h : cs.all p = true) (hr : rest.head?.any p = false) :
    run p token (cs ++ rest) = .ok (⟨cs, some (token (String.ofList cs))⟩, rest) := by
  rw [run, takeWhile_append_stop h hr, dropWhile_append_stop h hr]

theorem toNat_of_isAlpha {c : Char} (h : c.isAlpha = true) :
    (65 ≤ c.toNat ∧ c.toNat ≤ 90) ∨ (97 ≤ c.toNat ∧ c.toNat ≤ 122) := by
  rcases Bool.or_eq_true_iff.1 h with hu | hl
  · exact .inl (of_decide_eq_true hu)
  · obtain ⟨h₁, h₂⟩ := Bool.and_eq_true_iff.1 hl
    exact .inr ⟨of_decide_eq_true h₁, of_decide_eq_true h₂⟩

theorem isDigit_of_isNameStart {c : Char} (h : isNameStart c = true) : c.isDigit = false := by
  rw [← Bool.not_eq_true, Char.isDigit_iff_toNat]
  rintro ⟨h₁, h₂⟩
  have h₁ : 48 ≤ c.toNat := h₁
  have h₂ : c.toNat ≤ 57 := h₂
  simp only [isNameStart, Bool.or_eq_true, beq_iff_eq, decide_eq_true_eq] at h
  rcases h with ((h | rfl) | rfl) | h
  · have := toNat_of_isAlpha h
    omega
  · exact absurd h₂ (by decide)
  · exact absurd h₂ (by decide)
  · omega

theorem toNat_of_isAlphanum {c : Char} (h : c.isAlphanum = true) :
    (48 ≤ c.toNat ∧ c.toNat ≤ 57) ∨ (65 ≤ c.toNat ∧ c.toNat ≤ 90) ∨
      (97 ≤ c.toNat ∧ c.toNat ≤ 122) := by
  rcases Bool.or_eq_true_iff.1 h with ha | hd
  · exact .inr (toNat_of_isAlpha ha)
  · exact .inl (Char.isDigit_iff_toNat.1 hd)

theorem isBlank_of_isAlphanum {c : Char} (h : c.isAlphanum = true) : Text.isBlank c = false := by
  have hc := toNat_of_isAlphanum h
  simp only [Text.isBlank, Bool.or_eq_false_iff, Bool.and_eq_false_iff, decide_eq_false_iff_not,
    beq_eq_false_iff_ne, ne_eq]
  omega

theorem mem_of_isAsciiBlank {c : Char} (h : isAsciiBlank c = true) :
    c ∈ ['\t', '\n', '\x0b', '\x0c', '\r', ' '] := by
  have hc : c.toNat = 9 ∨ c.toNat = 10 ∨ c.toNat = 11 ∨ c.toNat = 12 ∨ c.toNat = 13 ∨
      c.toNat = 32 := by
    simp only [isAsciiBlank, Text.isBlank, Bool.and_eq_true, Bool.or_eq_true, decide_eq_true_eq,
      beq_iff_eq] at h
    omega
  rw [← Char.ofNat_toNat c]
  rcases hc with hc | hc | hc | hc | hc | hc <;> rw [hc] <;> decide

/-- A blank ends every word and every number. -/
theorem isNameChar_of_isAsciiBlank {c : Char} (h : isAsciiBlank c = true) :
    isNameChar c = false ∧ isNumberChar c = false := by
  have hc := mem_of_isAsciiBlank h
  simp only [List.mem_cons, List.not_mem_nil, or_false] at hc
  rcases hc with rfl | rfl | rfl | rfl | rfl | rfl <;> decide

/-- Whether a character starts a lexeme of its own sort. -/
def isLeader (c : Char) : Bool := ['?', '#', '/', '\'', '"', '\x60', '<', '$'].contains c

/-- What starts no lexeme of its own sort starts a number, a name or an operator. -/
theorem next_of_not_isLeader {c : Char} (hb : Text.isBlank c = false) (hl : isLeader c = false)
    (cs : List Char) : next c cs =
      if c.isDigit then run isNumberChar .number (c :: cs)
      else if isNameStart c then run isNameChar .name (c :: cs)
      else if c = '-' then operator c '>' .arrow cs
      else if c = ':' then operator c ':' .doubleColon cs
      else if c = '=' then operator c '>' .doubleArrow cs
      else punctuation c cs := by
  simp [isLeader] at hl
  simp [next, hb, hl]

theorem isLeader_eq_false {c : Char} (h : c.isDigit = true ∨ isNameStart c = true) :
    isLeader c = false := by
  rw [← Bool.not_eq_true]
  intro hl
  simp only [isLeader, List.contains_cons, List.contains_nil, Bool.or_false, Bool.or_eq_true,
    beq_iff_eq] at hl
  rcases hl with rfl | rfl | rfl | rfl | rfl | rfl | rfl | rfl <;> revert h <;> decide

theorem all_of_isNameText {cs : List Char} (h : isNameText cs = true) :
    cs.all isNameChar = true := by
  cases cs with
  | nil => rfl
  | cons c cs =>
    simp only [isNameText, Bool.and_eq_true] at h
    simp [isNameChar_of_isNameStart h.1.2, h.2]

theorem heads_name {text : String} {rest : List Char} (h : isNameText text.toList = true)
    (hr : rest.head?.any isNameChar = false) :
    Heads ⟨text.toList, some (.name text)⟩ rest := by
  match ht : text.toList with
  | [] => simp [ht, isNameText] at h
  | c :: cs =>
    rw [ht] at h
    have hall := all_of_isNameText h
    simp only [isNameText, Bool.and_eq_true, Bool.not_eq_true'] at h
    obtain ⟨⟨hblank, hstart⟩, -⟩ := h
    have hrun := run_append .name hall hr
    rw [← ht, String.ofList_toList] at hrun
    refine ⟨c, cs, rfl, ?_⟩
    rw [next_of_not_isLeader hblank (isLeader_eq_false (.inr hstart)),
      if_neg (by simp [isDigit_of_isNameStart hstart]), if_pos hstart]
    simpa [ht] using hrun

theorem heads_variable {text : String} {rest : List Char} (h : isNameText text.toList = true)
    (hb : text.toList.head? ≠ some '\\') (hr : rest.head?.any isNameChar = false) :
    Heads ⟨'$' :: text.toList, some (.variable text)⟩ rest := by
  refine ⟨'$', text.toList, rfl, ?_⟩
  match ht : text.toList with
  | [] => simp [ht, isNameText] at h
  | c :: cs =>
    rw [ht] at h
    have hall := all_of_isNameText h
    simp only [isNameText, Bool.and_eq_true, Bool.not_eq_true'] at h
    obtain ⟨⟨hblank, hstart⟩, -⟩ := h
    have hrun := run_append .variable hall hr
    rw [← ht, String.ofList_toList, ht] at hrun
    have hc : c ≠ '\\' := by simpa [ht] using hb
    have hdollar : next '$' ((c :: cs) ++ rest) = afterDollar ((c :: cs) ++ rest) := rfl
    rw [hdollar, afterDollar, if_pos (by simp [hstart, hc]), hrun]
    rfl

theorem heads_number {text : String} {rest : List Char} (h : isNumberText text.toList = true)
    (hr : rest.head?.any isNumberChar = false) :
    Heads ⟨text.toList, some (.number text)⟩ rest := by
  match ht : text.toList with
  | [] => simp [ht, isNumberText] at h
  | c :: cs =>
    simp only [ht, isNumberText, Bool.and_eq_true] at h
    obtain ⟨hdigit, hchars⟩ := h
    have hall : (c :: cs).all isNumberChar = true := by
      simp [isNumberChar, Char.isAlphanum, hdigit, hchars]
    have hrun := run_append .number hall hr
    rw [← ht, String.ofList_toList] at hrun
    have hblank : Text.isBlank c = false :=
      isBlank_of_isAlphanum (by simp [Char.isAlphanum, hdigit])
    refine ⟨c, cs, rfl, ?_⟩
    rw [next_of_not_isLeader hblank (isLeader_eq_false (.inl hdigit)), if_pos hdigit]
    simpa [ht] using hrun

theorem quoted_escape (q : Quote) (value : List Char → List Char) (cs rest : List Char) :
    quoted q.char (splitQuoted q.char) value (q.escape cs ++ q.char :: rest) =
      .ok (⟨q.char :: q.escape cs ++ [q.char],
        some (.string (String.ofList (value (q.escape cs))))⟩, rest) := by
  rw [quoted, splitQuoted_escape]

theorem heads_string (q : Quote) (value : String) (rest : List Char) :
    Heads ⟨q.char :: q.escape value.toList ++ [q.char], some (.string value)⟩ rest := by
  refine ⟨q.char, q.escape value.toList ++ [q.char], rfl, ?_⟩
  rw [List.append_assoc, List.singleton_append]
  cases q with
  | single =>
    have h := quoted_escape .single unquoteSingle value.toList rest
    rw [unquoteSingle_escape, String.ofList_toList] at h
    exact h
  | double =>
    have h := quoted_escape .double (decodeEscapes '"') value.toList rest
    rw [decodeEscapes_escape, String.ofList_toList] at h
    exact h

/-- Behind its `/*`, the text of a documentation comment is a body and `*/`. -/
theorem IsDocText.body {cs : List Char} (h : IsDocText cs) : ∃ body,
    cs = '/' :: '*' :: '*' :: (body ++ ['*', '/']) ∧ IsBlockBody ('*' :: body) := by
  obtain ⟨⟨r, rfl⟩, hfourth, ⟨s, hs⟩, honce⟩ := h
  match s with
  | [] | [_] => simp at hs
  | [_, _] =>
    obtain ⟨rfl, rfl, rfl⟩ : _ ∧ _ ∧ _ := by simpa using hs
    simp at hfourth
  | a :: b :: d :: body =>
    obtain ⟨rfl, rfl, rfl, rfl⟩ : _ ∧ _ ∧ _ ∧ _ := by simpa using hs
    refine ⟨body, rfl, ?_⟩
    have hlast : ('*' :: body ++ ['*', '/']).dropLast = '*' :: body ++ ['*'] := by
      rw [List.dropLast_append_cons]
      rfl
    rw [IsBlockBody, ← hlast]
    simpa using honce

theorem heads_docComment {text : String} (h : IsDocText text.toList) (rest : List Char) :
    Heads ⟨text.toList, some (.docComment text)⟩ rest := by
  obtain ⟨body, ht, hbody⟩ := h.body
  refine ⟨'/', '*' :: '*' :: (body ++ ['*', '/']), ht, ?_⟩
  have hcomment := blockComment_append hbody rest
  have hdoc : (('*' :: body ++ '*' :: '/' :: rest).head? = some '*' &&
      (('*' :: body ++ '*' :: '/' :: rest).drop 1).head? ≠ some '/') = true := by
    cases body with
    | nil => simp
    | cons d body =>
      have hd : d ≠ '/' := by
        rintro rfl
        exact hbody ⟨[], body ++ ['*'], rfl⟩
      simp [hd]
  have hslash : next '/' ('*' :: '*' :: (body ++ ['*', '/']) ++ rest) =
      afterSlash ('*' :: ('*' :: body ++ '*' :: '/' :: rest)) := by
    simp only [List.cons_append, List.append_assoc]
    rfl
  rw [hslash]
  simp only [afterSlash, hcomment, hdoc, if_true]
  simp [← ht]

/-- Whether a mark and what follows it start something longer: an operator, a comment, a close tag,
    a heredoc or a variable. -/
def startsLonger (c : Char) (rest : List Char) : Bool :=
  match c with
  | '-' | '=' => rest.head? == some '>'
  | ':' => rest.head? == some ':'
  | '/' => rest.head? == some '/' || rest.head? == some '*'
  | '?' => rest.head? == some '>' || ['-', '>'].isPrefixOf rest
  | '<' => ['<', '<'].isPrefixOf rest
  | '$' => rest.head?.any fun d => isNameStart d && d != '\\'
  | _ => false

/-- A mark that starts nothing longer is a token of its own. -/
theorem next_punctuation {c : Char} {rest : List Char} (h : isMark c = true)
    (hr : startsLonger c rest = false) : next c rest = punctuation c rest := by
  simp only [isMark, Bool.and_eq_true, Bool.not_eq_true'] at h
  obtain ⟨⟨⟨hblank, hdigit⟩, hstart⟩, hother⟩ := h
  by_cases hc : c = '?'
  · subst hc
    show afterQuestion rest = _
    unfold afterQuestion
    split <;> simp_all [startsLonger]
  by_cases hc : c = '/'
  · subst hc
    show afterSlash rest = _
    unfold afterSlash
    split <;> simp_all [startsLonger]
  by_cases hc : c = '<'
  · subst hc
    show afterLess rest = _
    unfold afterLess
    split <;> simp_all [startsLonger]
  by_cases hc : c = '$'
  · subst hc
    exact if_neg (Bool.eq_false_iff.1 hr)
  have hleader : isLeader c = false := by
    simp_all [isLeader]
  have hoperator : ∀ second token, (rest.head? == some second) = false →
      operator c second token rest = punctuation c rest := fun second token hsecond =>
    if_neg (by simpa using hsecond)
  rw [next_of_not_isLeader hblank hleader, if_neg (by simp [hdigit]), if_neg (by simp [hstart])]
  by_cases hminus : c = '-'
  · subst hminus
    exact hoperator '>' _ hr
  by_cases hcolon : c = ':'
  · subst hcolon
    exact hoperator ':' _ hr
  by_cases hequal : c = '='
  · subst hequal
    exact hoperator '>' _ hr
  rw [if_neg hminus, if_neg hcolon, if_neg hequal]

theorem heads_punctuation {c : Char} {rest : List Char} (h : isMark c = true)
    (hr : startsLonger c rest = false) : Heads ⟨[c], some (.punctuation c)⟩ rest :=
  ⟨c, [], rfl, next_punctuation h hr⟩

/-- Whether a token does not go on in what follows it. -/
def Ends : TokenKind → List Char → Prop
  | .name _, rest | .variable _, rest => rest.head?.any isNameChar = false
  | .number _, rest => rest.head?.any isNumberChar = false
  | .punctuation c, rest => startsLonger c rest = false
  | _, _ => True

instance : (kind : TokenKind) → (rest : List Char) → Decidable (Ends kind rest)
  | .name _, rest | .variable _, rest =>
    inferInstanceAs (Decidable (rest.head?.any isNameChar = false))
  | .number _, rest => inferInstanceAs (Decidable (rest.head?.any isNumberChar = false))
  | .punctuation c, rest => inferInstanceAs (Decidable (startsLonger c rest = false))
  | .string _, _ | .docComment _, _ | .arrow, _ | .doubleColon, _ | .doubleArrow, _ =>
    .isTrue trivial

/-- **Lexing undoes spelling.** The text of a token is read as that token if what follows cannot
    belong to it. -/
theorem heads_spell {kind : TokenKind} (h : kind.Valid) (q : Quote) {rest : List Char}
    (hr : Ends kind rest) : Heads ⟨kind.spell q, some kind⟩ rest := by
  match kind, h, hr with
  | .name _, h, hr => exact heads_name h hr
  | .variable _, h, hr => exact heads_variable h.1 h.2 hr
  | .string value, _, _ => exact heads_string q value rest
  | .number _, h, hr => exact heads_number h hr
  | .docComment _, h, _ => exact heads_docComment h rest
  | .arrow, _, _ => exact ⟨'-', ['>'], rfl, rfl⟩
  | .doubleColon, _, _ => exact ⟨':', [':'], rfl, rfl⟩
  | .doubleArrow, _, _ => exact ⟨'=', ['>'], rfl, rfl⟩
  | .punctuation _, h, hr => exact heads_punctuation h hr

theorem tokensFrom_spell {kind : TokenKind} (h : kind.Valid) (q : Quote) {rest : List Char}
    (hr : Ends kind rest) (line : Nat) (done : List Token) :
    tokensFrom line done (kind.spell q ++ rest) =
      tokensFrom (line + lineFeeds (kind.spell q)) (⟨kind, line⟩ :: done) rest :=
  tokensFrom_heads (heads_spell h q hr) line done

theorem startsLonger_blank (c : Char) {d : Char} (hd : isAsciiBlank d = true) (rest : List Char) :
    startsLonger c (d :: rest) = false := by
  have hne : ∀ e, isAsciiBlank e = false → d ≠ e ∧ e ≠ d := by
    intro e he
    refine ⟨?_, ?_⟩ <;> rintro rfl <;> exact absurd hd (by simp [he])
  have hname : isNameStart d = false := Bool.eq_false_iff.2 fun hstart => by
    simpa [(isNameChar_of_isAsciiBlank hd).1] using isNameChar_of_isNameStart hstart
  unfold startsLonger
  split <;> simp [List.isPrefixOf, hname, hne '>' rfl, hne ':' rfl, hne '/' rfl, hne '*' rfl,
    hne '-' rfl, hne '<' rfl]

/-- A blank ends every token. -/
theorem ends_blank (kind : TokenKind) {c : Char} (hc : isAsciiBlank c = true) (rest : List Char) :
    Ends kind (c :: rest) := by
  obtain ⟨hname, hnumber⟩ := isNameChar_of_isAsciiBlank hc
  cases kind <;> simp [Ends, hname, hnumber, startsLonger_blank _ hc]

/-! ## Separators -/

theorem tokensFrom_blank {c : Char} (hc : Text.isBlank c = true) (line : Nat) (done : List Token)
    (rest : List Char) :
    tokensFrom line done (c :: rest) = tokensFrom (line + lineFeeds [c]) done rest :=
  tokensFrom_heads (l := ⟨[c], none⟩) ⟨c, [], rfl, by simp [next, hc, ofLength]⟩ line done

theorem heads_block {body : List Char} (h : IsBlockBody body) (hp : body.head? ≠ some '*')
    (rest : List Char) : Heads ⟨'/' :: '*' :: body ++ ['*', '/'], none⟩ rest := by
  refine ⟨'/', '*' :: body ++ ['*', '/'], rfl, ?_⟩
  have hcomment := blockComment_append h rest
  have hdoc : ((body ++ '*' :: '/' :: rest).head? = some '*' &&
      ((body ++ '*' :: '/' :: rest).drop 1).head? ≠ some '/') = false := by
    cases body with
    | nil => simp
    | cons d body =>
      have hd : d ≠ '*' := by simpa using hp
      simp [hd]
  have hslash : next '/' ('*' :: body ++ ['*', '/'] ++ rest) =
      afterSlash ('*' :: (body ++ '*' :: '/' :: rest)) := by
    simp only [List.cons_append, List.append_assoc]
    rfl
  rw [hslash]
  simp only [afterSlash, hcomment, hdoc]
  simp

theorem heads_slashes {body : List Char} (h : IsLineBody body) (rest : List Char) :
    Heads ⟨'/' :: '/' :: body, none⟩ ('\n' :: rest) := by
  refine ⟨'/', '/' :: body, rfl, ?_⟩
  show afterSlash ('/' :: (body ++ '\n' :: rest)) = _
  rw [afterSlash, lineComment_append_feed h]

theorem heads_hash {body : List Char} (h : IsLineBody body) (hp : body.head? ≠ some '[')
    (rest : List Char) : Heads ⟨'#' :: body, none⟩ ('\n' :: rest) := by
  refine ⟨'#', body, rfl, ?_⟩
  show afterHash (body ++ '\n' :: rest) = _
  have hcomment := lineComment_append_feed h rest
  unfold afterHash
  split
  · rename_i hc
    cases body <;> simp_all
  · rw [hcomment]

/-- What stands between tokens is read as nothing; its line feeds count. -/
theorem tokensFrom_separator (s : Separator) (line : Nat) (done : List Token) (rest : List Char) :
    tokensFrom line done (s.text ++ rest) = tokensFrom (line + lineFeeds s.text) done rest := by
  have hfeed : Text.isBlank '\n' = true := rfl
  cases s with
  | blank c h => exact tokensFrom_blank h line done rest
  | block body h plain => exact tokensFrom_heads (heads_block h plain rest) line done
  | slashes body h =>
    have hh := tokensFrom_heads (heads_slashes h rest) line done
    rw [tokensFrom_blank hfeed] at hh
    simpa [Separator.text, lineFeeds, Nat.add_assoc] using hh
  | hash body h plain =>
    have hh := tokensFrom_heads (heads_hash h plain rest) line done
    rw [tokensFrom_blank hfeed] at hh
    simpa [Separator.text, lineFeeds, Nat.add_assoc] using hh

theorem lineFeeds_append (cs ds : List Char) : lineFeeds (cs ++ ds) = lineFeeds cs + lineFeeds ds :=
  List.count_append

theorem tokensFrom_separators (ss : List Separator) (line : Nat) (done : List Token)
    (rest : List Char) :
    tokensFrom line done (ss.flatMap Separator.text ++ rest) =
      tokensFrom (line + lineFeeds (ss.flatMap Separator.text)) done rest := by
  induction ss generalizing line with
  | nil => rfl
  | cons s ss ih =>
    rw [List.flatMap_cons, List.append_assoc, tokensFrom_separator, ih, lineFeeds_append,
      Nat.add_assoc]

/-! ## Sources -/

/-- No token goes on in what stands behind it. -/
def Apart : List WrittenToken → Prop
  | [] => True
  | t :: ts => Ends t.kind (t.behind.flatMap Separator.text ++ joined ts) ∧ Apart ts

instance Apart.instDecidable : DecidablePred Apart
  | [] => .isTrue trivial
  | _ :: ts => @instDecidableAnd _ _ inferInstance (Apart.instDecidable ts)

/-- What written tokens are read as if the first is on a line. -/
def placed (line : Nat) : List WrittenToken → List Token
  | [] => []
  | t :: ts => ⟨t.kind, line⟩ :: placed (line + lineFeeds t.text) ts

@[simp] theorem placed_kinds (line : Nat) (ts : List WrittenToken) :
    (placed line ts).map Token.kind = ts.map WrittenToken.kind := by
  induction ts generalizing line with
  | nil => rfl
  | cons t ts ih => simp [placed, ih]

/-- A written token is read with what stands behind it. -/
theorem tokensFrom_written (t : WrittenToken) {rest : List Char}
    (h : Ends t.kind (t.behind.flatMap Separator.text ++ rest)) (line : Nat) (done : List Token) :
    tokensFrom line done (t.text ++ rest) =
      tokensFrom (line + lineFeeds t.text) (⟨t.kind, line⟩ :: done) rest := by
  rw [WrittenToken.text, List.append_assoc, tokensFrom_spell t.valid t.quote h,
    tokensFrom_separators, lineFeeds_append, Nat.add_assoc]

theorem tokensFrom_joined {ts : List WrittenToken} (h : Apart ts) (line : Nat)
    (done : List Token) :
    tokensFrom line done (joined ts) = .ok (done.reverse ++ placed line ts) := by
  induction ts generalizing line done with
  | nil => simp [joined, placed, tokensFrom_nil]
  | cons t ts ih =>
    obtain ⟨hends, hapart⟩ := h
    have ih := ih hapart (line + lineFeeds t.text) (⟨t.kind, line⟩ :: done)
    rw [joined, List.flatMap_cons, ← joined, tokensFrom_written t hends, ih]
    simp [placed]

/-- Behind the open tag, a source is read from its first line on. -/
theorem tokenize_php (cs : List Char) :
    tokenize (String.ofList ("<?php".toList ++ cs)) = tokensFrom 1 [] cs := by
  have htag : skipHtml [] ("<?php".toList ++ cs) = ("<?php".toList, cs) := by
    simp [skipHtml, openTag?, Text.sameLetters]
  rw [tokenize, String.toList_ofList, htag]
  rfl

theorem tokenize_openTag (cs : List Char) :
    tokenize ("<?php " ++ String.ofList cs) = tokensFrom 1 [] cs := by
  have htag : "<?php " ++ String.ofList cs = String.ofList ("<?php".toList ++ ' ' :: cs) :=
    String.toList_inj.1 (by simp)
  rw [htag, tokenize_php]
  exact tokensFrom_blank rfl 1 [] cs

/-- **Tokens that stand apart are read back**, with their lines. -/
theorem tokenize_joined (front : List Separator) {ts : List WrittenToken} (h : Apart ts) :
    tokenize ("<?php" ++ String.ofList (front.flatMap Separator.text ++ joined ts)) =
      .ok (placed (1 + lineFeeds (front.flatMap Separator.text)) ts) := by
  rw [← String.ofList_toList (s := "<?php"), ← String.ofList_append, tokenize_php,
    tokensFrom_separators, tokensFrom_joined h]
  rfl

/-- Tokens with gaps behind them stand apart. -/
theorem apart_spelled (ts : List Spelled) : Apart (ts.map Spelled.written) := by
  induction ts with
  | nil => trivial
  | cons t ts ih => exact ⟨ends_blank t.kind t.gap.isAscii _, ih⟩

/-- **Lexing undoes printing.** Whatever tokens are printed, with whatever stands between them, a
    source that consists of them has exactly their kinds, in order. -/
theorem tokenize_printed (ts : List Spelled) :
    (tokenize ("<?php " ++ String.ofList (printed ts))).map (List.map Token.kind) =
      .ok (ts.map Spelled.kind) := by
  rw [tokenize_openTag, ← joined_written, tokensFrom_joined (apart_spelled ts)]
  simp [Except.map, Spelled.written]

/-- A text without question marks has no open tag. -/
theorem skipHtml_of_not_mem {cs : List Char} (h : '?' ∉ cs) (skipped : List Char) :
    skipHtml skipped cs = (skipped.reverse ++ cs, []) := by
  induction cs generalizing skipped with
  | nil => simp [skipHtml]
  | cons c cs ih =>
    have hnone : openTag? (c :: cs) = none := by
      unfold openTag?
      split
      · rename_i heq
        rw [heq] at h
        simp at h
      · rfl
    rw [skipHtml, hnone]
    simp only
    rw [ih (fun hm => h (List.mem_cons_of_mem _ hm)), List.reverse_cons, List.append_assoc,
      List.singleton_append]

/-- A file without question marks has no tokens. -/
theorem tokenize_of_not_mem {source : String} (h : '?' ∉ source.toList) :
    tokenize source = .ok [] := by
  rw [tokenize, skipHtml_of_not_mem h]
  exact tokensFrom_nil _ _

end PhpSharp.Php
