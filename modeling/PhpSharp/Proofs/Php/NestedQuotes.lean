/-
  Double-quoted literals with expressions in them, and where the lexer ends them.

  * `Written.Interpolated`: texts of literals, with code in braces, in which brackets nest and
    literals stand again;
  * `Frees`: the texts with a quote in their code that no backslash stands before, as every nested
    literal has;
  * `Arrives.literal_isWhole`: a literal is one token, except that the first such quote ends it; and
    what the token holds changes nothing else in the file.
-/
import PhpSharp.Proofs.Php.Escapes
import PhpSharp.Proofs.Php.Rewording

namespace PhpSharp.Php

/-! ## Quotes in a text -/

/-- A text with a quote in it that ends a literal. -/
def EndsWithin (quote : Char) (cs : List Char) : Prop :=
  ∃ front back, cs = front ++ quote :: back ∧ StaysOpen quote front

section
variable {quote : Char} {cs ds : List Char}

theorem EndsWithin.append (h : EndsWithin quote cs) (ds : List Char) :
    EndsWithin quote (cs ++ ds) := by
  obtain ⟨front, back, rfl, hopen⟩ := h
  exact ⟨front, back ++ ds, by simp, hopen⟩

theorem EndsWithin.behind (h : EndsWithin quote ds) (hopen : StaysOpen quote cs) :
    EndsWithin quote (cs ++ ds) := by
  obtain ⟨front, back, rfl, hfront⟩ := h
  exact ⟨cs ++ front, back, by simp, hopen.append hfront⟩

/-- A literal goes on behind a text or ends in it, unless the text ends in an open escape. -/
theorem staysOpen_or_endsWithin (quote : Char) (h : cs.getLast? ≠ some '\\') :
    StaysOpen quote cs ∨ EndsWithin quote cs := by
  fun_induction splitQuoted quote cs with
  | case1 => exact .inl .nil
  | case2 cs => exact .inr ⟨[], cs, rfl, .nil⟩
  | case3 => exact absurd rfl h
  | case4 d ds _ ih =>
    have hds : ds.getLast? ≠ some '\\' := by
      cases ds with
      | nil => simp
      | cons e ds => simpa using h
    have hescape : StaysOpen quote ['\\', d] := .escape d .nil
    exact (ih hds).imp (.escape d) fun hends => hends.behind hescape
  | case5 c cs hq hb ih =>
    have hcs : cs.getLast? ≠ some '\\' := by
      cases cs with
      | nil => simp
      | cons e cs => simpa using h
    have hchar : StaysOpen quote [c] := .char hq hb .nil
    exact (ih hcs).imp (.char hq hb) fun hends => hends.behind hchar

/-- A literal ends within a text if `p` holds, and goes on behind it otherwise. -/
structure EndsWithinIff (quote : Char) (cs : List Char) (p : Prop) : Prop where
  endsWithin : p → EndsWithin quote cs
  staysOpen : ¬p → StaysOpen quote cs

theorem StaysOpen.never (h : StaysOpen quote cs) : EndsWithinIff quote cs False :=
  ⟨False.elim, fun _ => h⟩

theorem EndsWithinIff.append {p q : Prop} (h : EndsWithinIff quote cs p)
    (h' : EndsWithinIff quote ds q) : EndsWithinIff quote (cs ++ ds) (p ∨ q) := by
  constructor
  · intro hpq
    by_cases hp : p
    · exact (h.endsWithin hp).append ds
    · exact (h'.endsWithin (hpq.resolve_left hp)).behind (h.staysOpen hp)
  · intro hpq
    obtain ⟨hp, hq⟩ := not_or.1 hpq
    exact (h.staysOpen hp).append (h'.staysOpen hq)

/-- What stands behind an open text decides alone. -/
theorem EndsWithinIff.behind {p : Prop} (h : EndsWithinIff quote ds p)
    (hopen : StaysOpen quote cs) : EndsWithinIff quote (cs ++ ds) p := by
  simpa using hopen.never.append h

theorem endsWithinIff_of_whole (quote : Char) (h : cs.getLast? ≠ some '\\') :
    EndsWithinIff quote cs ¬StaysOpen quote cs :=
  ⟨fun hends => (staysOpen_or_endsWithin quote h).resolve_left hends, not_not.1⟩

theorem Bracket.opening_staysOpen (b : Bracket) : StaysOpen '"' [b.opening] := by
  cases b <;> exact .char (by decide) (by decide) .nil

theorem Bracket.closing_staysOpen (b : Bracket) : StaysOpen '"' [b.closing] := by
  cases b <;> exact .char (by decide) (by decide) .nil

end

/-! ## Literals with expressions -/

namespace Written

/-- Where a part of a literal stands. -/
inductive Place
  /-- Between the quotes -/
  | quotes
  /-- In the code of an expression -/
  | code

/-- What opens an expression. -/
inductive ExpressionOpening
  /-- `{$` -/
  | brace
  /-- `${` -/
  | dollar

def ExpressionOpening.text : ExpressionOpening → List Char
  | brace => ['{', '$']
  | dollar => ['$', '{']

theorem ExpressionOpening.text_staysOpen (o : ExpressionOpening) : StaysOpen '"' o.text := by
  cases o <;> exact .char (by decide) (by decide) (.char (by decide) (by decide) .nil)

/-- The text of a double-quoted literal from some place on, or the code of an expression in it. -/
inductive Interpolated : Place → Type
  | nil {place : Place} : Interpolated place
  /-- A character that stands for itself -/
  | char (c : Char) (quote : c ≠ '"') (backslash : c ≠ '\\') (more : Interpolated .quotes) :
      Interpolated .quotes
  /-- A backslash and the character that it escapes, which may be a quote -/
  | escape (c : Char) (more : Interpolated .quotes) : Interpolated .quotes
  /-- `{$ … }` -/
  | expression (opening : ExpressionOpening) (code : Interpolated .code)
      (more : Interpolated .quotes) : Interpolated .quotes
  /-- A piece of code other than those below: a word, an operator, a comment, a literal in other
      quotes -/
  | piece (text : List Char) (whole : text.getLast? ≠ some '\\') (more : Interpolated .code) :
      Interpolated .code
  /-- `[ … ]` -/
  | bracketed (b : Bracket) (inner more : Interpolated .code) : Interpolated .code
  /-- `"…"`, a literal inside the literal -/
  | literal (body : Interpolated .quotes) (more : Interpolated .code) : Interpolated .code

namespace Interpolated

variable {place : Place}

/-- The text as it is written. -/
def text {place : Place} : Interpolated place → List Char
  | nil => []
  | char c _ _ more => c :: more.text
  | escape c more => '\\' :: c :: more.text
  | expression opening code more => opening.text ++ (code.text ++ '}' :: more.text)
  | piece text _ more => text ++ more.text
  | bracketed b inner more => b.opening :: (inner.text ++ b.closing :: more.text)
  | literal body more => '"' :: (body.text ++ '"' :: more.text)

/-- A quote stands in the code, and no backslash before it. -/
def Frees {place : Place} : Interpolated place → Prop
  | nil => False
  | char _ _ _ more | escape _ more => more.Frees
  | expression _ code more => code.Frees ∨ more.Frees
  | piece text _ more => ¬StaysOpen '"' text ∨ more.Frees
  | bracketed _ inner more => inner.Frees ∨ more.Frees
  | literal _ _ => True

instance Frees.decidable {place : Place} : (t : Interpolated place) → Decidable t.Frees
  | nil => .isFalse id
  | char _ _ _ more | escape _ more => Frees.decidable more
  | expression _ code more =>
    have := Frees.decidable code
    have := Frees.decidable more
    inferInstanceAs (Decidable (_ ∨ _))
  | piece text _ more =>
    have := Frees.decidable more
    inferInstanceAs (Decidable (¬StaysOpen '"' text ∨ _))
  | bracketed _ inner more =>
    have := Frees.decidable inner
    have := Frees.decidable more
    inferInstanceAs (Decidable (_ ∨ _))
  | literal _ _ => .isTrue trivial

/-- **Where a literal ends.** -/
theorem endsWithinIff (t : Interpolated place) : EndsWithinIff '"' t.text t.Frees := by
  induction t with
  | nil => exact StaysOpen.nil.never
  | char c quote backslash more ih => exact ih.behind (.char quote backslash .nil)
  | escape c more ih =>
    have hescape : StaysOpen '"' ['\\', c] := .escape c .nil
    exact ih.behind hescape
  | expression opening code more ihCode ihMore =>
    have hclose : StaysOpen '"' ['}'] := .char (by decide) (by decide) .nil
    exact (ihCode.append (ihMore.behind hclose)).behind opening.text_staysOpen
  | piece text whole more ih => exact (endsWithinIff_of_whole '"' whole).append ih
  | bracketed b inner more ihInner ihMore =>
    exact (ihInner.append (ihMore.behind b.closing_staysOpen)).behind b.opening_staysOpen
  | literal body more _ _ => exact ⟨fun _ => ⟨[], _, rfl, .nil⟩, fun h => absurd trivial h⟩

/-- A source with the literal in it. -/
def source (t : Interpolated .quotes) (before rest : List Char) : String :=
  String.ofList (before ++ '"' :: (t.text ++ '"' :: rest))

end Interpolated

end Written

/-! ## Sources -/

/-- Up to the quote that ends it, a literal is one token wherever the lexer arrives at it. The
    tokens before it are the same for all literals that may stand there. -/
theorem Arrives.tokenize_literal {before cs : List Char} (h : Arrives before ('"' :: cs)) :
    ∃ ts, ∀ body rest, StaysOpen '"' body →
      tokenize (String.ofList (before ++ '"' :: (body ++ '"' :: rest))) =
        behind (ts ++ [⟨.string (String.ofList (decodeEscapes '"' body)), 1 + lineFeeds before⟩])
          (lineFeeds before + lineFeeds body) (tokenize ("<?php " ++ String.ofList rest)) := by
  obtain ⟨ts, -, hread⟩ := h.tokenize_eq
  refine ⟨ts, fun body rest hbody => ?_⟩
  have hliteral := tokenize_heads (hbody.heads rest)
  have hfeeds : lineFeeds ('"' :: body ++ ['"']) = lineFeeds body := by simp [lineFeeds]
  have htext : '"' :: body ++ ['"'] ++ rest = '"' :: (body ++ '"' :: rest) := by simp
  rw [hfeeds, htext] at hliteral
  rw [hread _ (.opens rfl), hliteral, behind_behind]
  rfl

/-! ## Files -/

/-- What a reader sees that looks at no string, and at lines only as `line` gives them. -/
def Rewording.withoutStrings (line : Nat → Nat) : Rewording where
  letter := id
  toLower_letter _ := rfl
  text _ := ""
  line := line

/-- The answers are the same, reworded. -/
def Rewording.Same (r : Rewording) (a b : Except SyntaxError ClassFile) : Prop :=
  r.answer r.file a = r.answer r.file b

/-- Behind the same tokens, a string with other lines in it is another string only. -/
theorem reword_behind {line : Nat → Nat} {k k' : Nat}
    (hline : ∀ m, line (m + k) = line (m + k')) (ts : List Token) (value value' : String)
    (l n : Nat) (answer : Except SyntaxError (List Token)) :
    (Rewording.withoutStrings line).answer (Rewording.withoutStrings line).tokens
        (behind (ts ++ [⟨.string value, l⟩]) (n + k) answer) =
      (Rewording.withoutStrings line).answer (Rewording.withoutStrings line).tokens
        (behind (ts ++ [⟨.string value', l⟩]) (n + k') answer) := by
  have hbelow : ∀ m, line (m + (n + k)) = line (m + (n + k')) := fun m => by
    rw [← Nat.add_assoc, ← Nat.add_assoc, hline]
  cases answer with
  | ok us =>
    simp [Rewording.tokens, Rewording.token, Rewording.kind, Rewording.withoutStrings, Token.below,
      hbelow]
  | error e => simp [Rewording.error, Rewording.withoutStrings, SyntaxError.below, hbelow]

/-- Literals with the same line feeds, or without a look at lines, make the same file. -/
theorem Arrives.ofSource_literal {before cs : List Char} (h : Arrives before ('"' :: cs))
    {t t' : Written.Interpolated .quotes} (ht : ¬t.Frees) (ht' : ¬t'.Frees) {line : Nat → Nat}
    (hline : ∀ m, line (m + lineFeeds t.text) = line (m + lineFeeds t'.text))
    (rest : List Char) :
    (Rewording.withoutStrings line).Same (ClassFile.ofSource (t.source before rest))
      (ClassFile.ofSource (t'.source before rest)) := by
  obtain ⟨ts, hread⟩ := h.tokenize_literal
  rw [Rewording.Same, Rewording.ofSource_reword, Rewording.ofSource_reword,
    Written.Interpolated.source, Written.Interpolated.source,
    hread _ _ (t.endsWithinIff.staysOpen ht), hread _ _ (t'.endsWithinIff.staysOpen ht'),
    reword_behind hline]

/-- **A literal is one token, and hides what it holds.** Wherever the lexer arrives at a literal
    with expressions in it:

    * if no quote stands in its code without a backslash, the literal is one token, and the source
      goes on behind its closing quote; otherwise the first such quote ends it, and the source goes
      on inside the literal;
    * any two literals of the first sort make the same file, whatever brackets they hold, or the
      same error: but for the values of strings, and for lines if the literals differ in their line
      feeds. -/
theorem Arrives.literal_isWhole {before cs : List Char} (h : Arrives before ('"' :: cs)) :
    (∃ ts, ∀ (t : Written.Interpolated .quotes) (rest : List Char),
      (¬t.Frees → tokenize (t.source before rest) =
        behind (ts ++ [⟨.string (String.ofList (decodeEscapes '"' t.text)), 1 + lineFeeds before⟩])
          (lineFeeds before + lineFeeds t.text) (tokenize ("<?php " ++ String.ofList rest))) ∧
      (t.Frees → ∃ front back, t.text = front ++ '"' :: back ∧ StaysOpen '"' front ∧
        tokenize (t.source before rest) =
          behind (ts ++ [⟨.string (String.ofList (decodeEscapes '"' front)), 1 + lineFeeds before⟩])
            (lineFeeds before + lineFeeds front)
            (tokenize ("<?php " ++ String.ofList (back ++ '"' :: rest))))) ∧
    ∀ (t t' : Written.Interpolated .quotes) (rest : List Char), ¬t.Frees → ¬t'.Frees →
      (Rewording.withoutStrings fun _ => 0).Same (ClassFile.ofSource (t.source before rest))
        (ClassFile.ofSource (t'.source before rest)) ∧
      (lineFeeds t.text = lineFeeds t'.text →
        (Rewording.withoutStrings id).Same (ClassFile.ofSource (t.source before rest))
          (ClassFile.ofSource (t'.source before rest))) := by
  constructor
  · obtain ⟨ts, hread⟩ := h.tokenize_literal
    refine ⟨ts, fun t rest => ⟨fun hfrees => ?_, fun hfrees => ?_⟩⟩
    · exact hread t.text rest (t.endsWithinIff.staysOpen hfrees)
    · obtain ⟨front, back, htext, hopen⟩ := t.endsWithinIff.endsWithin hfrees
      refine ⟨front, back, htext, hopen, ?_⟩
      rw [Written.Interpolated.source, htext, List.append_assoc, List.cons_append]
      exact hread front (back ++ '"' :: rest) hopen
  · intro t t' rest ht ht'
    exact ⟨h.ofSource_literal ht ht' (fun _ => rfl) rest, fun hfeeds =>
      h.ofSource_literal ht ht' (fun m => by rw [hfeeds]) rest⟩

/-- `{$a['}']}` -/
def singleQuotedKey : Written.Interpolated .quotes :=
  .expression .brace
    (.piece ['a'] (by decide) (.bracketed .square (.piece ['\'', '}', '\''] (by decide) .nil) .nil))
    .nil

/-- `{$a["}"]}` -/
def doubleQuotedKey : Written.Interpolated .quotes :=
  .expression .brace
    (.piece ['a'] (by decide)
      (.bracketed .square (.literal (.char '}' (by decide) (by decide) .nil) .nil) .nil))
    .nil

theorem literal_isWhole_key :
    tokenize "<?php return \"\x7b$a['\x7d']\x7d\";" =
        .ok [⟨.name "return", 1⟩, ⟨.string "\x7b$a['\x7d']\x7d", 1⟩, ⟨.punctuation ';', 1⟩] ∧
      (Rewording.withoutStrings id).Same
        (ClassFile.ofSource (singleQuotedKey.source "<?php return ".toList [';']))
        (ClassFile.ofSource ("<?php return \"\";")) ∧
      ∃ front back, doubleQuotedKey.text = front ++ '"' :: back ∧ StaysOpen '"' front := by
  have harrives : Arrives "<?php return ".toList ['"', '"'] :=
    ⟨"<?php".toList, [⟨[' '], none⟩, ⟨"return".toList, some (.name "return")⟩, ⟨[' '], none⟩],
      by decide, by decide +kernel, by decide +kernel⟩
  have hfrees : ¬singleQuotedKey.Frees := by decide
  obtain ⟨⟨ts, hread⟩, hsame⟩ := harrives.literal_isWhole
  refine ⟨?_, ?_, ?_⟩
  · have hsource : "<?php return \"\x7b$a['\x7d']\x7d\";" =
        singleQuotedKey.source "<?php return ".toList [';'] := by
      decide +kernel
    have hrest : tokenize ("<?php " ++ String.ofList [';']) = .ok [⟨.punctuation ';', 1⟩] := by
      decide +kernel
    -- what stands before the literal is read in front of an empty one as well
    have hempty : tokenize (Written.Interpolated.nil.source "<?php return ".toList []) =
        .ok ([⟨.name "return", 1⟩] ++ [⟨.string "", 1⟩]) := by
      decide +kernel
    have hnil : tokenize ("<?php " ++ String.ofList []) = .ok [] := by decide +kernel
    rw [(hread .nil []).1 id, hnil, behind_ok, List.map_nil, List.append_nil] at hempty
    obtain rfl : ts = [⟨.name "return", 1⟩] := List.append_inj_left' (Except.ok.inj hempty) rfl
    rw [hsource, (hread singleQuotedKey [';']).1 hfrees, hrest]
    decide +kernel
  · have hsource : "<?php return \"\";" =
        Written.Interpolated.nil.source "<?php return ".toList [';'] := by
      decide +kernel
    rw [hsource]
    exact (hsame singleQuotedKey .nil [';'] hfrees id).2 rfl
  · obtain ⟨front, back, htext, hopen, -⟩ := (hread doubleQuotedKey [';']).2 (by decide)
    exact ⟨front, back, htext, hopen⟩

end PhpSharp.Php
