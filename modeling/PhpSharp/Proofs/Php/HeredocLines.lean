/-
  Heredocs by their lines: what the lines between the labels make of the value, with either end of
  line, and where the source goes on.

  * `ClosesHeredoc`: the lines that end a heredoc;
  * `Written.PlainHeredoc`: heredocs whose lines stand behind the indentation of the closing label;
  * `tokenize_heredoc`: with line feeds, the value is the lines, and the source goes on behind the
    closing label; an opening that no line closes is an error on its own line.
-/
import PhpSharp.Proofs.Php.Behind
import PhpSharp.Proofs.Text.Words

namespace PhpSharp.Php

/-! ## Closing lines -/

/-- A line closes a heredoc if it starts, after its blanks, with the label, and what follows does
    not go on with the label. -/
def ClosesHeredoc (label line : List Char) : Prop :=
  ∃ tail, line.dropWhile Text.isBlank = label ++ tail ∧ tail.head?.any isLabelChar = false

section
variable {label line cs : List Char}

theorem closingLine?_eq_none : closingLine? label line = none ↔ ¬ClosesHeredoc label line := by
  unfold closingLine? Text.trimStart ClosesHeredoc
  dsimp only
  constructor
  · rintro h ⟨tail, hline, htail⟩
    rw [hline, List.drop_left, htail] at h
    simp at h
  · intro h
    refine if_neg fun hc => h ?_
    obtain ⟨hbegin, htail⟩ := Bool.and_eq_true_iff.1 hc
    obtain ⟨tail, ht⟩ := List.isPrefixOf_iff_prefix.1 hbegin
    rw [← ht, List.drop_left] at htail
    exact ⟨tail, ht.symm, by simpa using htail⟩

instance (label line : List Char) : Decidable (ClosesHeredoc label line) :=
  decidable_of_iff (closingLine? label line ≠ none)
    (by rw [Ne, closingLine?_eq_none, not_not])

theorem ClosesHeredoc.of_indent {indent : List Char} (hi : indent.all Text.isBlank = true)
    (h : ClosesHeredoc label (indent ++ line)) : ClosesHeredoc label line := by
  obtain ⟨tail, hline, htail⟩ := h
  rw [List.dropWhile_append_of_pos (List.all_eq_true.1 hi)] at hline
  exact ⟨tail, hline, htail⟩

/-- A carriage return at its end does not make a line close a heredoc. -/
theorem ClosesHeredoc.of_return (hl : IsLabel label) (h : ClosesHeredoc label (line ++ ['\r'])) :
    ClosesHeredoc label line := by
  obtain ⟨tail, hline, htail⟩ := h
  have hreturn : '\r' ∉ label := fun hm => absurd (List.all_eq_true.1 hl.all _ hm) (by decide)
  rw [List.dropWhile_append] at hline
  split at hline
  · -- a line of blanks
    have hlabel : label = [] := (List.append_eq_nil_iff.1 hline.symm).1
    exact absurd hlabel hl.ne_nil
  · rcases List.eq_nil_or_concat tail with rfl | ⟨front, last, rfl⟩
    · rw [List.append_nil] at hline
      exact absurd (hline ▸ List.mem_append_right _ (List.mem_singleton_self _)) hreturn
    · rw [List.concat_eq_append, ← List.append_assoc] at hline
      refine ⟨front, List.append_inj_left' hline rfl, ?_⟩
      cases front with
      | nil => rfl
      | cons c front => exact htail

theorem splitOn_line (h : '\n' ∉ line) (rest : List Char) :
    (line ++ '\n' :: rest).splitOn '\n' = line :: rest.splitOn '\n' := by
  rw [List.splitOn_append_cons_self, List.splitOn_eq_singleton h, List.singleton_append]

/-- The first line is one of the lines. -/
theorem takeWhile_mem_splitOn (cs : List Char) :
    cs.takeWhile (· ≠ '\n') ∈ cs.splitOn '\n' := by
  have hline := feed_notMem_takeWhile cs
  have hcs := List.takeWhile_append_dropWhile (p := (· ≠ '\n')) (l := cs)
  generalize cs.takeWhile (· ≠ '\n') = line at *
  cases hd : cs.dropWhile (· ≠ '\n') with
  | nil =>
    rw [hd, List.append_nil] at hcs
    rw [← hcs, List.splitOn_eq_singleton hline]
    exact List.mem_singleton_self line
  | cons c rest =>
    rw [hd, eq_feed_of_dropWhile hd] at hcs
    rw [← hcs, splitOn_line hline]
    exact List.mem_cons_self

/-- Without a line that closes it, a heredoc has no body. -/
theorem readBody_eq_none (h : ∀ line ∈ cs.splitOn '\n', ¬ClosesHeredoc label line) :
    HeredocBody.read label cs = none := by
  fun_induction HeredocBody.read label cs with
  | case1 => rfl
  | case2 cs hne line indent tail hclose =>
    have hopen := closingLine?_eq_none.2 (h line (takeWhile_mem_splitOn cs))
    cases hopen.symm.trans hclose
  | case3 => rfl
  | case4 cs hne line hopen c rest hdrop ih =>
    have hcs : line ++ cs.dropWhile (· ≠ '\n') = cs := List.takeWhile_append_dropWhile
    rw [hdrop, eq_feed_of_dropWhile hdrop] at hcs
    rw [← hcs, splitOn_line (feed_notMem_takeWhile cs)] at h
    rw [ih fun l hl => h l (List.mem_cons_of_mem _ hl)]
    rfl

end

/-- An opening that no line closes is an error where it stands. -/
theorem next_unterminated (h : Written.Heredoc) {after : List Char} (ha : EndsLine after)
    (hopen : ∀ line ∈ (after.drop 1).splitOn '\n', ¬ClosesHeredoc h.label line) :
    Lexeme.next '<' ('<' :: '<' :: (h.opening ++ after)) =
      .error (0, .unterminatedHeredoc (String.ofList h.label)) := by
  have hread : readHeredoc (h.opening ++ after) =
      .error (.unterminatedHeredoc (String.ofList h.label)) := by
    rw [readHeredoc, h.readOpening_end ha]
    dsimp only [bind, Except.bind]
    rw [readBody_eq_none hopen]
  show Lexeme.afterLess ('<' :: '<' :: (h.opening ++ after)) = _
  simp only [Lexeme.afterLess, hread]

/-! ## Indentation -/

/-- The indentation of the closing label is taken off a line, and no more. -/
theorem dropIndent_append {indent : List Char} (h : indent.all Text.isBlank = true)
    (line : List Char) : dropIndent (byteLength indent) (indent ++ line) = line := by
  induction indent with
  | nil =>
    cases line with
    | nil => rfl
    | cons c line => simp [byteLength, dropIndent]
  | cons c indent ih =>
    obtain ⟨hc, hindent⟩ := Bool.and_eq_true_iff.1 h
    have hpos : c.utf8Size + byteLength indent ≠ 0 := by
      have := c.utf8Size_pos
      omega
    have hbytes : byteLength (c :: indent) = c.utf8Size + byteLength indent := rfl
    rw [hbytes, List.cons_append, dropIndent, if_neg (by simpa [hc] using hpos),
      Nat.add_sub_cancel_left, ih hindent]

theorem decodeEscapes_of_notMem (quote : Char) {cs : List Char} (h : '\\' ∉ cs) :
    decodeEscapes quote cs = cs := by
  induction cs with
  | nil => rw [decodeEscapes.eq_def]
  | cons c cs ih =>
    obtain ⟨hc, hcs⟩ := not_or.1 (mt List.mem_cons.2 h)
    rw [decodeEscapes_plain (Ne.symm hc), ih hcs]

/-- Lines that go on with the same text, one behind the other. -/
theorem intercalate_map_append (more : List Char) (lines : List (List Char)) :
    ['\n'].intercalate (lines.map (· ++ more)) =
      (more ++ ['\n']).intercalate lines ++ if lines = [] then [] else more := by
  induction lines with
  | nil => rfl
  | cons line lines ih =>
    cases lines with
    | nil => simp
    | cons next lines =>
      rw [List.map_cons] at ih
      rw [List.map_cons, List.map_cons, List.intercalate_cons_cons, ih,
        List.intercalate_cons_cons]
      simp

/-! ## Heredocs of indented lines -/

/-- The ends of line. -/
inductive LineEnd
  | feed
  | returnFeed
  deriving DecidableEq, Repr

/-- What stands before the line feed. -/
def LineEnd.returns : LineEnd → List Char
  | feed => []
  | returnFeed => ['\r']

def LineEnd.text (e : LineEnd) : List Char := e.returns ++ ['\n']

namespace Written

/-- A heredoc whose lines stand behind the indentation of its closing label, and have nothing that
    would be decoded. -/
structure PlainHeredoc where
  /-- The quotes around the label. -/
  quote? : Option Quote
  label : List Char
  indent : List Char
  /-- The lines behind the indentation. -/
  lines : List (List Char)
  isLabel : IsLabel label
  indent_all : indent.all (fun c => c == ' ' || c == '\t') = true
  lines_feed : ∀ line ∈ lines, '\n' ∉ line
  lines_open : ∀ line ∈ lines, ¬ClosesHeredoc label line
  plain : quote? = some .single ∨ ∀ line ∈ lines, '\\' ∉ line

namespace PlainHeredoc

variable (h : PlainHeredoc) (e : LineEnd)

/-- The heredoc as it is written with that end of line. -/
def text : List Char :=
  ['<', '<', '<'] ++ h.quote?.toList.map Quote.char ++ h.label ++ h.quote?.toList.map Quote.char ++
    e.text ++ h.lines.flatMap (fun line => h.indent ++ line ++ e.text) ++ h.indent ++ h.label

/-- The text that it is read as: what ends the last line is no part of it, but for the carriage
    return. -/
def content : List Char := e.text.intercalate h.lines ++ if h.lines = [] then [] else e.returns

theorem indent_blank : h.indent.all Text.isBlank = true := by
  refine List.all_eq_true.2 fun c hc => ?_
  have hc : c = ' ' ∨ c = '\t' := by simpa using List.all_eq_true.1 h.indent_all c hc
  rcases hc with rfl | rfl <;> rfl

theorem lines_open_returns {line : List Char} (hm : line ∈ h.lines) :
    closingLine? h.label (h.indent ++ (line ++ e.returns)) = none := by
  refine closingLine?_eq_none.2 fun hc => h.lines_open line hm ?_
  have hc := hc.of_indent h.indent_blank
  cases e with
  | feed => rwa [LineEnd.returns, List.append_nil] at hc
  | returnFeed => exact hc.of_return h.isLabel

/-- The parts of the heredoc. A carriage return belongs to its line. -/
def heredoc : Heredoc where
  blanks := []
  quote? := h.quote?
  label := h.label
  remark := e.returns
  lines := h.lines.map fun line => h.indent ++ (line ++ e.returns)
  indent := h.indent
  blanks_all := rfl
  isLabel := h.isLabel
  remark_feed := by cases e <;> simp [LineEnd.returns]
  remark_head := fun _ => by cases e <;> rfl
  lines_feed := by
    have hindent : '\n' ∉ h.indent := fun hm =>
      absurd (List.all_eq_true.1 h.indent_all _ hm) (by decide)
    have hreturns : '\n' ∉ e.returns := by cases e <;> simp [LineEnd.returns]
    intro l hl
    obtain ⟨line, hm, rfl⟩ := List.mem_map.1 hl
    simp [hindent, hreturns, h.lines_feed line hm]
  lines_open := by
    intro l hl
    obtain ⟨line, hm, rfl⟩ := List.mem_map.1 hl
    exact h.lines_open_returns e hm
  indent_blank := h.indent_blank
  indent_feed := fun hm => absurd (List.all_eq_true.1 h.indent_all _ hm) (by decide)

theorem text_eq : h.text e = '<' :: '<' :: '<' :: (h.heredoc e).text := by
  simp [text, heredoc, Heredoc.text, Heredoc.opening, Heredoc.quote, Heredoc.body, LineEnd.text,
    List.flatMap_map]

theorem content_eq : (h.heredoc e).content = h.content e := by
  have hlines : (h.heredoc e).lines.map (dropIndent (byteLength h.indent)) =
      h.lines.map (· ++ e.returns) := by
    simp [heredoc, Function.comp_def, dropIndent_append h.indent_blank]
  rw [Heredoc.content]
  exact (congrArg _ hlines).trans (intercalate_map_append e.returns h.lines)

theorem value_eq : (h.heredoc e).value = h.content e := by
  have hquote : (h.heredoc e).quote? = h.quote? := rfl
  rw [Heredoc.value, content_eq, hquote]
  split
  · rfl
  · rename_i hdecode
    have hlines := h.plain.resolve_left hdecode
    have hreturns : '\\' ∉ e.returns := by cases e <;> simp [LineEnd.returns]
    refine decodeEscapes_of_notMem _ fun hm => ?_
    rcases List.mem_append.1 hm with hm | hm
    · rcases Text.mem_of_mem_intercalate hm with hm | ⟨line, hl, hm⟩
      · simp [LineEnd.text, hreturns] at hm
      · exact hlines line hl hm
    · split at hm
      · cases hm
      · exact hreturns hm

/-- A heredoc has a line feed behind its opening and behind each line. -/
theorem lineFeeds_text : lineFeeds (h.text e) = h.lines.length + 1 := by
  have hindent : lineFeeds h.indent = 0 := List.count_eq_zero.2 (h.heredoc e).indent_feed
  have hlabel : lineFeeds h.label = 0 := List.count_eq_zero.2 fun hm =>
    absurd (List.all_eq_true.1 h.isLabel.all _ hm) (by decide)
  have hquote : lineFeeds (h.quote?.toList.map Quote.char) = 0 := by
    cases h.quote? with
    | none => rfl
    | some q => cases q <;> rfl
  have hend : lineFeeds e.text = 1 := by cases e <;> rfl
  have hlines : ∀ lines : List (List Char), (∀ line ∈ lines, '\n' ∉ line) →
      lineFeeds (lines.flatMap fun line => h.indent ++ line ++ e.text) = lines.length := by
    intro lines hfeed
    induction lines with
    | nil => rfl
    | cons line lines ih =>
      obtain ⟨hline, hmore⟩ := List.forall_mem_cons.1 hfeed
      have hline : lineFeeds line = 0 := List.count_eq_zero.2 hline
      simp only [List.flatMap_cons, lineFeeds_append, hindent, hline, hend, ih hmore,
        List.length_cons]
      omega
  have hopen : lineFeeds ['<', '<', '<'] = 0 := rfl
  simp only [text, lineFeeds_append, hopen, hquote, hlabel, hend, hlines _ h.lines_feed, hindent]
  omega

/-- **The heredoc is read as its text**, whatever stands behind its label. -/
theorem heads {rest : List Char} (hr : rest.head?.any isLabelChar = false) :
    Heads ⟨h.text e, some (.string (String.ofList (h.content e)))⟩ rest := by
  refine ⟨'<', '<' :: '<' :: (h.heredoc e).text, h.text_eq e, ?_⟩
  show Lexeme.afterLess ('<' :: '<' :: ((h.heredoc e).text ++ rest)) = _
  simp only [Lexeme.afterLess, (h.heredoc e).readHeredoc_text hr]
  simp [text_eq, value_eq]

end PlainHeredoc

end Written

/-! ## Sources -/

/-- **A heredoc is its lines, and the source goes on behind its closing label.**

    * For every heredoc, its label in either quotes or none, and every text behind it that does not
      go on with the label: the first token is the lines joined by line feeds, without the
      indentation of the closing label, and then follows what the text gives by itself, tokens or
      an error, on the lines behind those of the heredoc.
    * Wherever the lexer arrives at the opening of a heredoc that no line behind it closes, the
      source is refused, on the line of the opening. -/
theorem tokenize_heredoc :
    (∀ (h : Written.PlainHeredoc) (rest : List Char), rest.head?.any isLabelChar = false →
      tokenize ("<?php " ++ String.ofList (h.text .feed ++ rest)) =
        behind [⟨.string (String.ofList (['\n'].intercalate h.lines)), 1⟩] (h.lines.length + 1)
          (tokenize ("<?php " ++ String.ofList rest))) ∧
    ∀ (h : Written.Heredoc) (before after : List Char), EndsLine after →
      (∀ line ∈ (after.drop 1).splitOn '\n', ¬ClosesHeredoc h.label line) →
      Arrives before ('<' :: '<' :: '<' :: (h.opening ++ after)) →
      tokenize (String.ofList (before ++ '<' :: '<' :: '<' :: (h.opening ++ after))) =
        .error ⟨1 + lineFeeds before, .unterminatedHeredoc (String.ofList h.label)⟩ := by
  constructor
  · intro h rest hrest
    have hread := tokenize_heads (h.heads .feed hrest)
    rw [h.lineFeeds_text] at hread
    simpa [Written.PlainHeredoc.content, LineEnd.text, LineEnd.returns] using hread
  · intro h before after hafter hopen harrives
    obtain ⟨ts, hread, -⟩ := harrives.tokenize_eq
    rw [hread, tokenize_openTag, tokensFrom_error (next_unterminated h hafter hopen), behind_error,
      SyntaxError.below, Nat.add_zero]

/-- Two lines, the second of which stands further in. -/
def noteHeredoc : Written.PlainHeredoc where
  quote? := none
  label := "EOT".toList
  indent := [' ', ' ']
  lines := ["one".toList, "  two".toList]
  isLabel := ⟨by decide, by decide⟩
  indent_all := by decide
  lines_feed := by decide
  lines_open := by decide
  plain := .inr (by decide)

theorem tokenize_heredoc_note :
    tokenize "<?php <<<EOT\n  one\n    two\n  EOT;" =
        .ok [⟨.string "one\n  two", 1⟩, ⟨.punctuation ';', 4⟩] ∧
      tokenize "<?php\n<<<EOT\n  one\n  EOTS" =
        .error ⟨2, .unterminatedHeredoc "EOT"⟩ := by
  constructor
  · have hsource : "<?php <<<EOT\n  one\n    two\n  EOT;" =
        "<?php " ++ String.ofList (noteHeredoc.text .feed ++ [';']) := by decide +kernel
    have hrest : tokenize ("<?php " ++ String.ofList [';']) = .ok [⟨.punctuation ';', 1⟩] := by
      decide +kernel
    rw [hsource, tokenize_heredoc.1 noteHeredoc [';'] rfl, hrest]
    decide +kernel
  · have hsource : "<?php\n<<<EOT\n  one\n  EOTS" = String.ofList ("<?php\n".toList ++
        '<' :: '<' :: '<' ::
          ((noteHeredoc.heredoc .feed).opening ++ "\n  one\n  EOTS".toList)) := by
      decide +kernel
    have harrives : Arrives "<?php\n".toList
        ('<' :: '<' :: '<' :: ((noteHeredoc.heredoc .feed).opening ++ "\n  one\n  EOTS".toList)) :=
      ⟨"<?php".toList, [⟨['\n'], none⟩], rfl, by decide +kernel, by decide +kernel⟩
    rw [hsource, tokenize_heredoc.2 (noteHeredoc.heredoc .feed) "<?php\n".toList
      "\n  one\n  EOTS".toList (endsLine_feed _) (by decide +kernel) harrives]
    decide +kernel

end PhpSharp.Php
