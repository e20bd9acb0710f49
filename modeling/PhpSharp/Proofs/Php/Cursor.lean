/-
  Where a lexer is.

  `tokenize` takes lexemes off a list of characters. Here the same is done by a lexer that stays in
  the source, with a place and a count of lines: it goes on character by character (`bump`), and
  only a heredoc takes it back (`rewind`), from the end of the line that closes it to what follows
  the label, without a look at the count.

  * `exact_of_reaches`: in every round of its loop the count is one more than the line feeds before
    the place, and every round ends behind its start;
  * `tokenize_eq_ok_iff`, `tokenize_eq_error_iff`: it finds the tokens and errors of `tokenize`;
  * `lines_exact`: so tokens and errors have the lines on which they stand.
-/
import Mathlib.Data.List.Forall2
import Mathlib.Logic.Relation
import PhpSharp.Proofs.Php.Blame
import PhpSharp.Proofs.Php.Heredoc

namespace PhpSharp.Php

/-! ## Cursors -/

/-- A place in a source, as the number of characters before it, and the line counted there. -/
structure Cursor where
  pos : Nat
  line : Nat
  deriving DecidableEq, Repr

namespace Cursor

/-- Over one character; a line feed is counted. At the end of the source nothing changes. -/
def bump (source : List Char) (c : Cursor) : Cursor :=
  match source[c.pos]? with
  | none => c
  | some ch => ⟨c.pos + 1, if ch = '\n' then c.line + 1 else c.line⟩

/-- Over some characters, one by one. -/
def advance (source : List Char) : Nat → Cursor → Cursor
  | 0, c => c
  | n + 1, c => advance source n (c.bump source)

/-- Back by some characters. The line is not counted back. -/
def rewind (n : Nat) (c : Cursor) : Cursor := ⟨c.pos - n, c.line⟩

/-- What is left of the source. -/
def rest (source : List Char) (c : Cursor) : List Char := source.drop c.pos

/-- The place is in the source, and the line is one more than the line feeds before it. -/
structure Exact (source : List Char) (c : Cursor) : Prop where
  pos_le : c.pos ≤ source.length
  line_eq : c.line = 1 + lineFeeds (source.take c.pos)

section
variable {source text after : List Char} {c : Cursor} {n : Nat}

theorem Exact.bump (h : c.Exact source) : (c.bump source).Exact source := by
  unfold Cursor.bump
  split
  · exact h
  · rename_i ch hch
    have hpos : c.pos < source.length := (List.getElem?_eq_some_iff.1 hch).1
    refine ⟨hpos, ?_⟩
    have htake : source.take (c.pos + 1) = source.take c.pos ++ [ch] := by
      rw [List.take_add_one, hch, Option.toList_some]
    dsimp only
    rw [htake, lineFeeds, List.count_append, h.line_eq, lineFeeds]
    by_cases hfeed : ch = '\n'
    · rw [if_pos hfeed, hfeed, List.count_singleton_self, Nat.add_assoc]
    · rw [if_neg hfeed, List.count_singleton, if_neg (by simpa using hfeed), Nat.add_zero]

/-- Whatever a routine goes over, the count stays exact. -/
theorem Exact.advance (h : c.Exact source) : (c.advance source n).Exact source := by
  induction n generalizing c with
  | zero => exact h
  | succ n ih => exact ih h.bump

theorem pos_advance (n : Nat) (h : c.pos + n ≤ source.length) :
    (c.advance source n).pos = c.pos + n := by
  induction n generalizing c with
  | zero => rfl
  | succ n ih =>
    have hpos : (c.bump source).pos = c.pos + 1 := by
      unfold bump
      rw [List.getElem?_eq_getElem (by omega)]
    rw [Cursor.advance, ih (by omega), hpos]
    omega

/-- **Going back leaves the count exact** if it leads over no line feed. -/
theorem Exact.rewind (h : c.Exact source) (hn : n ≤ c.pos)
    (hfeed : '\n' ∉ (source.drop (c.pos - n)).take n) : (c.rewind n).Exact source := by
  have hpos : c.pos - n + n = c.pos := Nat.sub_add_cancel hn
  refine ⟨Nat.le_trans (Nat.sub_le ..) h.pos_le, ?_⟩
  have htake : source.take c.pos =
      source.take (c.pos - n) ++ (source.drop (c.pos - n)).take n := by
    rw [← List.take_add, hpos]
  rw [Cursor.rewind, h.line_eq, htake, lineFeeds, List.count_append,
    List.count_eq_zero.2 hfeed, Nat.add_zero, lineFeeds]

theorem length_rest (h : c.rest source = text) (hne : text ≠ []) :
    c.pos + text.length = source.length := by
  have hlength := congrArg List.length h
  rw [rest, List.length_drop] at hlength
  have := List.length_pos_iff.2 hne
  omega

theorem rest_of_pos {c' : Cursor} (h : c.rest source = text ++ after)
    (hpos : c'.pos = c.pos + text.length) : c'.rest source = after := by
  rw [rest, hpos, ← List.drop_drop, ← rest, h, List.drop_left]

end

end Cursor

/-! ## Ends of heredocs -/

/-- `rest` is what a heredoc with the characters `cs` behind its `<<<` leaves, and starts with
    `tail`: what the line that closes it, the first one that does, holds behind the label. -/
inductive ClosedBefore (cs tail rest : List Char) : Prop
  | intro {opening : HeredocOpening} {body : List Char} {lines : List (List Char)}
      {line after : List Char} {indent : Nat} (opens : HeredocOpening.read cs = .ok (opening, body))
      (split : body = lines.flatMap (· ++ ['\n']) ++ line ++ after)
      (open_lines : ∀ l ∈ lines, '\n' ∉ l ∧ closingLine? opening.label l = none)
      (isLine : '\n' ∉ line ∧ ∀ c ∈ after.head?, c = '\n')
      (closes : closingLine? opening.label line = some (indent, tail))
      (rest_eq : rest = tail ++ after)

/-- Whatever is read as a heredoc is closed by a line: the blanks and the label that end it, and
    what follows them up to the next line feed. -/
theorem exists_closedBefore {cs rest : List Char} {value : String}
    (h : readHeredoc cs = .ok (value, rest)) : ∃ tail, ClosedBefore cs tail rest := by
  obtain ⟨d, rfl, -, hrest⟩ := exists_heredoc h
  have hsplit : rest.takeWhile (· ≠ '\n') ++ rest.dropWhile (· ≠ '\n') = rest :=
    List.takeWhile_append_dropWhile
  have hopening : d.text ++ rest = d.opening ++ '\n' :: (d.body ++ rest) := by
    simp [Written.Heredoc.text]
  have hlabel : '\n' ∉ d.label := fun hm =>
    absurd (List.all_eq_true.1 d.isLabel.all _ hm) (by decide)
  have htail : (rest.takeWhile (· ≠ '\n')).head?.any isLabelChar = false := by
    cases rest with
    | nil => rfl
    | cons c rest =>
      rw [List.head?_takeWhile, List.head?_cons, Option.filter_some]
      split
      · exact hrest
      · rfl
  refine ⟨rest.takeWhile (· ≠ '\n'), .intro (hopening ▸ d.readOpening _) ?_
    (fun l hl => ⟨d.lines_feed l hl, d.lines_open l hl⟩) ⟨?_, fun c hc => ?_⟩
    ((closingLine?_eq_some d.isLabel).2 ⟨d.indent, d.indent_blank, rfl, htail, rfl⟩) hsplit.symm⟩
  · rw [Written.Heredoc.body]
    simp only [List.append_assoc, hsplit]
  · rw [List.mem_append, List.mem_append]
    rintro (hm | hm | hm)
    · exact d.indent_feed hm
    · exact hlabel hm
    · exact feed_notMem_takeWhile rest hm
  · obtain ⟨after, hd⟩ := List.head?_eq_some_iff.1 hc
    exact eq_feed_of_dropWhile hd

/-- The rest of the closing line is on one line. -/
theorem ClosedBefore.feed_notMem {cs tail rest : List Char} (h : ClosedBefore cs tail rest) :
    '\n' ∉ tail ∧ tail <+: rest := by
  obtain ⟨-, -, -, hline, hclose, rfl⟩ := h
  exact ⟨fun hm => hline.1 ((closingLine?_suffix hclose).subset hm), List.prefix_append ..⟩

/-! ## Rounds of the lexer -/

/-- A lexer between two rounds of its loop: where it is, and the tokens so far, each with the place
    where its lexeme starts, the last first. -/
structure Lexer where
  cursor : Cursor
  done : List (Nat × Token)

namespace Lexer

/-- The lexer behind a lexeme, which starts where the lexer was. -/
def behind (s : Lexer) (l : Lexeme) (c : Cursor) : Lexer where
  cursor := c
  done := l.token?.toList.map (fun kind => (s.cursor.pos, ⟨kind, s.cursor.line⟩)) ++ s.done

/-- **One round of the loop** over a lexeme. -/
inductive Round (source : List Char) (s : Lexer) : Lexer → Prop
  /-- Over the characters of a lexeme that is no heredoc -/
  | pass {c : Char} {cs rest : List Char} {l : Lexeme} (here : s.cursor.rest source = c :: cs)
      (read : Lexeme.next c cs = .ok (l, rest)) (plain : ¬['<', '<', '<'] <+: c :: cs) :
      Round source s (s.behind l (s.cursor.advance source l.text.length))
  /-- Over a heredoc to the end of the line that closes it, and back to what follows the label -/
  | heredoc {cs rest tail : List Char} {l : Lexeme}
      (here : s.cursor.rest source = '<' :: '<' :: '<' :: cs)
      (read : Lexeme.next '<' ('<' :: '<' :: cs) = .ok (l, rest))
      (closed : ClosedBefore cs tail rest) :
      Round source s (s.behind l
        ((s.cursor.advance source (l.text.length + tail.length)).rewind tail.length))

/-- The lexer of a source before its first round: behind the first open tag. -/
def start (source : List Char) : Lexer where
  cursor := Cursor.advance source (skipHtml [] source).1.length ⟨0, 1⟩
  done := []

/-- The lexer of a source after some rounds. -/
def Reaches (source : List Char) (s : Lexer) : Prop :=
  Relation.ReflTransGen (Round source) (start source) s

/-- A token and the place where its lexeme starts. -/
structure Starts (source : List Char) (pos : Nat) (t : Token) : Prop where
  lexeme : ∃ c cs l rest, source.drop pos = c :: cs ∧ Lexeme.next c cs = .ok (l, rest) ∧
    l.token? = some t.kind
  line : t.line = 1 + lineFeeds (source.take pos)

/-- The lexer counts right: its cursor is exact, and its tokens are where they start, one behind
    the other. -/
structure Exact (source : List Char) (s : Lexer) : Prop where
  cursor : s.cursor.Exact source
  starts : ∀ e ∈ s.done, e.1 < s.cursor.pos ∧ Starts source e.1 e.2
  increasing : s.done.Pairwise fun e e' => e'.1 < e.1

section
variable {source : List Char} {s s' : Lexer}

/-- What a round does: it leads over a lexeme, and to an exact count from an exact one. -/
theorem Round.moves (h : Round source s s') : ∃ c cs l rest, s.cursor.rest source = c :: cs ∧
    Lexeme.next c cs = .ok (l, rest) ∧ s' = s.behind l s'.cursor ∧
    s'.cursor.pos = s.cursor.pos + l.text.length ∧
    (s.cursor.Exact source → s'.cursor.Exact source) := by
  cases h with
  | @pass c cs rest l here read plain =>
    obtain ⟨htext, hne⟩ := Lexeme.next_eq_ok read
    have hlength := Cursor.length_rest (here.trans htext.symm) (by simp [hne])
    rw [List.length_append] at hlength
    exact ⟨c, cs, l, rest, here, read, rfl, Cursor.pos_advance _ (by omega), Cursor.Exact.advance⟩
  | @heredoc cs rest tail l here read closed =>
    obtain ⟨htext, hne⟩ := Lexeme.next_eq_ok read
    obtain ⟨hfeed, after, rfl⟩ := closed.feed_notMem
    have hlength := Cursor.length_rest (here.trans htext.symm) (by simp [hne])
    rw [List.length_append, List.length_append] at hlength
    have hpos : (s.cursor.advance source (l.text.length + tail.length)).pos =
        s.cursor.pos + (l.text.length + tail.length) := Cursor.pos_advance _ (by omega)
    have hback : (s.cursor.advance source (l.text.length + tail.length)).pos - tail.length =
        s.cursor.pos + l.text.length := by
      rw [hpos]
      omega
    refine ⟨_, _, l, _, here, read, rfl, hback, fun hexact => hexact.advance.rewind ?_ ?_⟩
    · rw [hpos]
      omega
    · -- what is gone back over is the rest of the closing line
      have hrest : source.drop (s.cursor.pos + l.text.length) = tail ++ after :=
        @Cursor.rest_of_pos _ _ _ _ ⟨_, 0⟩ (here.trans htext.symm) rfl
      rwa [hback, hrest, List.take_left]

theorem Round.rest (h : Round source s s') : ∃ c cs l rest, s.cursor.rest source = c :: cs ∧
    Lexeme.next c cs = .ok (l, rest) ∧ s'.cursor.rest source = rest := by
  obtain ⟨c, cs, l, rest, here, read, -, hpos, -⟩ := h.moves
  exact ⟨c, cs, l, rest, here, read,
    Cursor.rest_of_pos (here.trans (Lexeme.next_eq_ok read).1.symm) hpos⟩

/-- **Every round ends behind its start,** that over a heredoc as well. -/
theorem Round.pos_lt (h : Round source s s') : s.cursor.pos < s'.cursor.pos := by
  obtain ⟨c, cs, l, rest, -, read, -, hpos, -⟩ := h.moves
  have := List.length_pos_iff.2 (Lexeme.next_eq_ok read).2
  omega

/-- A round keeps the lexer exact. -/
theorem Round.exact (h : Round source s s') (hs : s.Exact source) : s'.Exact source := by
  have hlt := h.pos_lt
  obtain ⟨c, cs, l, rest, here, read, he, hpos, hexact⟩ := h.moves
  refine ⟨hexact hs.cursor, ?_, ?_⟩
  · rw [he]
    intro e hm
    rcases List.mem_append.1 hm with hm | hm
    · obtain ⟨kind, hkind, rfl⟩ := List.mem_map.1 hm
      exact ⟨hlt, ⟨c, cs, l, rest, here, read, Option.mem_toList.1 hkind⟩, hs.cursor.line_eq⟩
    · obtain ⟨hbefore, hstarts⟩ := hs.starts e hm
      exact ⟨hbefore.trans hlt, hstarts⟩
  · rw [he, behind, List.pairwise_append]
    refine ⟨?_, hs.increasing, fun e hm e' hm' => ?_⟩
    · cases l.token? <;> simp
    · obtain ⟨kind, -, rfl⟩ := List.mem_map.1 hm
      exact (hs.starts e' hm').1

theorem start_cursor (source : List Char) :
    (start source).cursor.pos = (skipHtml [] source).1.length ∧
    (start source).cursor.Exact source ∧
    (start source).cursor.rest source = (skipHtml [] source).2 := by
  have happend : (skipHtml [] source).1 ++ (skipHtml [] source).2 = source :=
    skipHtml_append [] source
  have hlength := congrArg List.length happend
  rw [List.length_append] at hlength
  have hpos : (start source).cursor.pos = (skipHtml [] source).1.length :=
    (Cursor.pos_advance _ (by rw [Nat.zero_add]; omega)).trans (Nat.zero_add _)
  have hfirst : (⟨0, 1⟩ : Cursor).Exact source := ⟨Nat.zero_le _, by simp [lineFeeds]⟩
  have hrest : Cursor.rest source ⟨0, 1⟩ = (skipHtml [] source).1 ++ (skipHtml [] source).2 :=
    happend.symm
  refine ⟨hpos, hfirst.advance, Cursor.rest_of_pos hrest ?_⟩
  rw [hpos, Nat.zero_add]

/-- **In every round the lexer counts right.** -/
theorem exact_of_reaches (h : Reaches source s) : s.Exact source := by
  induction h with
  | refl => exact ⟨(start_cursor source).2.1, List.forall_mem_nil _, .nil⟩
  | tail _ hround ih => exact hround.exact ih

/-! ## The same tokens and errors -/

/-- What `tokenize` makes of the rest of the source. -/
def outcome (source : List Char) (s : Lexer) : Except SyntaxError (List Token) :=
  tokensFrom s.cursor.line (s.done.map Prod.snd) (s.cursor.rest source)

/-- A round is one step of `tokensFrom`. -/
theorem Round.outcome_eq (h : Round source s s') (hs : s.Exact source) :
    outcome source s' = outcome source s := by
  have hexact := (h.exact hs).cursor
  obtain ⟨c, cs, l, rest, here, read, he, hpos, -⟩ := h.moves
  obtain ⟨htext, -⟩ := Lexeme.next_eq_ok read
  have hrest : s'.cursor.rest source = rest :=
    Cursor.rest_of_pos (here.trans htext.symm) hpos
  have hline : s'.cursor.line = s.cursor.line + lineFeeds l.text := by
    have htake : source.take s'.cursor.pos = source.take s.cursor.pos ++ l.text := by
      rw [hpos, List.take_add, ← Cursor.rest, here, ← htext, List.take_left]
    rw [hexact.line_eq, htake, lineFeeds, List.count_append, hs.cursor.line_eq, Nat.add_assoc]
    rfl
  have hdone : s'.done.map Prod.snd =
      l.token?.toList.map (Token.mk · s.cursor.line) ++ s.done.map Prod.snd := by
    rw [he, behind, List.map_append, List.map_map]
    rfl
  rw [outcome, outcome, here, hrest, hline, hdone, tokensFrom.eq_def s.cursor.line]
  dsimp only
  split
  · rename_i herror
    cases read.symm.trans herror
  · rename_i hok
    obtain ⟨rfl, rfl⟩ := Prod.mk.inj (Except.ok.inj (read.symm.trans hok))
    rfl

theorem outcome_of_reaches (h : Reaches source s) :
    outcome source s = outcome source (start source) := by
  induction h with
  | refl => rfl
  | tail hreaches hround ih => exact (hround.outcome_eq (exact_of_reaches hreaches)).trans ih

theorem outcome_start (source : String) :
    outcome source.toList (start source.toList) = tokenize source := by
  obtain ⟨hpos, hexact, hrest⟩ := start_cursor source.toList
  have happend : (skipHtml [] source.toList).1 ++ (skipHtml [] source.toList).2 = source.toList :=
    skipHtml_append [] _
  have htake : source.toList.take (skipHtml [] source.toList).1.length =
      (skipHtml [] source.toList).1 :=
    (List.prefix_iff_eq_take.1 ⟨_, happend⟩).symm
  rw [outcome, hrest, hexact.line_eq, hpos, htake]
  rfl

/-- A lexeme that can be read makes a round. -/
theorem exists_round {c : Char} {cs rest : List Char} {l : Lexeme}
    (here : s.cursor.rest source = c :: cs) (read : Lexeme.next c cs = .ok (l, rest)) :
    ∃ s', Round source s s' := by
  by_cases hplain : ['<', '<', '<'] <+: c :: cs
  · obtain ⟨cs, he⟩ := hplain
    cases he
    have hafter : Lexeme.afterLess ('<' :: '<' :: cs) = .ok (l, rest) := read
    unfold Lexeme.afterLess at hafter
    split at hafter
    · rename_i he
      cases he
      split at hafter
      · cases hafter
      · rename_i hheredoc
        cases hafter
        obtain ⟨tail, hclosed⟩ := exists_closedBefore hheredoc
        exact ⟨_, .heredoc here read hclosed⟩
    · rename_i hother
      exact absurd rfl (hother cs)
  · exact ⟨_, .pass here read hplain⟩

/-- The loop ends: at the end of the source, or at a lexeme that cannot be read. -/
theorem halts (source : List Char) (s : Lexer) : ∃ s', Relation.ReflTransGen (Round source) s s' ∧
    (s'.cursor.rest source = [] ∨ ∃ c cs feeds fault, s'.cursor.rest source = c :: cs ∧
      Lexeme.next c cs = .error (feeds, fault)) := by
  induction hn : (s.cursor.rest source).length using Nat.strong_induction_on generalizing s with
  | _ n ih =>
    cases hrest : s.cursor.rest source with
    | nil => exact ⟨s, .refl, .inl hrest⟩
    | cons c cs =>
      cases hread : Lexeme.next c cs with
      | error e => exact ⟨s, .refl, .inr ⟨c, cs, e.1, e.2, hrest, hread⟩⟩
      | ok read =>
        obtain ⟨s₁, hround⟩ := exists_round hrest hread
        obtain ⟨c', cs', l, rest, here, hread', hafter⟩ := hround.rest
        have hlt : rest.length < n := by
          rw [← hn, here]
          exact Lexeme.length_lt_of_next hread'
        obtain ⟨s', hreaches, hend⟩ := ih rest.length hlt s₁ (by rw [hafter])
        exact ⟨s', .head hround hreaches, hend⟩

theorem outcome_end (h : s.cursor.rest source = []) :
    outcome source s = .ok (s.done.map Prod.snd).reverse := by
  rw [outcome, h, tokensFrom.eq_def]

theorem outcome_stuck {c : Char} {cs : List Char} {feeds : Nat} {fault : SyntaxFault}
    (here : s.cursor.rest source = c :: cs) (read : Lexeme.next c cs = .error (feeds, fault)) :
    outcome source s = .error ⟨s.cursor.line + feeds, fault⟩ := by
  rw [outcome, here, tokensFrom.eq_def]
  dsimp only
  split
  · rename_i herror
    cases read.symm.trans herror
    rfl
  · rename_i hok
    cases read.symm.trans hok

end

section
variable {source : String}

theorem outcome_eq_tokenize {s : Lexer} (h : Reaches source.toList s) :
    outcome source.toList s = tokenize source :=
  (outcome_of_reaches h).trans (outcome_start source)

/-- **The tokens of a source** are those of the lexer at the end of it. -/
theorem tokenize_eq_ok_iff {ts : List Token} : tokenize source = .ok ts ↔
    ∃ s, Reaches source.toList s ∧ s.cursor.rest source.toList = [] ∧
      ts = (s.done.map Prod.snd).reverse := by
  constructor
  · intro h
    obtain ⟨s, hreaches, hend⟩ := halts source.toList (start source.toList)
    have houtcome := (outcome_eq_tokenize hreaches).trans h
    rcases hend with hend | ⟨c, cs, feeds, fault, here, read⟩
    · exact ⟨s, hreaches, hend, Except.ok.inj (houtcome.symm.trans (outcome_end hend))⟩
    · cases houtcome.symm.trans (outcome_stuck here read)
  · rintro ⟨s, hreaches, hend, rfl⟩
    rw [← outcome_eq_tokenize hreaches, outcome_end hend]

/-- **The error of a source** is that of the lexeme that its lexer cannot read. -/
theorem tokenize_eq_error_iff {e : SyntaxError} : tokenize source = .error e ↔
    ∃ s c cs feeds fault, Reaches source.toList s ∧ s.cursor.rest source.toList = c :: cs ∧
      Lexeme.next c cs = .error (feeds, fault) ∧ e = ⟨s.cursor.line + feeds, fault⟩ := by
  constructor
  · intro h
    obtain ⟨s, hreaches, hend⟩ := halts source.toList (start source.toList)
    have houtcome := (outcome_eq_tokenize hreaches).trans h
    rcases hend with hend | ⟨c, cs, feeds, fault, here, read⟩
    · cases houtcome.symm.trans (outcome_end hend)
    · exact ⟨s, c, cs, feeds, fault, hreaches, here, read,
        Except.error.inj (houtcome.symm.trans (outcome_stuck here read))⟩
  · rintro ⟨s, c, cs, feeds, fault, hreaches, here, read, rfl⟩
    rw [← outcome_eq_tokenize hreaches, outcome_stuck here read]

end

end Lexer

/-! ## Lines of errors -/

theorem readAttribute_feeds {depth feeds : Nat} {cs : List Char} {e : LexicalFault}
    (h : readAttribute depth feeds cs = .error e) : e.1 ≤ feeds + lineFeeds cs := by
  have hmap : ∀ {r : Except LexicalFault (List Char × List Char)}
      {f : List Char × List Char → List Char × List Char}, r.map f = .error e → r = .error e := by
    intro r f hr
    cases r with
    | ok _ => cases hr
    | error _ =>
      cases hr
      rfl
  fun_induction readAttribute depth feeds cs with
  | case1 =>
    cases h
    exact Nat.zero_le _
  | case2 =>
    cases h
    exact Nat.le_add_right ..
  | case3 depth feeds c cs hc body rest hq ih =>
    have := ih (hmap h)
    rw [← splitQuoted_eq_some hq]
    simp only [lineFeeds, List.count_cons, List.count_append] at *
    omega
  | case4 => cases h
  | case5 depth feeds c cs hc hb depth' =>
    rename_i ih
    have := ih (hmap h)
    simp only [lineFeeds, List.count_cons, List.count_nil] at *
    omega

namespace Lexeme

variable {n : Nat} {x y : Reading} {cs : List Char}

/-- An error is at most so many lines behind the start. -/
def Within (n : Nat) (r : Reading) : Prop := ∀ e, r = .error e → e.1 ≤ n

theorem within_ok (read : Lexeme × List Char) : Within n (.ok read) := fun _ h => nomatch h

theorem within_zero (fault : SyntaxFault) : Within n (.error (0, fault)) := by
  rintro _ ⟨⟩
  exact Nat.zero_le n

theorem within_ite {q : Prop} [Decidable q] (hx : q → Within n x) (hy : ¬q → Within n y) :
    Within n (if q then x else y) := by
  split
  · exact hx ‹_›
  · exact hy ‹_›

theorem within_afterHash : Within (lineFeeds ('#' :: cs)) (afterHash cs) := by
  unfold afterHash
  split
  · rename_i cs
    intro e he
    cases hread : readAttribute 0 0 cs with
    | ok _ =>
      rw [hread] at he
      cases he
    | error e' =>
      rw [hread] at he
      cases he
      have := readAttribute_feeds hread
      simp only [lineFeeds, List.count_cons] at *
      omega
  · exact within_ok _

theorem within_afterQuestion : Within n (afterQuestion cs) := by
  unfold afterQuestion
  split <;> exact within_ok _

theorem within_afterSlash : Within n (afterSlash cs) := by
  unfold afterSlash
  split
  · exact within_ok _
  · split
    · exact within_zero _
    · exact within_ok _
  · exact within_ok _

theorem within_quoted {quote : Char} {split : List Char → Option (List Char × List Char)}
    {value : List Char → List Char} : Within n (quoted quote split value cs) := by
  unfold quoted
  split
  · exact within_zero _
  · exact within_ok _

theorem within_afterLess : Within n (afterLess cs) := by
  unfold afterLess
  split
  · split
    · exact within_zero _
    · exact within_ok _
  · exact within_ok _

theorem within_afterDollar : Within n (afterDollar cs) :=
  within_ite (fun _ => within_ok _) fun _ => within_ok _

theorem within_operator {first second : Char} {token : TokenKind} :
    Within n (operator first second token cs) :=
  within_ite (fun _ => within_ok _) fun _ => within_ok _

/-- **What is blamed is a line of what is left,** in the attribute or at the start of the lexeme. -/
theorem within_next (c : Char) (cs : List Char) : Within (lineFeeds (c :: cs)) (next c cs) := by
  unfold next
  refine within_ite (fun _ => within_ok _) fun _ => ?_
  refine within_ite (fun _ => within_afterQuestion) fun _ => ?_
  refine within_ite (fun h => h ▸ within_afterHash) fun _ => ?_
  refine within_ite (fun _ => within_afterSlash) fun _ => ?_
  refine within_ite (fun _ => within_quoted) fun _ => ?_
  refine within_ite (fun _ => within_quoted) fun _ => ?_
  refine within_ite (fun _ => within_quoted) fun _ => ?_
  refine within_ite (fun _ => within_afterLess) fun _ => ?_
  refine within_ite (fun _ => within_afterDollar) fun _ => ?_
  refine within_ite (fun _ => within_ok _) fun _ => ?_
  refine within_ite (fun _ => within_ok _) fun _ => ?_
  refine within_ite (fun _ => within_operator) fun _ => ?_
  refine within_ite (fun _ => within_operator) fun _ => ?_
  exact within_ite (fun _ => within_operator) fun _ => within_ok _

end Lexeme

/-! ## Lines of tokens and errors -/

section
variable {source : String} {s : Lexer}

theorem Cursor.Exact.line_add {source : List Char} {c : Cursor} (h : c.Exact source) :
    c.line + lineFeeds (c.rest source) = 1 + lineFeeds source := by
  have hsplit : lineFeeds source = lineFeeds (source.take c.pos) + lineFeeds (c.rest source) := by
    rw [Cursor.rest, lineFeeds, lineFeeds, lineFeeds, ← List.count_append, List.take_append_drop]
  rw [h.line_eq, hsplit, Nat.add_assoc]

theorem lineFeeds_take_le {source : List Char} {n m : Nat} (h : n ≤ m) :
    lineFeeds (source.take n) ≤ lineFeeds (source.take m) :=
  (List.take_prefix_take_left h).sublist.count_le _

/-- The places of the tokens that a lexer has read, in order. -/
theorem Lexer.Exact.places {source : List Char} (h : s.Exact source) :
    ∃ places : List Nat, List.Forall₂ (Lexer.Starts source) places (s.done.map Prod.snd).reverse ∧
      places.Pairwise (· < ·) := by
  refine ⟨(s.done.map Prod.fst).reverse, ?_, ?_⟩
  · rw [List.forall₂_reverse_iff, List.forall₂_map_left_iff, List.forall₂_map_right_iff,
      List.forall₂_same]
    exact fun e he => (h.starts e he).2
  · rw [List.pairwise_reverse, List.pairwise_map]
    exact h.increasing

/-- The lines of the tokens that a lexer has read do not decrease. -/
theorem Lexer.Exact.lines {source : List Char} (h : s.Exact source) :
    ((s.done.map Prod.snd).reverse.map Token.line).Pairwise (· ≤ ·) := by
  rw [List.pairwise_map, List.pairwise_reverse, List.pairwise_map]
  refine h.increasing.imp_of_mem fun {e e'} he he' hlt => ?_
  rw [(h.starts e he).2.line, (h.starts e' he').2.line]
  exact Nat.add_le_add_left (lineFeeds_take_le hlt.le) 1

/-- A line of a source. -/
def IsLine (source : String) (line : Nat) : Prop := 1 ≤ line ∧ line ≤ 1 + lineFeeds source.toList

theorem tokenize_blames : Blames (IsLine source) (tokenize source) := by
  intro e he
  obtain ⟨s, c, cs, feeds, fault, hreaches, here, read, rfl⟩ := Lexer.tokenize_eq_error_iff.1 he
  have hexact := (Lexer.exact_of_reaches hreaches).cursor
  have hfeeds : feeds ≤ lineFeeds (c :: cs) := Lexeme.within_next c cs _ read
  have hline := hexact.line_add
  have hfirst := hexact.line_eq
  rw [here] at hline
  constructor <;> (dsimp only; omega)

theorem tokenize_onLines {ts : List Token} (h : tokenize source = .ok ts) :
    OnLines (IsLine source) ts := by
  obtain ⟨s, hreaches, -, rfl⟩ := Lexer.tokenize_eq_ok_iff.1 h
  intro t ht
  obtain ⟨e, he, rfl⟩ := List.mem_map.1 (List.mem_reverse.1 ht)
  have hstarts := ((Lexer.exact_of_reaches hreaches).starts e he).2
  have hle : lineFeeds (source.toList.take e.1) ≤ lineFeeds source.toList :=
    (List.take_sublist ..).count_le _
  rw [IsLine, hstarts.line]
  omega

theorem ofSource_blames : Blames (IsLine source) (ClassFile.ofSource source) := by
  unfold ClassFile.ofSource
  split
  · exact tokenize_blames.of_eq ‹_›
  · rename_i ts hts
    have hlines := tokenize_onLines hts
    refine ofTokens_blames ?_ hlines
    unfold ClassFile.lastLine
    cases hlast : ts.getLast? with
    | none => exact ⟨Nat.le_refl 1, Nat.le_add_right 1 _⟩
    | some t => exact hlines t (List.mem_of_getLast? hlast)

end

/-- **Places and lines are exact,** across heredocs as well.

    For every source:

    * in every round of the lexer its place is in the source, its line is one more than the line
      feeds before the place, and the round ends behind its start;
    * what this lexer finds, tokens or an error, is what `tokenize` does;
    * every token has the line on which its lexeme starts. The tokens stand one behind the other,
      so that their lines do not decrease;
    * a syntax error, of the lexer or of the parser, names a line of the source. -/
theorem lines_exact (source : String) :
    (∀ s, Lexer.Reaches source.toList s → s.cursor.pos ≤ source.toList.length ∧
        s.cursor.line = 1 + lineFeeds (source.toList.take s.cursor.pos) ∧
        ∀ s', Lexer.Round source.toList s s' → s.cursor.pos < s'.cursor.pos) ∧
      (∀ ts, tokenize source = .ok ts ↔ ∃ s, Lexer.Reaches source.toList s ∧
        s.cursor.rest source.toList = [] ∧ ts = (s.done.map Prod.snd).reverse) ∧
      (∀ e, tokenize source = .error e ↔ ∃ s c cs feeds fault, Lexer.Reaches source.toList s ∧
        s.cursor.rest source.toList = c :: cs ∧ Lexeme.next c cs = .error (feeds, fault) ∧
        e = ⟨s.cursor.line + feeds, fault⟩) ∧
      (∀ ts, tokenize source = .ok ts →
        (∃ places : List Nat, List.Forall₂ (Lexer.Starts source.toList) places ts ∧
          places.Pairwise (· < ·)) ∧ (ts.map Token.line).Pairwise (· ≤ ·)) ∧
      ∀ e, ClassFile.ofSource source = .error e →
        1 ≤ e.line ∧ e.line ≤ 1 + lineFeeds source.toList := by
  refine ⟨fun s hs => ?_, fun ts => Lexer.tokenize_eq_ok_iff, fun e => Lexer.tokenize_eq_error_iff,
    fun ts h => ?_, ofSource_blames⟩
  · have hexact := (Lexer.exact_of_reaches hs).cursor
    exact ⟨hexact.pos_le, hexact.line_eq, fun s' hround => hround.pos_lt⟩
  · obtain ⟨s, hreaches, -, rfl⟩ := Lexer.tokenize_eq_ok_iff.1 h
    have hexact := Lexer.exact_of_reaches hreaches
    exact ⟨hexact.places, hexact.lines⟩

end PhpSharp.Php
