/-
  The grammar of constant expressions, with the value of each form.

  * `Scope.Derives`: a run of tokens is a term, or an expression, of a value;
  * `Scope.evaluate_eq_ok_iff`: evaluation gives a value exactly if the whole run is an expression
    of that value;
  * `Scope.evaluate_grammar`: so no run has two values, and every other run is refused.
-/
import Mathlib.Tactic.SplitIfs
import PhpSharp.Php.Expression
import PhpSharp.Proofs.Text.Cut

namespace PhpSharp.Php

/-! ## Tokens and names -/

theorem Token.eq_of_isPunctuation {t : Token} {c : Char} (h : t.isPunctuation c = true) :
    t = ⟨.punctuation c, t.line⟩ := by
  obtain ⟨kind, line⟩ := t
  exact congrArg (Token.mk · line) (eq_of_beq h)

theorem Token.isName_iff {t : Token} {word : String} : t.isName word = true ↔
    ∃ text line, t = ⟨.name text, line⟩ ∧ Text.sameLetters text word = true := by
  obtain ⟨kind, line⟩ := t
  cases kind <;> simp [Token.isName]

/-- The segment stands alone, or behind the last backslash of the name. -/
def IsLastSegment (segment name : String) : Prop :=
  '\\' ∉ segment.toList ∧ (name = segment ∨ ∃ front, name = front ++ "\\" ++ segment)

/-- Read backwards, the segment stands before the first backslash. -/
theorem isLastSegment_iff {segment name : String} : IsLastSegment segment name ↔
    Text.IsBefore '\\' segment.toList.reverse name.toList.reverse := by
  have hbehind (front : String) : (front ++ "\\" ++ segment).toList.reverse =
      segment.toList.reverse ++ '\\' :: front.toList.reverse := by simp
  rw [IsLastSegment, Text.IsBefore, List.mem_reverse, List.reverse_inj, String.toList_inj]
  refine and_congr_right fun _ => or_congr_right ⟨?_, ?_⟩
  · rintro ⟨front, rfl⟩
    exact ⟨front.toList.reverse, hbehind front⟩
  · rintro ⟨rest, hname⟩
    refine ⟨String.ofList rest.reverse, String.toList_inj.1 (List.reverse_inj.1 ?_)⟩
    rw [hname, hbehind, String.toList_ofList, List.reverse_reverse]

theorem unqualified_eq_iff {name segment : String} :
    unqualified name = segment ↔ IsLastSegment segment name := by
  rw [isLastSegment_iff, ← Text.takeWhile_ne_eq_iff, ← String.toList_inj, unqualified,
    String.toList_ofList, List.reverse_eq_iff]

/-- The name before `::` means the class itself. -/
def Scope.Own (s : Scope) (name : String) : Prop :=
  Text.sameLetters name "self" = true ∨ Text.sameLetters name "static" = true ∨
    IsLastSegment s.className name

theorem Scope.isOwn_iff {s : Scope} {name : String} : s.isOwn name = true ↔ s.Own name := by
  simp only [Scope.isOwn, Scope.Own, Bool.or_eq_true, beq_iff_eq, unqualified_eq_iff, or_assoc]

/-! ## The grammar -/

/-- The two sorts of phrase. -/
inductive Phrase
  | term
  /-- Terms with points between them -/
  | expression

/-- A run of tokens is a phrase of this sort and of this value. -/
inductive Scope.Derives (s : Scope) : Phrase → List Token → String → Prop
  /-- `'text'` -/
  | string {value line} : s.Derives .term [⟨.string value, line⟩] value
  /-- `12` -/
  | number {raw value line} : numeral? raw = some value →
      s.Derives .term [⟨.number raw, line⟩] value
  /-- `-12`; zero has no sign. -/
  | minus {raw value line line'} : numeral? raw = some value →
      s.Derives .term [⟨.punctuation '-', line⟩, ⟨.number raw, line'⟩]
        (if value = "0" then "0" else "-" ++ value)
  /-- `+12` -/
  | plus {raw value line line'} : numeral? raw = some value →
      s.Derives .term [⟨.punctuation '+', line⟩, ⟨.number raw, line'⟩] value
  /-- `( E )` -/
  | group {ts value line line'} : s.Derives .expression ts value →
      s.Derives .term (⟨.punctuation '(', line⟩ :: (ts ++ [⟨.punctuation ')', line'⟩])) value
  /-- `true` -/
  | truth {word line} : Text.sameLetters word "true" = true →
      s.Derives .term [⟨.name word, line⟩] "1"
  /-- `false` and `null` -/
  | nothing {word line} :
      Text.sameLetters word "false" = true ∨ Text.sameLetters word "null" = true →
      s.Derives .term [⟨.name word, line⟩] ""
  /-- `self::NAME` -/
  | constant {scope name value line line' line''} :
      (∀ word ∈ ["true", "false", "null"], Text.sameLetters scope word = false) → s.Own scope →
      (name, value) ∈ s.known.entries →
      s.Derives .term [⟨.name scope, line⟩, ⟨.doubleColon, line'⟩, ⟨.name name, line''⟩] value
  /-- `T` -/
  | single {ts value} : s.Derives .term ts value → s.Derives .expression ts value
  /-- `E . T` -/
  | concat {ts us value value' line} : s.Derives .expression ts value →
      s.Derives .term us value' →
      s.Derives .expression (ts ++ ⟨.punctuation '.', line⟩ :: us) (value ++ value')

namespace Scope

variable {s : Scope} {waiting : List String} {before value : String} {ts rest : List Token}

/-! ## Values of single terms -/

theorem numberValue_eq_ok_iff {raw : String} :
    numberValue raw = .ok value ↔ numeral? raw = some value := by
  unfold numberValue
  cases numeral? raw <;> simp

theorem wordValue?_eq_none_iff {word : String} : wordValue? word = none ↔
    ∀ literal ∈ ["true", "false", "null"], Text.sameLetters word literal = false := by
  unfold wordValue?
  split_ifs with htrue hother
  · simp [htrue]
  · rcases Bool.or_eq_true_iff.1 hother with h | h <;> simp [h]
  · simp_all

/-- No word is two literals. -/
theorem sameLetters_unique {word literal literal' : String}
    (h : Text.sameLetters word literal = true) (h' : Text.sameLetters word literal' = true) :
    Text.sameLetters literal literal' = true :=
  beq_of_eq ((eq_of_beq h).symm.trans (eq_of_beq h'))

theorem wordValue?_eq_some_iff {word : String} : wordValue? word = some value ↔
    (Text.sameLetters word "true" = true ∧ value = "1") ∨
      ((Text.sameLetters word "false" = true ∨ Text.sameLetters word "null" = true) ∧
        value = "") := by
  unfold wordValue?
  split_ifs with htrue hother
  · have hfalse : ¬Text.sameLetters word "false" = true := fun h =>
      absurd (sameLetters_unique htrue h) (by decide)
    have hnull : ¬Text.sameLetters word "null" = true := fun h =>
      absurd (sameLetters_unique htrue h) (by decide)
    rw [Option.some.injEq, eq_comm]
    simp only [htrue, hfalse, hnull, true_and, or_self, Bool.false_eq_true, false_and, or_false]
  · rw [Bool.or_eq_true] at hother
    rw [Option.some.injEq, eq_comm]
    simp only [htrue, hother, Bool.false_eq_true, false_and, true_and, false_or]
  · rw [Bool.or_eq_true] at hother
    simp only [htrue, hother, Bool.false_eq_true, false_and, or_self]

theorem get?_eq_some_iff {known : Sdk.Constants} {name : String} :
    known.get? name = some value ↔ (name, value) ∈ known.entries := by
  obtain ⟨entries, hnodup⟩ := known
  show entries.lookup name = some value ↔ _
  induction entries with
  | nil => simp
  | cons entry entries ih =>
    obtain ⟨name', value'⟩ := entry
    rw [List.map_cons, List.nodup_cons] at hnodup
    by_cases hn : name = name'
    · subst hn
      have hnot : (name, value) ∉ entries := fun hm =>
        hnodup.1 (List.mem_map.2 ⟨_, hm, rfl⟩)
      simp [hnot, eq_comm]
    · rw [List.lookup_cons, beq_eq_false_iff_ne.2 hn, ih hnodup.2]
      simp [hn]

theorem constantValue_eq_ok_iff {scope name : String} :
    s.constantValue scope name = .ok value ↔
      s.Own scope ∧ (name, value) ∈ s.known.entries := by
  rw [← isOwn_iff, ← get?_eq_some_iff, constantValue]
  cases s.isOwn scope with
  | false => simp
  | true => cases s.known.get? name <;> simp

/-! ## Whole expressions have a value -/

theorem evaluateFrom_open {line : Nat} :
    s.evaluateFrom waiting before false (⟨.punctuation '(', line⟩ :: ts) =
      s.evaluateFrom (before :: waiting) "" false ts := by
  rw [evaluateFrom]
  rfl

theorem evaluateFrom_close {outer : String} {line : Nat} :
    s.evaluateFrom (outer :: waiting) before true (⟨.punctuation ')', line⟩ :: ts) =
      s.evaluateFrom waiting (outer ++ before) true ts := by
  rw [evaluateFrom.eq_def]
  rfl

theorem evaluateFrom_point {line : Nat} :
    s.evaluateFrom waiting before true (⟨.punctuation '.', line⟩ :: ts) =
      s.evaluateFrom waiting before false ts := by
  rw [evaluateFrom.eq_def]
  rfl

theorem evaluateFrom_term {t : Token} (hopen : t.isPunctuation '(' = false)
    (h : s.readTerm t.kind ts = .ok (value, rest)) :
    s.evaluateFrom waiting before false (t :: ts) =
      s.evaluateFrom waiting (before ++ value) true rest := by
  rw [evaluateFrom, if_neg (by simp [hopen])]
  split
  · rename_i h'
    cases h.symm.trans h'
  · rename_i h'
    cases h.symm.trans h'
    rfl

/-- A phrase is read to its end, and its value goes behind what was read before. -/
theorem Derives.evaluateFrom {phrase : Phrase} (h : s.Derives phrase ts value) :
    s.evaluateFrom waiting before false (ts ++ rest) =
      s.evaluateFrom waiting (before ++ value) true rest := by
  induction h generalizing waiting before rest with
  | string => exact evaluateFrom_term rfl rfl
  | number hn =>
    exact evaluateFrom_term rfl (by simp [readTerm, numberValue_eq_ok_iff.2 hn, Except.map])
  | @minus raw value _ _ hn =>
    refine evaluateFrom_term rfl ?_
    by_cases hz : value = "0" <;>
      simp [readTerm, TokenKind.sign?, numberValue_eq_ok_iff.2 hn, signed, hz, Except.map]
  | plus hn =>
    refine evaluateFrom_term rfl ?_
    simp [readTerm, TokenKind.sign?, numberValue_eq_ok_iff.2 hn, signed, Except.map]
  | group _ ih =>
    rw [List.cons_append, List.append_assoc, evaluateFrom_open, ih, String.empty_append]
    exact evaluateFrom_close
  | truth hw =>
    exact evaluateFrom_term rfl (by simp [readTerm, wordValue?_eq_some_iff.2 (.inl ⟨hw, rfl⟩)])
  | nothing hw =>
    exact evaluateFrom_term rfl (by simp [readTerm, wordValue?_eq_some_iff.2 (.inr ⟨hw, rfl⟩)])
  | constant hw ho hm =>
    refine evaluateFrom_term rfl ?_
    simp [readTerm, wordValue?_eq_none_iff.2 hw, Token.name?,
      constantValue_eq_ok_iff.2 ⟨ho, hm⟩, Except.map]
  | single _ ih => exact ih
  | concat _ _ ih ih' =>
    rw [List.append_assoc, List.cons_append, ih, evaluateFrom_point, ih', String.append_assoc]

/-! ## What has a value is a whole expression -/

/-- A term is read from the tokens of a term. -/
theorem derives_of_readTerm {t : Token} (h : s.readTerm t.kind ts = .ok (value, rest)) :
    ∃ taken, ts = taken ++ rest ∧ s.Derives .term (t :: taken) value := by
  obtain ⟨kind, line⟩ := t
  dsimp only at h
  unfold readTerm at h
  split at h
  · cases h
    exact ⟨[], rfl, .string⟩
  · obtain ⟨v, hv, he⟩ := map_eq_ok h
    cases he
    exact ⟨[], rfl, .number (numberValue_eq_ok_iff.1 hv)⟩
  · split at h
    · -- a word with a value
      rename_i hword
      cases h
      rcases wordValue?_eq_some_iff.1 hword with ⟨hw, rfl⟩ | ⟨hw, rfl⟩
      · exact ⟨[], rfl, .truth hw⟩
      · exact ⟨[], rfl, .nothing hw⟩
    · -- a reference
      rename_i name after hword
      split at h
      · rename_i constant hname
        obtain ⟨v, hv, he⟩ := map_eq_ok h
        cases he
        obtain ⟨kind, line''⟩ := name
        obtain rfl : kind = .name constant := by cases kind <;> simp_all [Token.name?]
        obtain ⟨hown, hknown⟩ := constantValue_eq_ok_iff.1 hv
        exact ⟨[_, _], rfl, .constant (wordValue?_eq_none_iff.1 hword) hown hknown⟩
      · cases h
    · cases h
  · split at h
    · cases h
    · -- a number with a sign
      rename_i sign raw line' after hsign
      obtain ⟨v, hv, he⟩ := map_eq_ok h
      cases he
      have hn := numberValue_eq_ok_iff.1 hv
      refine ⟨[_], rfl, ?_⟩
      unfold TokenKind.sign? at hsign
      split at hsign
      · cases hsign
        have hminus : s.Derives .term [⟨.punctuation '-', line⟩, ⟨.number raw, line'⟩]
            (if v = "0" then "0" else "-" ++ v) := .minus hn
        by_cases hz : v = "0" <;> simpa [signed, hz] using hminus
      · cases hsign
        exact .plus hn
      · cases hsign
    · cases h

/-- Expressions with a point between them are an expression. -/
theorem Derives.append {us : List Token} {value' : String} (h : s.Derives .expression ts value)
    (h' : s.Derives .expression us value') (line : Nat) :
    s.Derives .expression (ts ++ ⟨.punctuation '.', line⟩ :: us) (value ++ value') := by
  generalize hp : Phrase.expression = phrase at h'
  induction h' with
  | single hterm => exact .concat h hterm
  | @concat _ _ _ _ line' _ hterm ih =>
    have hall := @Derives.concat s _ _ _ _ line' (ih hp) hterm
    rw [List.append_assoc, List.cons_append, String.append_assoc] at hall
    exact hall
  | _ => cases hp

/-- What is left of an expression, and the value it adds: with `true` a term was just read, with
    `false` one has to come. -/
inductive Tail (s : Scope) : Bool → List Token → String → Prop
  | expression {ts : List Token} {value : String} : s.Derives .expression ts value →
      s.Tail false ts value
  | done : s.Tail true [] ""
  | point {ts : List Token} {value : String} {line : Nat} : s.Derives .expression ts value →
      s.Tail true (⟨.punctuation '.', line⟩ :: ts) value

theorem Tail.behind {us : List Token} {value' : String} (h : s.Derives .term ts value)
    (h' : s.Tail true us value') : s.Tail false (ts ++ us) (value ++ value') := by
  cases h' with
  | done =>
    rw [List.append_nil, String.append_empty]
    exact .expression (.single h)
  | point h' => exact .expression ((Derives.single h).append h' _)

/-- What is left of an expression in which parentheses are open: each is closed in turn, and its
    value goes behind what waits in front of it. -/
def Closes (s : Scope) : List String → Bool → String → List Token → String → Prop
  | [], done?, before, ts, value => ∃ v, s.Tail done? ts v ∧ value = before ++ v
  | outer :: waiting, done?, before, ts, value => ∃ inner v line after,
      ts = inner ++ ⟨.punctuation ')', line⟩ :: after ∧ s.Tail done? inner v ∧
        Closes s waiting true (outer ++ (before ++ v)) after value

/-- Tokens that go in front of every tail go in front of what is left. -/
theorem Closes.prepend (front : List Token) {word : String} {done? done?' : Bool}
    (hfront : ∀ us w, s.Tail done? us w → s.Tail done?' (front ++ us) (word ++ w))
    (h : s.Closes waiting done? (before ++ word) ts value) :
    s.Closes waiting done?' before (front ++ ts) value := by
  cases waiting with
  | nil =>
    obtain ⟨v, htail, rfl⟩ := h
    exact ⟨word ++ v, hfront _ _ htail, String.append_assoc ..⟩
  | cons outer waiting =>
    obtain ⟨inner, v, line, after, rfl, htail, hrest⟩ := h
    rw [String.append_assoc] at hrest
    exact ⟨front ++ inner, word ++ v, line, after, (List.append_assoc ..).symm,
      hfront _ _ htail, hrest⟩

/-- What is evaluated to a value closes all parentheses. -/
theorem closes_of_evaluateFrom {done? : Bool}
    (h : s.evaluateFrom waiting before done? ts = .ok value) :
    s.Closes waiting done? before ts value := by
  fun_induction s.evaluateFrom waiting before done? ts with
  | case1 => cases h
  | case2 =>
    cases h
    exact ⟨"", .done, (String.append_empty ..).symm⟩
  | case3 => cases h
  -- a parenthesis opens: up to the one that closes it, all is one term
  | case4 waiting before t ts hopen ih =>
    obtain ⟨inner, v, line, after, rfl, hinner, hrest⟩ := ih h
    cases hinner with
    | expression hinner =>
      rw [Token.eq_of_isPunctuation hopen]
      rw [String.empty_append] at hrest
      have := hrest.prepend (⟨.punctuation '(', t.line⟩ :: (inner ++ [⟨.punctuation ')', line⟩]))
        fun us w htail => Tail.behind (.group hinner) htail
      simpa using this
  | case5 => cases h
  | case6 waiting before t ts _ v rest hterm ih =>
    obtain ⟨taken, rfl, hderives⟩ := derives_of_readTerm hterm
    exact (ih h).prepend (t :: taken) fun us w htail => Tail.behind hderives htail
  | case7 waiting before t ts hpoint ih =>
    have hrest := ih h
    rw [← String.append_empty (s := before)] at hrest
    refine hrest.prepend [t] fun us w htail => ?_
    cases htail with
    | expression hexpression =>
      rw [Token.eq_of_isPunctuation hpoint, String.empty_append]
      exact .point hexpression
  | case8 => cases h
  -- a parenthesis closes: nothing more is added inside it
  | case9 before t ts _ outer waiting hclose ih =>
    refine ⟨[], "", t.line, ts, ?_, .done, ?_⟩
    · rw [List.nil_append, ← Token.eq_of_isPunctuation hclose]
    · rw [String.append_empty]
      exact ih h
  | case10 => cases h

/-- **Evaluation accepts the grammar**, and nothing else, with the values of the grammar. -/
theorem evaluate_eq_ok_iff : s.evaluate ts = .ok value ↔ s.Derives .expression ts value := by
  constructor
  · intro h
    obtain ⟨v, htail, rfl⟩ := closes_of_evaluateFrom h
    cases htail with
    | expression h => rwa [String.empty_append]
  · intro h
    have hall : s.evaluateFrom [] "" false (ts ++ []) = s.evaluateFrom [] ("" ++ value) true [] :=
      h.evaluateFrom
    rw [List.append_nil, String.empty_append] at hall
    rw [evaluate, hall, Scope.evaluateFrom, if_pos rfl]

/-- **The grammar of constant expressions.** For every run of tokens, class and known constants,
    evaluation gives a value exactly if the whole run is an expression of that value; every run
    that is none is refused, and no run has two values. -/
theorem evaluate_grammar (s : Scope) (ts : List Token) :
    (∀ value, s.evaluate ts = .ok value ↔ s.Derives .expression ts value) ∧
      ((∃ fault, s.evaluate ts = .error fault) ↔ ¬∃ value, s.Derives .expression ts value) ∧
      ∀ value value', s.Derives .expression ts value → s.Derives .expression ts value' →
        value = value' := by
  have hgrammar : ∀ value, s.evaluate ts = .ok value ↔ s.Derives .expression ts value :=
    fun value => evaluate_eq_ok_iff
  refine ⟨hgrammar, ?_, fun value value' h h' => ?_⟩
  · simp only [← hgrammar]
    cases s.evaluate ts <;> simp
  · exact Except.ok.inj (((hgrammar value).2 h).symm.trans ((hgrammar value').2 h'))

/-- In a class `Ad` with `const PATH = 'act'`. -/
def adScope : Scope := ⟨"Ad", ⟨[("PATH", "act")], by decide⟩⟩

/-- `\Sdk\Ad::PATH . ('_' . -12)` -/
def adExpression : List Token :=
  [.name "\\Sdk\\Ad", .doubleColon, .name "PATH", .punctuation '.', .punctuation '(',
    .string "_", .punctuation '.', .punctuation '-', .number "12", .punctuation ')'].map (⟨·, 1⟩)

theorem evaluate_grammar_ad : adScope.Derives .expression adExpression "act_-12" ∧
    ¬∃ value, adScope.Derives .expression (adExpression.take 9) value :=
  ⟨((evaluate_grammar adScope adExpression).1 _).1 (by decide +kernel),
    (evaluate_grammar adScope (adExpression.take 9)).2.1.1
      ⟨.unbalancedParentheses, by decide +kernel⟩⟩

end Scope

end PhpSharp.Php
