/-
  Numbers with a fraction or an exponent.

  * `Written.FloatLiteral`: the literals of the grammar, with their value;
  * `FloatLiteral.tokenize_text`: a literal whose exponent has no sign is one token. A sign is none
    of the characters that a number goes on with, so a literal with one falls into three tokens;
  * `float_literals`: what this means for the constants of a class.
-/
import PhpSharp.Proofs.Php.Escapes
import PhpSharp.Proofs.Php.Integers
import PhpSharp.Proofs.Reflection.Constants

namespace PhpSharp.Php

namespace Written

/-! ## Literals -/

/-- Digits, with a mark before some of them but the first. -/
structure DigitRun where
  first : Fin 10
  more : List (Bool × Fin 10)
  deriving DecidableEq, Repr

/-- What stands between the first digits and the exponent. -/
inductive Fraction
  | none
  /-- `1.` -/
  | point
  /-- `1.5` -/
  | behindPoint (run : DigitRun)
  deriving DecidableEq, Repr

structure Exponent where
  /-- Whether its letter is `E`. -/
  upper : Bool
  sign? : Option Sign
  run : DigitRun
  deriving DecidableEq, Repr

/-- A decimal number with a fraction, an exponent or both. -/
structure FloatLiteral where
  whole : DigitRun
  fraction : Fraction
  exponent? : Option Exponent
  isFloat : fraction ≠ .none ∨ exponent?.isSome

def signChar : Sign → Char
  | .minus => '-'
  | .plus => '+'

def decimalChar (d : Fin 10) : Char := Nat.digitChar d

/-- The number that decimal digits spell, the first one the highest. -/
def decimalNumber (digits : List (Fin 10)) : Nat := Nat.ofDigits 10 (digits.map Fin.val).reverse

namespace DigitRun

def digits (r : DigitRun) : List (Fin 10) := r.first :: r.more.map Prod.snd

def text (r : DigitRun) : List Char :=
  decimalChar r.first :: r.more.flatMap fun (mark, d) =>
    if mark then ['_', decimalChar d] else [decimalChar d]

end DigitRun

namespace Fraction

def digits : Fraction → List (Fin 10)
  | none | point => []
  | behindPoint run => run.digits

def text : Fraction → List Char
  | none => []
  | point => ['.']
  | behindPoint run => '.' :: run.text

end Fraction

namespace Exponent

def letter (e : Exponent) : Char := if e.upper then 'E' else 'e'

def text (e : Exponent) : List Char :=
  e.letter :: (e.sign?.toList.map signChar ++ e.run.text)

def value (e : Exponent) : Int :=
  match e.sign? with
  | some .minus => -decimalNumber e.run.digits
  | _ => decimalNumber e.run.digits

end Exponent

namespace FloatLiteral

variable (f : FloatLiteral)

/-- The literal without its exponent. -/
def mantissa : List Char := f.whole.text ++ f.fraction.text

def text : List Char := f.mantissa ++ f.exponent?.toList.flatMap Exponent.text

/-- What stands before the sign of the exponent. -/
def front : List Char := f.mantissa ++ f.exponent?.toList.map Exponent.letter

/-- The double that the literal stands for. -/
def value : Decimal.Double :=
  .ofDecimal (decimalNumber (f.whole.digits ++ f.fraction.digits))
    ((f.exponent?.map Exponent.value).getD 0 - f.fraction.digits.length)

/-- The sign of the exponent. -/
def sign? : Option Sign := f.exponent?.bind Exponent.sign?

/-- The kinds of token that a literal is read as: the sign of an exponent is a token of its own. -/
def kinds : List TokenKind :=
  match f.exponent? with
  | some ⟨_, some sign, run⟩ =>
    [.number (String.ofList f.front), .punctuation (signChar sign),
      .number (String.ofList run.text)]
  | _ => [.number (String.ofList f.text)]

def tokens (line : Nat) : List Token := f.kinds.map (⟨·, line⟩)

end FloatLiteral

theorem decimalChar_spec : ∀ d, (decimalChar d).isDigit = true ∧ decimalChar d ≠ '_' ∧
    (decimalChar d).toLower = decimalChar d ∧ digitValue (decimalChar d) = d := by
  decide

/-! ## Values -/

/-- A literal without marks, its letter in lower case. -/
def Fraction.plain : Fraction → List Char
  | .none => []
  | .point => ['.']
  | .behindPoint run => '.' :: run.digits.map decimalChar

def Exponent.plain (e : Exponent) : List Char :=
  'e' :: (e.sign?.toList.map signChar ++ e.run.digits.map decimalChar)

theorem DigitRun.spells (r : DigitRun) : Spells (r.digits.map decimalChar) r.text := by
  have hchar (d : Fin 10) {ds cs : List Char} (h : Spells ds cs) :
      Spells (decimalChar d :: ds) (decimalChar d :: cs) := by
    have hstep := Spells.char (decimalChar_spec d).2.1 h
    rwa [(decimalChar_spec d).2.2.1] at hstep
  obtain ⟨first, more⟩ := r
  refine hchar first ?_
  induction more with
  | nil => exact .nil
  | cons next more ih =>
    obtain ⟨mark, d⟩ := next
    cases mark with
    | false => exact hchar d ih
    | true => exact .mark (hchar d ih)

theorem Fraction.spells (fr : Fraction) : Spells fr.plain fr.text := by
  cases fr with
  | none => exact .nil
  | point => exact .char (c := '.') (by decide) .nil
  | behindPoint run => exact .char (c := '.') (by decide) run.spells

theorem Exponent.spells (e : Exponent) : Spells e.plain e.text := by
  obtain ⟨upper, sign?, run⟩ := e
  have hsign : Spells (sign?.toList.map signChar) (sign?.toList.map signChar) := by
    rcases sign? with _ | _ | _
    · exact .nil
    · exact .char (c := '-') (by decide) .nil
    · exact .char (c := '+') (by decide) .nil
  cases upper with
  | false => exact .char (c := 'e') (by decide) (hsign.append run.spells)
  | true => exact .char (c := 'E') (by decide) (hsign.append run.spells)

end Written

open Written

theorem numberOf_decimal (digits : List (Fin 10)) :
    numberOf 10 (digits.map decimalChar) = decimalNumber digits := by
  rw [numberOf_eq_ofDigits, List.map_map, decimalNumber]
  congr 2
  exact List.map_congr_left fun d _ => (decimalChar_spec d).2.2.2

theorem all_decimal (digits : List (Fin 10)) :
    (digits.map decimalChar).all Char.isDigit = true := by
  simp [decimalChar_spec]

theorem natOfDigits?_decimal {digits : List (Fin 10)} (hne : digits ≠ []) :
    natOfDigits? 10 (digits.map decimalChar) = some (decimalNumber digits) := by
  refine (natOfDigits?_eq_some_iff (by decide)).2 ⟨⟨by simpa using hne, fun c hc => ?_⟩,
    numberOf_decimal digits⟩
  exact isDigitOf_ten_iff.2 (List.all_eq_true.1 (all_decimal digits) c hc)

theorem scale?_exponent (e : Exponent) : scale? e.plain = some e.value := by
  obtain ⟨upper, sign?, run⟩ := e
  have hvalue : natOfDigits? 10 (run.digits.map decimalChar) = some (decimalNumber run.digits) :=
    natOfDigits?_decimal (by simp [DigitRun.digits])
  cases sign? with
  | some sign => cases sign <;> exact congrArg (Option.map _) hvalue
  | none =>
    have hdigit : (decimalChar run.first).isDigit = true := (decimalChar_spec run.first).1
    show exponent? (decimalChar run.first :: _) = _
    rw [exponent?.eq_def]
    split
    · next h => rw [(List.cons.inj h).1] at hdigit; cases hdigit
    · next h => rw [(List.cons.inj h).1] at hdigit; cases hdigit
    · exact congrArg (Option.map _) hvalue

/-- The value of digits, a fraction and what stands behind both. -/
theorem double?_mantissa (whole : DigitRun) (fr : Fraction) {tail : List Char}
    (hdigit : tail.head?.any Char.isDigit = false) (hpoint : tail.head? ≠ some '.') :
    double? (whole.digits.map decimalChar ++ (fr.plain ++ tail)) =
      (scale? tail).map fun e => .ofDecimal (decimalNumber (whole.digits ++ fr.digits))
        (e - fr.digits.length) := by
  have hstop : (fr.plain ++ tail).head?.any Char.isDigit = false := by
    cases fr with
    | none => exact hdigit
    | point | behindPoint => rfl
  have hsplit : splitFraction (fr.plain ++ tail) = (fr.digits.map decimalChar, tail) := by
    cases fr with
    | none =>
      show splitFraction tail = ([], tail)
      rw [splitFraction.eq_def]
      split
      · exact absurd rfl hpoint
      · rfl
    | point =>
      exact Prod.ext (takeWhile_append_stop List.all_nil hdigit)
        (dropWhile_append_stop List.all_nil hdigit)
    | behindPoint run =>
      exact Prod.ext (takeWhile_append_stop (all_decimal _) hdigit)
        (dropWhile_append_stop (all_decimal _) hdigit)
  have hne : whole.digits.map decimalChar ≠ [] := by simp [DigitRun.digits]
  rw [double?, takeWhile_append_stop (all_decimal _) hstop,
    dropWhile_append_stop (all_decimal _) hstop, hsplit]
  simp [hne, ← List.map_append, numberOf_decimal]

/-- No letter but that of an exponent stands behind the digits in front. -/
theorem not_front_isPrefix {digits tail : List Char} (hdigits : digits.all Char.isDigit = true)
    {c : Char} (hc : c = '.' ∨ c = 'e') {r : Radix} (hr : r ≠ .leadingZero) :
    ¬ r.front <+: digits ++ c :: tail := by
  rintro ⟨rest, h⟩
  have hletter : ∀ d, r.front = ['0', d] → d.isDigit = false ∧ d ≠ c := by
    intro d hd
    rcases hc with rfl | rfl <;> cases r <;> cases hd <;> trivial
  obtain ⟨d, hd⟩ : ∃ d, r.front = ['0', d] := by
    cases r with
    | leadingZero => exact absurd rfl hr
    | hexadecimal | binary | octal => exact ⟨_, rfl⟩
  obtain ⟨hdigit, hne⟩ := hletter d hd
  rw [hd] at h
  match digits with
  | [] =>
    rw [List.nil_append, List.cons_append, List.cons.injEq] at h
    rcases hc with rfl | rfl <;> cases h.1
  | [_] => exact hne (List.cons.inj (List.cons.inj h).2).1
  | _ :: d' :: _ =>
    obtain rfl : d = d' := (List.cons.inj (List.cons.inj h).2).1
    simp [hdigit] at hdigits

/-- What has a point or an exponent behind its digits is read as a double. -/
theorem numberValue_double {raw : String} {digits tail : List Char} {c : Char}
    (hdigits : digits.all Char.isDigit = true) (hc : c = '.' ∨ c = 'e')
    (h : Spells (digits ++ c :: tail) raw.toList) :
    numberValue raw = match double? (digits ++ c :: tail) with
      | some d => .ok d.text
      | none => .error (.invalidNumber raw) := by
  have hmem : c ∈ digits ++ c :: tail := List.mem_append_right _ List.mem_cons_self
  have hdigit : c.isDigit = false := by rcases hc with rfl | rfl <;> rfl
  have hall : (digits ++ c :: tail).all Char.isDigit = false :=
    List.all_eq_false.2 ⟨c, hmem, by simp [hdigit]⟩
  have hnone := notation?_eq_none (fun r hr => not_front_isPrefix hdigits hc hr) hmem hdigit
  have hfloat : float? (digits ++ c :: tail) =
      (double? (digits ++ c :: tail)).map Decimal.Double.text := by
    cases digits with
    | nil => exact float?_of_head (by rcases hc with rfl | rfl <;> decide) _
    | cons d digits => exact float?_of_isDigit (Bool.and_eq_true_iff.1 hdigits).1 _
  rw [numberValue, numeral?, plainDigits_eq_iff.2 h]
  simp only [hnone, hall, hfloat]
  cases double? (digits ++ c :: tail) <;> rfl

namespace Written.FloatLiteral

variable (f : FloatLiteral)

theorem spells_mantissa :
    Spells (f.whole.digits.map decimalChar ++ f.fraction.plain) f.mantissa :=
  f.whole.spells.append f.fraction.spells

theorem spells : Spells
    (f.whole.digits.map decimalChar ++
      (f.fraction.plain ++ f.exponent?.toList.flatMap Exponent.plain))
    f.text := by
  rw [← List.append_assoc]
  refine f.spells_mantissa.append ?_
  cases f.exponent? with
  | none => exact .nil
  | some e => simpa using e.spells

/-- What stands behind the digits in front: a point or the letter of an exponent. -/
theorem exists_behind_digits : ∃ c tail, (c = '.' ∨ c = 'e') ∧
    f.fraction.plain ++ f.exponent?.toList.flatMap Exponent.plain = c :: tail := by
  obtain ⟨whole, fraction, exponent?, hfloat⟩ := f
  cases fraction with
  | point | behindPoint => exact ⟨'.', _, .inl rfl, rfl⟩
  | none =>
    cases exponent? with
    | some e => exact ⟨'e', _, .inr rfl, rfl⟩
    | none => simp at hfloat

/-- **Every literal has its value** where it is one token. -/
theorem numberValue_text : numberValue (String.ofList f.text) = .ok f.value.text := by
  obtain ⟨c, tail, hc, htail⟩ := f.exists_behind_digits
  have hspells := f.spells
  rw [htail, ← String.toList_ofList (l := f.text)] at hspells
  have hvalue : double? (f.whole.digits.map decimalChar ++ c :: tail) = some f.value := by
    rw [← htail]
    cases he : f.exponent? with
    | none =>
      rw [double?_mantissa _ _ rfl (by simp)]
      simp [FloatLiteral.value, he, scale?]
    | some e =>
      rw [double?_mantissa _ _ (by simp [Exponent.plain]) (by simp [Exponent.plain])]
      simp [FloatLiteral.value, he, scale?_exponent]
  rw [numberValue_double (all_decimal _) hc hspells, hvalue]

/-- What stands before the sign of an exponent is no number. -/
theorem numberValue_front {e : Exponent} (he : f.exponent? = some e) :
    numberValue (String.ofList f.front) = .error (.invalidNumber (String.ofList f.front)) := by
  have hletter : Spells ['e'] [e.letter] := by
    rw [Exponent.letter]
    cases e.upper with
    | false => exact .char (c := 'e') (by decide) .nil
    | true => exact .char (c := 'E') (by decide) .nil
  have hfront : f.front = f.mantissa ++ [e.letter] := by rw [front, he]; rfl
  have hspells := f.spells_mantissa.append hletter
  have hnone : double? (f.whole.digits.map decimalChar ++ (f.fraction.plain ++ ['e'])) = none := by
    rw [double?_mantissa _ _ rfl (by simp)]
    rfl
  obtain ⟨c, tail, hc, htail⟩ : ∃ c tail, (c = '.' ∨ c = 'e') ∧
      f.fraction.plain ++ ['e'] = c :: tail := by
    cases f.fraction with
    | point | behindPoint => exact ⟨'.', _, .inl rfl, rfl⟩
    | none => exact ⟨'e', _, .inr rfl, rfl⟩
  rw [List.append_assoc, htail, ← hfront, ← String.toList_ofList (l := f.front)] at hspells
  rw [numberValue_double (all_decimal _) hc hspells, ← htail, hnone]

end Written.FloatLiteral

/-! ## Tokens -/

theorem heads_numberText {cs rest : List Char} (h : isNumberText cs = true)
    (hr : rest.head?.any isNumberChar = false) :
    Heads ⟨cs, some (.number (String.ofList cs))⟩ rest := by
  have htext : isNumberText (String.ofList cs).toList = true := by rwa [String.toList_ofList]
  have hheads := heads_number htext hr
  rwa [String.toList_ofList] at hheads

theorem lineFeeds_of_isNumberText {cs : List Char} (h : isNumberText cs = true) :
    lineFeeds cs = 0 := by
  refine List.count_eq_zero.2 fun hmem => ?_
  cases cs with
  | nil => cases h
  | cons c cs =>
    obtain ⟨hdigit, hchars⟩ := Bool.and_eq_true_iff.1 h
    rcases List.mem_cons.1 hmem with rfl | hmem
    · cases hdigit
    · cases List.all_eq_true.1 hchars _ hmem

/-- Behind a number, the sign of an exponent is a token of its own. -/
theorem heads_sign (sign : Sign) (r : DigitRun) (rest : List Char) :
    Heads ⟨[signChar sign], some (.punctuation (signChar sign))⟩ (r.text ++ rest) := by
  refine ⟨signChar sign, [], rfl, ?_⟩
  cases sign with
  | plus => rfl
  | minus =>
    have hgreater : ∀ d, decimalChar d ≠ '>' := by decide
    show Lexeme.operator '-' '>' .arrow (decimalChar r.first :: _) = _
    rw [Lexeme.operator, if_neg (by simpa using hgreater r.first)]
    rfl

theorem all_text (r : DigitRun) : r.text.all isNumberChar = true := by
  have hdigit (d : Fin 10) : isNumberChar (decimalChar d) = true := by
    simp [isNumberChar, Char.isAlphanum, decimalChar_spec]
  have hmore (next : Bool × Fin 10) :
      (if next.1 then ['_', decimalChar next.2] else [decimalChar next.2]).all isNumberChar =
        true := by
    obtain ⟨mark, d⟩ := next
    cases mark with
    | true =>
      rw [if_pos rfl, List.all_cons, List.all_cons, hdigit]
      rfl
    | false => simp [hdigit]
  simp only [DigitRun.text, List.all_cons, hdigit, Bool.true_and, List.all_flatMap]
  exact List.all_eq_true.2 fun next _ => hmore next

/-- Text that a literal starts with is a number text if all of it may stand in a number. -/
theorem isNumberText_append (r : DigitRun) {cs : List Char} (h : cs.all isNumberChar = true) :
    isNumberText (r.text ++ cs) = true := by
  have hall := all_text r
  rw [DigitRun.text, List.all_cons, Bool.and_eq_true] at hall
  rw [DigitRun.text, List.cons_append, isNumberText, List.all_append, hall.2, h,
    (decimalChar_spec r.first).1]
  rfl

theorem all_fraction (fr : Fraction) : fr.text.all isNumberChar = true := by
  cases fr with
  | none | point => rfl
  | behindPoint run => exact all_text run

theorem isNumberChar_letter (e : Exponent) : isNumberChar e.letter = true := by
  rw [Exponent.letter]
  cases e.upper <;> rfl

namespace Written.FloatLiteral

variable (f : FloatLiteral)

theorem isNumberText_front : isNumberText f.front = true := by
  rw [front, mantissa, List.append_assoc]
  refine isNumberText_append _ ?_
  rw [List.all_append, all_fraction, Bool.true_and, List.all_map]
  exact List.all_eq_true.2 fun e _ => isNumberChar_letter e

variable {f}

/-- A literal whose exponent has no sign is one token. -/
theorem kinds_of_unsigned (h : f.sign? = none) :
    f.kinds = [.number (String.ofList f.text)] ∧ isNumberText f.text = true := by
  rw [sign?] at h
  constructor
  · rw [kinds]
    split
    · next he =>
      rw [he] at h
      cases h
    · rfl
  · rw [text, mantissa, List.append_assoc]
    refine isNumberText_append _ ?_
    rw [List.all_append, all_fraction, Bool.true_and, List.all_flatMap]
    refine List.all_eq_true.2 fun e he => ?_
    rw [Option.mem_toList.1 he] at h
    have hsign : e.sign? = none := h
    simp [Exponent.text, hsign, isNumberChar_letter, all_text]

/-- A literal whose exponent has a sign falls into three tokens. -/
theorem kinds_of_signed {sign : Sign} (h : f.sign? = some sign) :
    ∃ e, f.exponent? = some e ∧ f.text = f.front ++ signChar sign :: e.run.text ∧
      f.kinds = [.number (String.ofList f.front), .punctuation (signChar sign),
        .number (String.ofList e.run.text)] := by
  obtain ⟨⟨upper, sign?, run⟩, he, hsign⟩ := Option.bind_eq_some_iff.1 h
  cases hsign
  exact ⟨_, he, by simp [text, front, he, Exponent.text], by rw [kinds, he]⟩

/-- The tokens of a literal are read in front of whatever cannot go on with a number. -/
theorem tokenize_text {rest : List Char} (hr : rest.head?.any isNumberChar = false) :
    tokenize ("<?php " ++ String.ofList (f.text ++ rest)) =
      behind (f.tokens 1) 0 (tokenize ("<?php " ++ String.ofList rest)) := by
  cases h : f.sign? with
  | none =>
    obtain ⟨hkinds, htext⟩ := kinds_of_unsigned h
    rw [tokenize_heads (heads_numberText htext hr), lineFeeds_of_isNumberText htext, tokens, hkinds]
    rfl
  | some sign =>
    obtain ⟨e, -, htext, hkinds⟩ := kinds_of_signed h
    have hrun : isNumberText e.run.text = true := by
      simpa using isNumberText_append e.run List.all_nil
    have hsign : (signChar sign :: (e.run.text ++ rest)).head?.any isNumberChar = false := by
      cases sign <;> rfl
    have hfeed : lineFeeds [signChar sign] = 0 := by cases sign <;> rfl
    rw [htext, List.append_assoc, List.cons_append,
      tokenize_heads (heads_numberText f.isNumberText_front hsign), ← List.singleton_append,
      tokenize_heads (heads_sign sign e.run rest), tokenize_heads (heads_numberText hrun hr),
      behind_behind, behind_behind, hfeed, lineFeeds_of_isNumberText f.isNumberText_front,
      lineFeeds_of_isNumberText hrun, tokens, hkinds]
    rfl

theorem tokens_below (f : FloatLiteral) (n line : Nat) :
    (f.tokens line).map (Token.below n) = f.tokens (line + n) := by
  simp [tokens, Token.below]

theorem evaluate_of_number_error {raw : String} {fault : EvalFault}
    (h : numberValue raw = .error fault) (s : Scope) (line : Nat) (ts : List Token) :
    s.evaluate (⟨.number raw, line⟩ :: ts) = .error fault := by
  have hread : s.readTerm (.number raw) ts = .error fault := by
    rw [Scope.readTerm, h]
    rfl
  rw [Scope.evaluate, Scope.evaluateFrom, if_neg (by simp [Token.isPunctuation]), hread]

/-- A literal is evaluated to its value; where its exponent has a sign, what stands before that is
    no number. -/
theorem evaluate_tokens (f : FloatLiteral) (s : Scope) (line : Nat) :
    s.evaluate (f.tokens line) =
      if f.sign? = none then .ok f.value.text
      else .error (.invalidNumber (String.ofList f.front)) := by
  cases h : f.sign? with
  | none =>
    rw [tokens, (kinds_of_unsigned h).1, if_pos rfl, ← f.numberValue_text, ← evaluate_number s line]
    rfl
  | some sign =>
    obtain ⟨e, he, -, hkinds⟩ := kinds_of_signed h
    rw [tokens, hkinds, if_neg (by simp)]
    exact evaluate_of_number_error (f.numberValue_front he) s line _

end Written.FloatLiteral

end PhpSharp.Php

namespace PhpSharp.Reflection

open Php Php.Written

/-- A constant with a value in every scope is at fault only where its name is taken. -/
theorem fault_of_evaluates {c : ClassDecl} {d : ConstantDecl} {fault : ConstantFault}
    (hvalue : ∀ s : Scope, ∃ value, s.evaluate d.value = .ok value)
    (h : enumerationConstants c = .error (d, fault)) : fault = .declaredTwice := by
  obtain ⟨_, _, m, -, -, hfails⟩ := declareAll_eq_error_iff.1 h
  cases hfails with
  | declaredTwice => rfl
  | noValue herror =>
    obtain ⟨value, hok⟩ := hvalue ⟨c.name, m⟩
    cases hok.symm.trans herror

/-- A constant without a value in any scope ends the reading of its class. -/
theorem enumerationConstants_of_not_evaluates {c : ClassDecl} {d : ConstantDecl}
    (hd : d ∈ c.constants) (hvalue : ∀ (s : Scope) value, s.evaluate d.value ≠ .ok value) :
    ∃ fault, enumerationConstants c = .error fault := by
  cases h : enumerationConstants c with
  | error fault => exact ⟨fault, rfl⟩
  | ok m =>
    obtain ⟨i, hi⟩ := List.mem_iff_getElem?.1 hd
    obtain ⟨value, -, hok⟩ := (declareAll_eq_ok_iff.1 h).value i d hi
    exact absurd hok (hvalue _ value)

/-- **Numbers with a fraction or an exponent.** In front of what cannot go on with a number:

    * a literal whose exponent has no sign is one token; it has its value in every class, so that a
      constant with it is at fault only where its name is taken;
    * a literal whose exponent has a sign falls into three tokens, the first of which is no number;
      no class that has it for the value of a constant can be read as an enumeration.

    Alone in one token, every literal has its value. -/
theorem float_literals (f : FloatLiteral) :
    (∀ before rest, rest.head?.any isNumberChar = false → Arrives before (f.text ++ rest) →
      ∃ ts, tokenize (String.ofList (before ++ (f.text ++ rest))) =
        behind (ts ++ f.tokens (1 + lineFeeds before)) (lineFeeds before)
          (tokenize ("<?php " ++ String.ofList rest))) ∧
    (f.kinds = [.number (String.ofList f.text)] ↔ f.sign? = none) ∧
    (∀ (s : Scope) (line : Nat),
      s.evaluate [⟨.number (String.ofList f.text), line⟩] = .ok f.value.text) ∧
    (∀ (s : Scope) (line : Nat), f.sign? ≠ none →
      s.evaluate (f.tokens line) = .error (.invalidNumber (String.ofList f.front))) ∧
    ∀ (c : ClassDecl) (d : ConstantDecl) (line : Nat), d ∈ c.constants → d.value = f.tokens line →
      (f.sign? = none → ∀ fault, enumerationConstants c = .error (d, fault) →
        fault = .declaredTwice) ∧
      (f.sign? ≠ none → ∃ fault, enumerationConstants c = .error fault) := by
  refine ⟨fun before rest hr h => ?_, ⟨fun h => ?_, fun h => (FloatLiteral.kinds_of_unsigned h).1⟩,
    fun s line => ?_, fun s line h => ?_,
    fun c d line hd hvalue => ⟨fun h fault hfault => ?_, fun h => ?_⟩⟩
  · obtain ⟨ts, hread, -⟩ := h.tokenize_eq
    refine ⟨ts, ?_⟩
    rw [hread, FloatLiteral.tokenize_text hr, behind_behind, FloatLiteral.tokens_below,
      Nat.add_zero]
  · by_contra hsign
    obtain ⟨sign, hsign⟩ := Option.ne_none_iff_exists'.1 hsign
    obtain ⟨e, -, -, hkinds⟩ := FloatLiteral.kinds_of_signed hsign
    simpa using congrArg List.length (hkinds.symm.trans h)
  · rw [evaluate_number, f.numberValue_text]
  · rw [FloatLiteral.evaluate_tokens, if_neg h]
  · refine fault_of_evaluates (fun s => ⟨f.value.text, ?_⟩) hfault
    rw [hvalue, FloatLiteral.evaluate_tokens, if_pos h]
  · refine enumerationConstants_of_not_evaluates hd fun s value hok => ?_
    rw [hvalue, FloatLiteral.evaluate_tokens, if_neg h] at hok
    cases hok

/-- `1e+5` -/
def signedExponent : FloatLiteral :=
  ⟨⟨1, []⟩, .none, some ⟨false, some .plus, ⟨5, []⟩⟩, .inr rfl⟩

/-- `1_0.5E3` -/
def unsignedExponent : FloatLiteral :=
  ⟨⟨1, [(true, 0)]⟩, .behindPoint ⟨5, []⟩, some ⟨true, none, ⟨3, []⟩⟩, .inl nofun⟩

theorem float_literals_exponents :
    (∃ ts, tokenize "<?php 1e+5;" = .ok (ts ++ [⟨.number "1e", 1⟩, ⟨.punctuation '+', 1⟩,
        ⟨.number "5", 1⟩, ⟨.punctuation ';', 1⟩])) ∧
      (∃ fault, enumerationConstants
        ⟨"Ad", false, none, [], [⟨"MAX", signedExponent.tokens 1, 1⟩], [], 1⟩ = .error fault) ∧
      Scope.evaluate ⟨"Ad", {}⟩ [⟨.number "1_0.5E3", 1⟩] = .ok "10500" := by
  have harrives : Arrives "<?php ".toList (signedExponent.text ++ [';']) :=
    ⟨"<?php".toList, [⟨[' '], none⟩], by decide, by decide +kernel, by decide +kernel⟩
  have hrest : tokenize ("<?php " ++ String.ofList [';']) = .ok [⟨.punctuation ';', 1⟩] := by
    decide +kernel
  obtain ⟨hread, -, -, -, hclass⟩ := float_literals signedExponent
  obtain ⟨-, -, hvalue, -, -⟩ := float_literals unsignedExponent
  refine ⟨?_, (hclass _ _ 1 List.mem_cons_self rfl).2 nofun, ?_⟩
  · obtain ⟨ts, hts⟩ := hread _ [';'] rfl harrives
    rw [hrest, behind_ok, List.append_assoc] at hts
    exact ⟨ts, hts⟩
  · have hten : unsignedExponent.value.text = "10500" := by decide +kernel
    exact (hvalue ⟨"Ad", {}⟩ 1).trans (congrArg _ hten)

end PhpSharp.Reflection
