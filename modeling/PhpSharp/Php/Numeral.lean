/-
  The value of a number literal, as the text PHP prints for it.

  Integers come in four notations; the value of a decimal one has no bound, that of the
  others has 64 bits. What has a fraction or an exponent is a double, printed with the fewest
  digits that read back and without an exponent.

  No literal has a sign, and none is a word for an infinite number or for no number. These texts
  have values all the same: the digits behind the letter of a notation may follow a plus
  (`unsigned?`), and a double a sign (`float?`).
-/
import PhpSharp.Decimal.Shortest
import PhpSharp.Php.StringLiteral

namespace PhpSharp.Php

/-- The digits of a literal without the marks between them, in lower case. -/
def plainDigits (raw : String) : List Char := (raw.toList.filter (· ≠ '_')).map Char.toLower

/-- The base of a literal in another notation than decimal, and its digits. -/
def notation? : List Char → Option (Nat × List Char)
  | '0' :: 'x' :: ds => some (16, ds)
  | '0' :: 'b' :: ds => some (2, ds)
  | '0' :: 'o' :: ds => some (8, ds)
  | '0' :: d :: ds => if (d :: ds).all Char.isDigit then some (8, d :: ds) else none
  | _ => none

/-- The value of digits in a base, if there are any and all are of the base. -/
def natOfDigits? (base : Nat) (ds : List Char) : Option Nat :=
  if ds ≠ [] && ds.all (fun c => isHexDigit c && digitValue c < base) then some (numberOf base ds)
  else none

/-- The value of digits in a base, with a plus before them or none. -/
def unsigned? (base : Nat) : List Char → Option Nat
  | '+' :: ds => natOfDigits? base ds
  | ds => natOfDigits? base ds

/-- Decimal digits without the zeros in front; zero itself keeps one. -/
def stripZeros (ds : List Char) : List Char :=
  match ds.dropWhile (· = '0') with
  | [] => ['0']
  | ds => ds

/-- The exponent behind its letter: digits, with a sign before them or none. -/
def exponent? : List Char → Option Int
  | '-' :: ds => (natOfDigits? 10 ds).map fun n => -Int.ofNat n
  | '+' :: ds => (natOfDigits? 10 ds).map Int.ofNat
  | ds => (natOfDigits? 10 ds).map Int.ofNat

/-- The digits behind a point, and what follows them. -/
def splitFraction : List Char → List Char × List Char
  | '.' :: cs => (cs.takeWhile Char.isDigit, cs.dropWhile Char.isDigit)
  | cs => ([], cs)

/-- The exponent behind the digits: zero where nothing stands there. -/
def scale? : List Char → Option Int
  | [] => some 0
  | 'e' :: ds => exponent? ds
  | _ => none

/-- The double of `digits.digits` and an exponent; either side of the point may be empty, not
    both. -/
def double? (cs : List Char) : Option Decimal.Double :=
  let whole := cs.takeWhile Char.isDigit
  let (fraction, tail) := splitFraction (cs.dropWhile Char.isDigit)
  if whole = [] && fraction = [] then none
  else (scale? tail).map fun e =>
    .ofDecimal (numberOf 10 (whole ++ fraction)) (e - fraction.length)

/-- The printed value of a double without a sign, or of a word for an infinite one. -/
def magnitude? (cs : List Char) : Option String :=
  if cs = "inf".toList || cs = "infinity".toList then some Decimal.Double.infinite.text
  else (double? cs).map Decimal.Double.text

/-- The sign of a number as it is printed, and what follows it. -/
def splitSign : List Char → String × List Char
  | '-' :: cs => ("-", cs)
  | '+' :: cs => ("", cs)
  | cs => ("", cs)

/-- The printed value of a double with a sign before it or none; what is no number has none. -/
def float? (cs : List Char) : Option String :=
  let (sign, cs) := splitSign cs
  if cs = "nan".toList then some "NaN" else (magnitude? cs).map (sign ++ ·)

/-- The printed value of a number literal, if it is one. -/
def numeral? (raw : String) : Option String :=
  let digits := plainDigits raw
  match notation? digits with
  | some (base, ds) =>
    (unsigned? base ds).bind fun n => if n < Decimal.twoTo 64 then some (toString n) else none
  | none =>
    if digits.all Char.isDigit then some (String.ofList (stripZeros digits)) else float? digits

/-! ## What no sign stands before -/

theorem unsigned?_of_head {base : Nat} {ds : List Char} (h : ds.head? ≠ some '+') :
    unsigned? base ds = natOfDigits? base ds := by
  rw [unsigned?.eq_def]
  split
  · exact absurd rfl h
  · rfl

theorem splitSign_of_head {cs : List Char} (hplus : cs.head? ≠ some '+')
    (hminus : cs.head? ≠ some '-') : splitSign cs = ("", cs) := by
  rw [splitSign.eq_def]
  split
  · exact absurd rfl hminus
  · exact absurd rfl hplus
  · rfl

/-- What starts with a digit, a point or the letter of an exponent has no sign and is no word. -/
theorem float?_of_head {c : Char} (h : c ∉ ['+', '-', 'i', 'n']) (cs : List Char) :
    float? (c :: cs) = (double? (c :: cs)).map Decimal.Double.text := by
  simp only [List.mem_cons, List.not_mem_nil, or_false, not_or] at h
  obtain ⟨hplus, hminus, hi, hn⟩ := h
  rw [float?, splitSign_of_head (by simpa using hplus) (by simpa using hminus)]
  simp [magnitude?, hi, hn, Function.comp_def]

end PhpSharp.Php
