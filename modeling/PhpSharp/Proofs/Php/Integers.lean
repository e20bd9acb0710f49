/-
  Whole numbers in their five notations, and the text that each is evaluated to.

  * `Written.Spells`: a literal is written from these characters, in either letter case and with
    marks between them; `plainDigits_eq_iff` says that these are what is looked at;
  * `natOfDigits?_eq_some_iff`: digits have a value in a base exactly if all are of the base;
  * `integer_notations`: the notations of a number all give its decimal digits, and a literal that
    does not fit its notation, or 64 bits, is refused.
-/
import Mathlib.Data.Nat.Digits.Defs
import PhpSharp.Php.Expression
import PhpSharp.Proofs.Php.Spelling
import PhpSharp.Proofs.Text.Letters

namespace PhpSharp.Php

/-! ## Spellings -/

/-- A literal is written from these characters: each letter in either case, and with any marks
    between them. -/
inductive Written.Spells : List Char → List Char → Prop
  | nil : Spells [] []
  | char {c ds cs} : c ≠ '_' → Spells ds cs → Spells (c.toLower :: ds) (c :: cs)
  | mark {ds cs} : Spells ds cs → Spells ds ('_' :: cs)

open Written (Spells)

theorem Written.Spells.append {ds cs ds' cs' : List Char} (h : Spells ds cs) (h' : Spells ds' cs') :
    Spells (ds ++ ds') (cs ++ cs') := by
  induction h with
  | nil => exact h'
  | char hc _ ih => exact .char hc ih
  | mark _ ih => exact .mark ih

theorem plainDigits_eq_iff {raw : String} {ds : List Char} :
    plainDigits raw = ds ↔ Spells ds raw.toList := by
  rw [plainDigits]
  generalize raw.toList = cs
  constructor
  · rintro rfl
    induction cs with
    | nil => exact .nil
    | cons c cs ih =>
      by_cases hc : c = '_'
      · subst hc
        exact .mark ih
      · rw [List.filter_cons_of_pos (by simpa using hc)]
        exact .char hc ih
  · intro h
    induction h with
    | nil => rfl
    | char hc _ ih => rw [List.filter_cons_of_pos (by simpa using hc), List.map_cons, ih]
    | mark _ ih => rw [List.filter_cons_of_neg (by simp), ih]

/-- The text of a number token starts with a digit and has no sign in it. -/
theorem Written.Spells.of_isNumberText {ds cs : List Char} (h : Spells ds cs)
    (hcs : isNumberText cs = true) :
    (∃ c ds', ds = c :: ds' ∧ c.isDigit = true) ∧ '+' ∉ ds := by
  constructor
  · cases h with
    | nil => cases hcs
    | @char c ds cs =>
      have hdigit : c.isDigit = true := (Bool.and_eq_true_iff.1 hcs).1
      have hbounds : 48 ≤ c.toNat ∧ c.toNat ≤ 57 := Char.isDigit_iff_toNat.1 hdigit
      have hlower : c.toLower = c := (Text.toLower_eq_iff (by omega) (by omega)).2 rfl
      exact ⟨_, ds, rfl, hlower.symm ▸ hdigit⟩
    | mark => exact absurd hcs (by simp [isNumberText])
  · have hall : cs.all isNumberChar = true := by
      cases cs with
      | nil => rfl
      | cons c cs =>
        obtain ⟨hdigit, hcs⟩ := Bool.and_eq_true_iff.1 hcs
        simp [isNumberChar, Char.isAlphanum, hdigit, hcs]
    clear hcs
    induction h with
    | nil => exact List.not_mem_nil
    | char _ _ ih =>
      obtain ⟨hc, hcs⟩ := Bool.and_eq_true_iff.1 (List.all_cons ▸ hall)
      intro hmem
      rcases List.mem_cons.1 hmem with hplus | hmem
      · rw [(Text.toLower_eq_iff (by decide) (by decide)).1 hplus.symm] at hc
        cases hc
      · exact ih hcs hmem
    | mark _ ih => exact ih (Bool.and_eq_true_iff.1 (List.all_cons ▸ hall)).2

/-! ## Digits of a base -/

/-- A digit of a base up to sixteen, in either letter case. -/
def IsDigitOf (base : Nat) (c : Char) : Prop := ∃ d < base, c.toLower = Nat.digitChar d

theorem IsDigitOf.mono {base base' : Nat} {c : Char} (h : IsDigitOf base c) (hb : base ≤ base') :
    IsDigitOf base' c :=
  h.imp fun _ ⟨hd, hc⟩ => ⟨Nat.lt_of_lt_of_le hd hb, hc⟩

theorem toLower_of_isHexDigit : ∀ n : Fin 128, isHexDigit (Char.ofNat n) = true →
    (Char.ofNat n).toLower = Nat.digitChar (digitValue (Char.ofNat n)) := by
  decide +kernel

theorem isHexDigit_of_toLower : ∀ (n : Fin 128) (d : Fin 16),
    (Char.ofNat n).toLower = Nat.digitChar d →
    isHexDigit (Char.ofNat n) = true ∧ digitValue (Char.ofNat n) = d := by
  decide +kernel

theorem toNat_digitChar_lt : ∀ d : Fin 16, (Nat.digitChar d).toNat < 128 := by decide

theorem isDigitOf_iff {base : Nat} (hb : base ≤ 16) {c : Char} :
    IsDigitOf base c ↔ isHexDigit c = true ∧ digitValue c < base := by
  constructor
  · rintro ⟨d, hd, hc⟩
    have hsmall : c.toNat < 128 := by
      by_cases hu : c.val ≥ 'A'.val ∧ c.val ≤ 'Z'.val
      · have : c.toNat ≤ 90 := hu.2
        omega
      · have hlower : c.toLower = c := dif_neg hu
        rw [← hlower, hc]
        exact toNat_digitChar_lt ⟨d, by omega⟩
    have hspec := isHexDigit_of_toLower ⟨c.toNat, hsmall⟩ ⟨d, by omega⟩
    rw [Char.ofNat_toNat] at hspec
    obtain ⟨hhex, hvalue⟩ := hspec hc
    exact ⟨hhex, hvalue ▸ hd⟩
  · rintro ⟨hhex, hvalue⟩
    have hsmall : c.toNat < 128 := by
      simp only [isHexDigit, Bool.or_eq_true, Bool.and_eq_true, decide_eq_true_eq,
        Char.isDigit_iff_toNat] at hhex
      rcases hhex with (⟨-, h⟩ | ⟨-, h⟩) | ⟨-, h⟩
      · have : c.toNat ≤ 57 := h
        omega
      · have : c.toNat ≤ 102 := h
        omega
      · have : c.toNat ≤ 70 := h
        omega
    have hspec := toLower_of_isHexDigit ⟨c.toNat, hsmall⟩
    rw [Char.ofNat_toNat] at hspec
    exact ⟨digitValue c, hvalue, hspec hhex⟩

theorem natOfDigits?_eq_some_iff {base : Nat} (hb : base ≤ 16) {ds : List Char} {n : Nat} :
    natOfDigits? base ds = some n ↔
      (ds ≠ [] ∧ ∀ c ∈ ds, IsDigitOf base c) ∧ numberOf base ds = n := by
  have hdigits : (ds ≠ [] && ds.all (fun c => isHexDigit c && digitValue c < base)) = true ↔
      ds ≠ [] ∧ ∀ c ∈ ds, IsDigitOf base c := by
    simp [isDigitOf_iff hb]
  rw [natOfDigits?]
  simp only [hdigits, Option.ite_none_right_eq_some, Option.some.injEq]

theorem isDigitOf_ten_iff {c : Char} : IsDigitOf 10 c ↔ c.isDigit = true := by
  rw [isDigitOf_iff (by decide)]
  constructor
  · intro ⟨_, hvalue⟩
    by_contra hdigit
    rw [digitValue, if_neg hdigit] at hvalue
    omega
  · intro hdigit
    have h : 48 ≤ c.toNat ∧ c.toNat ≤ 57 := Char.isDigit_iff_toNat.1 hdigit
    refine ⟨by simp [isHexDigit, hdigit], ?_⟩
    rw [digitValue, if_pos hdigit]
    have : '0'.toNat = 48 := rfl
    omega

theorem isDigitOf_digitChar {base d : Nat} (hb : base ≤ 16) (hd : d < base) :
    IsDigitOf base (Nat.digitChar d) := by
  have hlower : ∀ d : Fin 16, (Nat.digitChar d).toLower = Nat.digitChar d := by decide
  exact ⟨d, hd, hlower ⟨d, by omega⟩⟩

theorem digitValue_digitChar {d : Nat} (hd : d < 16) : digitValue (Nat.digitChar d) = d := by
  have hvalue : ∀ d : Fin 16, digitValue (Nat.digitChar d) = d := by decide
  exact hvalue ⟨d, hd⟩

/-! ## The digits of a number -/

theorem numberOf_append (base : Nat) (ds : List Char) (c : Char) :
    numberOf base (ds ++ [c]) = numberOf base ds * base + digitValue c := by
  simp [numberOf]

theorem numberOf_zeros (base zeros : Nat) (ds : List Char) :
    numberOf base (List.replicate zeros '0' ++ ds) = numberOf base ds := by
  induction zeros with
  | zero => rfl
  | succ zeros ih =>
    rw [List.replicate_succ, List.cons_append, numberOf, List.foldl_cons, Nat.zero_mul]
    exact ih

section
variable {base : Nat} (hpos : 1 < base) (hb : base ≤ 16)
include hpos hb

theorem isDigitOf_of_mem_toDigits (n : Nat) : ∀ c ∈ Nat.toDigits base n, IsDigitOf base c := by
  induction n using Nat.strongRecOn with
  | ind n ih =>
    rcases Nat.lt_or_ge n base with hn | hn
    · rw [Nat.toDigits_of_lt_base hn, List.forall_mem_singleton]
      exact isDigitOf_digitChar hb hn
    · rw [Nat.toDigits_of_base_le hpos hn, List.forall_mem_append, List.forall_mem_singleton]
      exact ⟨ih _ (Nat.div_lt_self (by omega) hpos),
        isDigitOf_digitChar hb (Nat.mod_lt _ (by omega))⟩

theorem numberOf_toDigits (n : Nat) : numberOf base (Nat.toDigits base n) = n := by
  induction n using Nat.strongRecOn with
  | ind n ih =>
    rcases Nat.lt_or_ge n base with hn | hn
    · rw [Nat.toDigits_of_lt_base hn]
      simp [numberOf, digitValue_digitChar (Nat.lt_of_lt_of_le hn hb)]
    · have hlast : n % base < 16 := Nat.lt_of_lt_of_le (Nat.mod_lt _ (by omega)) hb
      rw [Nat.toDigits_of_base_le hpos hn, numberOf_append,
        ih _ (Nat.div_lt_self (by omega) hpos), digitValue_digitChar hlast,
        Nat.mul_comm, Nat.div_add_mod]

end

/-- No zero stands in front of the digits of a number that is not zero itself. -/
theorem toDigits_head_ne {n : Nat} (hn : 0 < n) : ∀ ds, Nat.toDigits 10 n ≠ '0' :: ds := by
  induction n using Nat.strongRecOn with
  | ind n ih =>
    intro ds h
    rcases Nat.lt_or_ge n 10 with hlt | hge
    · have hdigit : ∀ d : Fin 10, Nat.digitChar d = '0' → d = 0 := by decide
      rw [Nat.toDigits_of_lt_base hlt, List.cons.injEq] at h
      have := hdigit ⟨n, hlt⟩ h.1
      simp at this
      omega
    · rw [Nat.toDigits_of_base_le (by decide) hge, List.append_eq_cons_iff] at h
      rcases h with ⟨h, -⟩ | ⟨front, h, -⟩
      · exact Nat.toDigits_ne_nil h
      · exact ih (n / 10) (by omega) (by omega) _ h

/-! ## Notations -/

/-- The notations beside the decimal one. -/
inductive Radix
  /-- `0x1f` -/
  | hexadecimal
  /-- `0b11111` -/
  | binary
  /-- `0o37` -/
  | octal
  /-- `037` -/
  | leadingZero
  deriving DecidableEq

namespace Radix

def base : Radix → Nat
  | hexadecimal => 16
  | binary => 2
  | octal | leadingZero => 8

def front : Radix → List Char
  | hexadecimal => ['0', 'x']
  | binary => ['0', 'b']
  | octal => ['0', 'o']
  | leadingZero => ['0']

theorem one_lt_base (r : Radix) : 1 < r.base := by cases r <;> decide

theorem base_le (r : Radix) : r.base ≤ 16 := by cases r <;> decide

/-- What may stand behind the front of a notation: after a single zero decimal digits, or the
    literal is no whole number or zero itself. -/
def Takes : Radix → List Char → Prop
  | leadingZero, ds => ds ≠ [] ∧ ∀ c ∈ ds, c.isDigit = true
  | _, _ => True

end Radix

/-- Digits of the base, and at least one, may stand behind every front. -/
theorem Radix.takes_of_digits (r : Radix) {ds : List Char} (hne : ds ≠ [])
    (h : ∀ c ∈ ds, IsDigitOf r.base c) : r.Takes ds := by
  cases r with
  | hexadecimal | binary | octal => trivial
  | leadingZero => exact ⟨hne, fun c hc => isDigitOf_ten_iff.1 ((h c hc).mono (by decide))⟩

theorem notation?_front {r : Radix} {ds : List Char} (h : r.Takes ds) :
    notation? (r.front ++ ds) = some (r.base, ds) := by
  cases r with
  | hexadecimal | binary | octal => rfl
  | leadingZero =>
    obtain ⟨hne, hds⟩ := h
    obtain ⟨d, ds, rfl⟩ := List.exists_cons_of_ne_nil hne
    have hletter : d.isDigit = true := hds d List.mem_cons_self
    show notation? ('0' :: d :: ds) = some (8, d :: ds)
    rw [notation?.eq_def]
    split
    · next h => cases h; simp at hletter
    · next h => cases h; simp at hletter
    · next h => cases h; simp at hletter
    · next h =>
      cases h
      exact if_pos (List.all_eq_true.2 hds)
    · next h => exact absurd rfl (h d ds)

/-- Of a literal without a letter in front. -/
theorem notation?_eq_none {ds : List Char} (hfront : ∀ r ≠ Radix.leadingZero, ¬ r.front <+: ds)
    {c : Char} (hc : c ∈ ds) (hdigit : c.isDigit = false) : notation? ds = none := by
  rw [notation?.eq_def]
  split
  · next ds => exact absurd ⟨ds, rfl⟩ (hfront .hexadecimal (by decide))
  · next ds => exact absurd ⟨ds, rfl⟩ (hfront .binary (by decide))
  · next ds => exact absurd ⟨ds, rfl⟩ (hfront .octal (by decide))
  · next d ds _ _ _ =>
    refine if_neg fun hall => ?_
    have hmem : c ∈ d :: ds := by
      rcases List.mem_cons.1 hc with rfl | hmem
      · simp at hdigit
      · exact hmem
    rw [List.all_eq_true.1 hall c hmem] at hdigit
    cases hdigit
  · rfl

/-! ## What is not a number -/

theorem float?_of_isDigit {c : Char} (h : c.isDigit = true) (cs : List Char) :
    float? (c :: cs) = (double? (c :: cs)).map Decimal.Double.text := by
  refine float?_of_head (fun hmem => ?_) cs
  simp only [List.mem_cons, List.not_mem_nil, or_false] at hmem
  rcases hmem with rfl | rfl | rfl | rfl <;> cases h

/-- A character of a number with a fraction or an exponent. -/
def IsDoubleChar (c : Char) : Prop := c.isDigit = true ∨ c ∈ ['.', 'e', '+', '-']

theorem isDoubleChar_of_exponent? {ds : List Char} {e : Int} (h : exponent? ds = some e) :
    ∀ c ∈ ds, IsDoubleChar c := by
  have hall {ds : List Char} {n : Nat} (h : natOfDigits? 10 ds = some n) :
      ∀ c ∈ ds, IsDoubleChar c := fun c hc =>
    .inl (isDigitOf_ten_iff.1 (((natOfDigits?_eq_some_iff (by decide)).1 h).1.2 c hc))
  rw [exponent?.eq_def] at h
  split at h
  all_goals obtain ⟨n, hn, -⟩ := Option.map_eq_some_iff.1 h
  · exact List.forall_mem_cons.2 ⟨.inr (by decide), hall hn⟩
  · exact List.forall_mem_cons.2 ⟨.inr (by decide), hall hn⟩
  · exact hall hn

theorem isDoubleChar_of_scale? {tail : List Char} {e : Int} (h : scale? tail = some e) :
    ∀ c ∈ tail, IsDoubleChar c := by
  rw [scale?.eq_def] at h
  split at h
  · simp
  · exact List.forall_mem_cons.2 ⟨.inr (by decide), isDoubleChar_of_exponent? h⟩
  · cases h

theorem isDoubleChar_of_double? {cs : List Char} {d : Decimal.Double} (h : double? cs = some d) :
    ∀ c ∈ cs, IsDoubleChar c := by
  have hrun (cs : List Char) : ∀ c ∈ cs.takeWhile Char.isDigit, IsDoubleChar c := fun c hc =>
    .inl (List.all_eq_true.1 List.all_takeWhile c hc)
  have hsplit {cs : List Char} (h : ∀ c ∈ (splitFraction cs).2, IsDoubleChar c) :
      ∀ c ∈ cs, IsDoubleChar c := by
    rw [splitFraction.eq_def] at h
    split at h
    · next cs =>
      rw [← List.takeWhile_append_dropWhile (p := Char.isDigit) (l := cs)]
      exact List.forall_mem_cons.2 ⟨.inr (by decide), List.forall_mem_append.2 ⟨hrun cs, h⟩⟩
    · exact h
  rw [double?] at h
  generalize hs : splitFraction (cs.dropWhile Char.isDigit) = parts at h
  obtain ⟨fraction, tail⟩ := parts
  dsimp only at h
  split at h
  · cases h
  · obtain ⟨e, he, -⟩ := Option.map_eq_some_iff.1 h
    have htail : ∀ c ∈ (splitFraction (cs.dropWhile Char.isDigit)).2, IsDoubleChar c := by
      rw [hs]
      exact isDoubleChar_of_scale? he
    rw [← List.takeWhile_append_dropWhile (p := Char.isDigit) (l := cs)]
    exact List.forall_mem_append.2 ⟨hrun cs, hsplit htail⟩

theorem notation?_toDigits (n : Nat) : notation? (Nat.toDigits 10 n) = none := by
  rcases Nat.eq_zero_or_pos n with rfl | hn
  · rfl
  · have hhead := toDigits_head_ne hn
    rw [notation?.eq_def]
    split
    · next h => exact absurd h (hhead _)
    · next h => exact absurd h (hhead _)
    · next h => exact absurd h (hhead _)
    · next h => exact absurd h (hhead _)
    · rfl

theorem stripZeros_toDigits (n : Nat) : stripZeros (Nat.toDigits 10 n) = Nat.toDigits 10 n := by
  rcases Nat.eq_zero_or_pos n with rfl | hn
  · rfl
  · obtain ⟨d, ds, hds⟩ := List.exists_cons_of_ne_nil (Nat.toDigits_ne_nil (n := n) (b := 10))
    have hd : d ≠ '0' := fun hd => toDigits_head_ne hn ds (hd ▸ hds)
    simp [hds, stripZeros, List.dropWhile_cons_of_neg, hd]

/-- The digits of a literal that is no whole number: a letter in front with nothing behind it, a
    digit that is not of the base, or a letter that no number has. -/
inductive IsMisfit : List Char → Prop
  | noDigits {r : Radix} : r ≠ .leadingZero → IsMisfit r.front
  | digit {r : Radix} {ds : List Char} {c : Char} : r.Takes ds → c ∈ ds → ¬ IsDigitOf r.base c →
      IsMisfit (r.front ++ ds)
  | letter {ds : List Char} {c : Char} : (∀ r ≠ Radix.leadingZero, ¬ r.front <+: ds) → c ∈ ds →
      ¬ IsDoubleChar c → IsMisfit ds

/-- The digits of a whole number in one of its notations. -/
inductive Denotes : Nat → List Char → Prop
  | decimal (n : Nat) : Denotes n (Nat.toDigits 10 n)
  | radix (r : Radix) (zeros n : Nat) :
      Denotes n (r.front ++ (List.replicate zeros '0' ++ Nat.toDigits r.base n))

section
variable {raw : String} {ds : List Char} {n : Nat}

theorem evaluate_number (s : Scope) (line : Nat) :
    s.evaluate [⟨.number raw, line⟩] = numberValue raw := by
  rw [Scope.evaluate, Scope.evaluateFrom, if_neg (by simp [Token.isPunctuation])]
  rw [Scope.readTerm]
  cases numberValue raw with
  | ok value => simp [Except.map, Scope.evaluateFrom]
  | error e => rfl

theorem numberValue_decimal (h : Spells (Nat.toDigits 10 n) raw.toList) :
    numberValue raw = .ok (toString n) := by
  have hall : (Nat.toDigits 10 n).all Char.isDigit = true :=
    List.all_eq_true.2 fun c hc => Nat.isDigit_of_mem_toDigits (by decide) (by decide) hc
  rw [numberValue, numeral?, plainDigits_eq_iff.2 h]
  simp only [notation?_toDigits, hall, if_true, stripZeros_toDigits]
  rfl

/-- A literal that a notation takes has 64 bits and digits of the base. -/
theorem numberValue_front {r : Radix} (hds : r.Takes ds) (h : Spells (r.front ++ ds) raw.toList) :
    numberValue raw = match unsigned? r.base ds with
      | some n =>
        if n < Decimal.twoTo 64 then .ok (toString n) else .error (.invalidNumber raw)
      | none => .error (.invalidNumber raw) := by
  have hvalue : numeral? raw = (unsigned? r.base ds).bind fun n =>
      if n < Decimal.twoTo 64 then some (toString n) else none := by
    rw [numeral?, plainDigits_eq_iff.2 h]
    simp only [notation?_front hds]
  rw [numberValue, hvalue]
  cases unsigned? r.base ds with
  | none => rfl
  | some n => by_cases hn : n < Decimal.twoTo 64 <;> simp [hn]

theorem numberValue_radix {r : Radix} {zeros : Nat}
    (h : Spells (r.front ++ (List.replicate zeros '0' ++ Nat.toDigits r.base n)) raw.toList) :
    numberValue raw =
      if n < Decimal.twoTo 64 then .ok (toString n) else .error (.invalidNumber raw) := by
  have hdigits : ∀ c ∈ List.replicate zeros '0' ++ Nat.toDigits r.base n, IsDigitOf r.base c := by
    refine List.forall_mem_append.2
      ⟨fun c hc => ?_, isDigitOf_of_mem_toDigits r.one_lt_base r.base_le n⟩
    rw [List.eq_of_mem_replicate hc]
    exact isDigitOf_digitChar r.base_le (Nat.lt_trans Nat.zero_lt_one r.one_lt_base)
  have hne : List.replicate zeros '0' ++ Nat.toDigits r.base n ≠ [] := by
    simp [Nat.toDigits_ne_nil]
  have hvalue := (natOfDigits?_eq_some_iff r.base_le).2
    ⟨⟨hne, hdigits⟩, (numberOf_zeros ..).trans (numberOf_toDigits r.one_lt_base r.base_le n)⟩
  have hplus : ¬ IsDigitOf 16 '+' := by
    rw [isDigitOf_iff (by decide)]
    decide
  have hhead : (List.replicate zeros '0' ++ Nat.toDigits r.base n).head? ≠ some '+' := fun hhead =>
    hplus ((hdigits _ (List.mem_of_head? hhead)).mono r.base_le)
  rw [numberValue_front (r.takes_of_digits hne hdigits) h, unsigned?_of_head hhead, hvalue]

theorem numberValue_misfit (hds : IsMisfit ds) (hraw : isNumberText raw.toList = true)
    (h : Spells ds raw.toList) : numberValue raw = .error (.invalidNumber raw) := by
  obtain ⟨⟨first, ds', hfirst, hstarts⟩, hplus⟩ := h.of_isNumberText hraw
  cases hds with
  | @noDigits r hr =>
    have htakes : r.Takes [] := by
      cases r with
      | hexadecimal | binary | octal => exact True.intro
      | leadingZero => exact absurd rfl hr
    rw [← List.append_nil r.front] at h
    have hnone : unsigned? r.base [] = none := rfl
    rw [numberValue_front htakes h, hnone]
  | @digit r ds c htakes hc hdigit =>
    have hnone : natOfDigits? r.base ds = none := by
      refine Option.eq_none_iff_forall_ne_some.2 fun n hn => hdigit ?_
      exact ((natOfDigits?_eq_some_iff r.base_le).1 hn).1.2 c hc
    have hhead : ds.head? ≠ some '+' := fun hhead =>
      hplus (List.mem_append_right _ (List.mem_of_head? hhead))
    rw [numberValue_front htakes h, unsigned?_of_head hhead, hnone]
  | @letter _ c hfront hc hletter =>
    have hdigit : c.isDigit = false := Bool.eq_false_iff.2 fun hdigit => hletter (.inl hdigit)
    have hnone : double? ds = none := by
      refine Option.eq_none_iff_forall_ne_some.2 fun d hd => hletter ?_
      exact isDoubleChar_of_double? hd c hc
    have hall : ds.all Char.isDigit = false :=
      List.all_eq_false.2 ⟨c, hc, by simp [hdigit]⟩
    have hfloat : float? ds = none := by
      rw [hfirst, float?_of_isDigit hstarts, ← hfirst, hnone]
      rfl
    rw [numberValue, numeral?, plainDigits_eq_iff.2 h]
    simp [notation?_eq_none hfront hc hdigit, hall, hfloat]

theorem Denotes.numberValue (hds : Denotes n ds) (h : Spells ds raw.toList)
    (hn : n < Decimal.twoTo 64) : numberValue raw = .ok (toString n) := by
  cases hds with
  | decimal => exact numberValue_decimal h
  | radix r zeros => rw [numberValue_radix h, if_pos hn]

end

/-- **Whole numbers.** In decimal notation a number is evaluated to its digits, however large it
    is; in the other notations, with any zeros in front, it is so if it has 64 bits and is refused
    if it has more. A literal with a digit that is not of its base, or with none, is refused. So two
    literals for one number of 64 bits have the same value; letter case and marks never matter.
    What is refused is said of the texts that number tokens have: `0x+5` and `inf`, which no token
    has, have values. -/
theorem integer_notations (s : Scope) (line : Nat) (raw : String) :
    (∀ n, Spells (Nat.toDigits 10 n) raw.toList →
      s.evaluate [⟨.number raw, line⟩] = .ok (toString n)) ∧
    (∀ (r : Radix) (zeros n : Nat),
      Spells (r.front ++ (List.replicate zeros '0' ++ Nat.toDigits r.base n)) raw.toList →
      s.evaluate [⟨.number raw, line⟩] =
        if n < Decimal.twoTo 64 then .ok (toString n) else .error (.invalidNumber raw)) ∧
    (∀ ds, IsMisfit ds → isNumberText raw.toList = true → Spells ds raw.toList →
      s.evaluate [⟨.number raw, line⟩] = .error (.invalidNumber raw)) ∧
    ∀ n ds raw' ds', n < Decimal.twoTo 64 → Denotes n ds → Spells ds raw.toList →
      Denotes n ds' → Spells ds' raw'.toList →
      s.evaluate [⟨.number raw, line⟩] = s.evaluate [⟨.number raw', line⟩] := by
  simp only [evaluate_number]
  exact ⟨fun n => numberValue_decimal, fun r zeros n => numberValue_radix,
    fun ds => numberValue_misfit, fun n ds raw' ds' hn hds h hds' h' =>
      (hds.numberValue h hn).trans (hds'.numberValue h' hn).symm⟩

/-- `0x00F_f` and `2_55`, and `0b12`. -/
theorem integer_notations_255 :
    let ad : Scope := ⟨"Ad", {}⟩
    ad.evaluate [⟨.number "0x00F_f", 1⟩] = .ok "255" ∧
      ad.evaluate [⟨.number "0x00F_f", 1⟩] = ad.evaluate [⟨.number "2_55", 1⟩] ∧
      ad.evaluate [⟨.number "0b12", 1⟩] = .error (.invalidNumber "0b12") := by
  have hhex : Spells ['0', 'x', '0', '0', 'f', 'f'] "0x00F_f".toList := plainDigits_eq_iff.1 rfl
  have hdecimal : Spells ['2', '5', '5'] "2_55".toList := plainDigits_eq_iff.1 rfl
  have hsmall : 255 < Decimal.twoTo 64 := by decide
  obtain ⟨-, hradix, -, hsame⟩ := integer_notations ⟨"Ad", {}⟩ 1 "0x00F_f"
  obtain ⟨-, -, hmisfit, -⟩ := integer_notations ⟨"Ad", {}⟩ 1 "0b12"
  have hdigit : ¬ IsDigitOf 2 '2' := by
    rw [isDigitOf_iff (by decide)]
    decide
  have hbinary : IsMisfit (Radix.binary.front ++ ['1', '2']) := by
    have hmem : '2' ∈ ['1', '2'] := by decide
    exact .digit trivial hmem hdigit
  exact ⟨(hradix .hexadecimal 2 255 hhex).trans (if_pos hsmall),
    hsame 255 _ "2_55" _ hsmall (.radix .hexadecimal 2 255) hhex (.decimal 255) hdecimal,
    hmisfit _ hbinary rfl (plainDigits_eq_iff.1 rfl)⟩

end PhpSharp.Php
