/-
  The escapes of double-quoted literals, written out item by item.

  * `StaysOpen`: texts that do not end a literal, so that it goes on behind them;
  * `Written.QuotedItem`: characters and escapes, with the text that each stands for;
  * `tokenize_escapes`: a literal is read as what its items stand for, up to octal escapes of 256
    and more, which are read as they are written.
-/
import Mathlib.Data.Nat.Digits.Defs
import PhpSharp.Proofs.Php.Behind

namespace PhpSharp.Php

/-! ## Where a literal ends -/

/-- A text that holds no quote but behind a backslash, and does not end in an open escape. -/
inductive StaysOpen (quote : Char) : List Char → Prop
  | nil : StaysOpen quote []
  | char {c : Char} {cs : List Char} (hq : c ≠ quote) (hb : c ≠ '\\') :
      StaysOpen quote cs → StaysOpen quote (c :: cs)
  | escape (c : Char) {cs : List Char} : StaysOpen quote cs → StaysOpen quote ('\\' :: c :: cs)

section
variable {quote : Char} {cs ds : List Char}

theorem StaysOpen.append (h : StaysOpen quote cs) (h' : StaysOpen quote ds) :
    StaysOpen quote (cs ++ ds) := by
  induction h with
  | nil => exact h'
  | char hq hb _ ih => exact .char hq hb ih
  | escape c _ ih => exact .escape c ih

theorem StaysOpen.of_forall (h : ∀ c ∈ cs, c ≠ quote ∧ c ≠ '\\') : StaysOpen quote cs := by
  induction cs with
  | nil => exact .nil
  | cons c cs ih =>
    obtain ⟨hc, hcs⟩ := List.forall_mem_cons.1 h
    exact .char hc.1 hc.2 (ih hcs)

theorem StaysOpen.splitQuoted (h : StaysOpen quote cs) (hq : quote ≠ '\\') (rest : List Char) :
    splitQuoted quote (cs ++ quote :: rest) = some (cs, rest) := by
  induction h with
  | nil =>
    rw [List.nil_append, splitQuoted.eq_def]
    exact if_pos rfl
  | char hc hb _ ih =>
    rw [List.cons_append, splitQuoted.eq_def]
    simp [hc, hb, ih]
  | escape c _ ih => simp [Php.splitQuoted, Ne.symm hq, ih]

/-- What is read of a literal holds no quote that would have ended it before. -/
theorem staysOpen_of_splitQuoted {body rest : List Char}
    (h : splitQuoted quote cs = some (body, rest)) : StaysOpen quote body := by
  fun_induction Php.splitQuoted quote cs generalizing body with
  | case1 => cases h
  | case2 =>
    cases h
    exact .nil
  | case3 => cases h
  | case4 c cs _ ih =>
    obtain ⟨⟨b, r⟩, hb, he⟩ := Option.map_eq_some_iff.1 h
    cases he
    exact .escape c (ih hb)
  | case5 c cs hq hb ih =>
    obtain ⟨⟨b, r⟩, hs, he⟩ := Option.map_eq_some_iff.1 h
    cases he
    exact .char hq hb (ih hs)

instance (cs : List Char) : Decidable (StaysOpen '"' cs) :=
  decidable_of_iff (Php.splitQuoted '"' (cs ++ ['"']) = some (cs, []))
    ⟨staysOpen_of_splitQuoted, fun h => h.splitQuoted (by decide) []⟩

/-- A literal in double quotes is read up to its closing quote. -/
theorem StaysOpen.heads (h : StaysOpen '"' cs) (rest : List Char) :
    Heads ⟨'"' :: cs ++ ['"'], some (.string (String.ofList (decodeEscapes '"' cs)))⟩ rest := by
  refine ⟨'"', cs ++ ['"'], rfl, ?_⟩
  rw [List.append_assoc, List.singleton_append]
  show Lexeme.quoted '"' (Php.splitQuoted '"') (decodeEscapes '"') _ = _
  rw [Lexeme.quoted, h.splitQuoted (by decide)]

end

/-! ## Digits -/

theorem numberOf_eq_ofDigits (base : Nat) (digits : List Char) :
    numberOf base digits = Nat.ofDigits base (digits.map digitValue).reverse := by
  rw [numberOf, Nat.ofDigits_eq_foldr, List.foldr_reverse, List.foldl_map]
  simp only [Nat.cast_id, Nat.mul_comm base, Nat.add_comm]

/-- A run of digits is taken up to its end, or up to the limit. -/
theorem takeUpTo_append {n : Nat} {p : Char → Bool} {digits rest : List Char}
    (h : digits.all p = true) (hn : digits.length ≤ n)
    (hr : digits.length = n ∨ rest.head?.any p = false) :
    takeUpTo n p (digits ++ rest) = digits := by
  rcases hr with hr | hr
  · rw [takeUpTo, List.take_left' hr, List.takeWhile_eq_self_iff.2 (by simpa using h)]
  · have hrest : (rest.take (n - digits.length)).head?.any p = false := by
      cases rest with
      | nil => simp
      | cons c rest => cases n - digits.length <;> simp_all
    rw [takeUpTo, List.take_append, List.take_of_length_le hn, takeWhile_append_stop h hrest]

namespace Written

/-- A hexadecimal digit in either letter case. -/
structure HexDigit where
  value : Fin 16
  upper : Bool
  deriving DecidableEq, Repr

def HexDigit.char (d : HexDigit) : Char :=
  if d.upper then (Nat.digitChar d.value).toUpper else Nat.digitChar d.value

def octalChar (d : Fin 8) : Char := Nat.digitChar d

/-- The number that octal digits spell, the first one the highest. -/
def octalNumber (digits : List (Fin 8)) : Nat := Nat.ofDigits 8 (digits.map Fin.val).reverse

/-- The number that hexadecimal digits spell, the first one the highest. -/
def hexNumber (digits : List HexDigit) : Nat :=
  Nat.ofDigits 16 (digits.map fun d => d.value.val).reverse

theorem octalChar_spec : ∀ d, isOctalDigit (octalChar d) = true ∧
    digitValue (octalChar d) = d ∧ octalChar d ≠ '"' ∧ octalChar d ≠ '\\' := by
  decide

theorem HexDigit.char_spec (d : HexDigit) : isHexDigit d.char = true ∧
    digitValue d.char = d.value ∧ d.char ≠ '"' ∧ d.char ≠ '\\' ∧ d.char ≠ '}' ∧ d.char ≠ '+' := by
  have hall : ∀ (value : Fin 16) (upper : Bool), isHexDigit (HexDigit.char ⟨value, upper⟩) = true ∧
      digitValue (HexDigit.char ⟨value, upper⟩) = value ∧ HexDigit.char ⟨value, upper⟩ ≠ '"' ∧
      HexDigit.char ⟨value, upper⟩ ≠ '\\' ∧ HexDigit.char ⟨value, upper⟩ ≠ '}' ∧
      HexDigit.char ⟨value, upper⟩ ≠ '+' := by
    decide
  exact hall d.value d.upper

theorem numberOf_octal (digits : List (Fin 8)) :
    numberOf 8 (digits.map octalChar) = octalNumber digits := by
  rw [numberOf_eq_ofDigits, List.map_map, octalNumber]
  congr 2
  exact List.map_congr_left fun d _ => (octalChar_spec d).2.1

theorem numberOf_hex (digits : List HexDigit) :
    numberOf 16 (digits.map HexDigit.char) = hexNumber digits := by
  rw [numberOf_eq_ofDigits, List.map_map, hexNumber]
  congr 2
  exact List.map_congr_left fun d _ => d.char_spec.2.1

theorem all_octal (digits : List (Fin 8)) : (digits.map octalChar).all isOctalDigit = true := by
  simp [octalChar_spec]

theorem all_hex (digits : List HexDigit) : (digits.map HexDigit.char).all isHexDigit = true := by
  simp [HexDigit.char_spec]

/-! ## Items -/

/-- The letters that stand for a character behind a backslash. -/
def letterEscapes : List (Char × Char) :=
  [('n', '\n'), ('t', '\t'), ('r', '\r'), ('v', '\x0b'), ('e', '\x1b'), ('f', '\x0c'),
    ('\\', '\\'), ('$', '$'), ('"', '"')]

/-- What the text of a double-quoted literal is written with. -/
inductive QuotedItem
  /-- A character that stands for itself -/
  | char (c : Char) (quote : c ≠ '"') (backslash : c ≠ '\\')
  /-- `\n`: a letter that stands for a character -/
  | letter (c e : Char) (h : (c, e) ∈ letterEscapes)
  /-- `\101`: up to three octal digits -/
  | octal (digits : List (Fin 8)) (ne_nil : digits ≠ []) (length : digits.length ≤ 3)
  /-- `\x41`: up to two hexadecimal digits -/
  | hex (digits : List HexDigit) (ne_nil : digits ≠ []) (length : digits.length ≤ 2)
  /-- `\u` and the number of a character in braces -/
  | scalar (digits : List HexDigit) (ne_nil : digits ≠ []) (valid : (hexNumber digits).isValidChar)
  /-- `\q`: a backslash that escapes nothing -/
  | kept (c : Char) (letter : ∀ e, (c, e) ∉ letterEscapes) (octal : isOctalDigit c = false)

namespace QuotedItem

/-- The item as it is written. -/
def text : QuotedItem → List Char
  | char c _ _ => [c]
  | letter c _ _ => ['\\', c]
  | octal digits _ _ => '\\' :: digits.map octalChar
  | hex digits _ _ => '\\' :: 'x' :: digits.map HexDigit.char
  | scalar digits _ _ => '\\' :: 'u' :: '{' :: digits.map HexDigit.char ++ ['}']
  | kept c _ _ => ['\\', c]

/-- What the item stands for. A byte stands for the character with its number, and an octal
    escape for a byte, whatever its number. -/
def value : QuotedItem → List Char
  | char c _ _ => [c]
  | letter _ e _ => [e]
  | octal digits _ _ => [Char.ofNat (octalNumber digits % 256)]
  | hex digits _ _ => [Char.ofNat (hexNumber digits)]
  | scalar digits _ _ => [Char.ofNat (hexNumber digits)]
  | kept c _ _ => ['\\', c]

/-- An octal escape of a number that is no byte. -/
def Overflows : QuotedItem → Prop
  | octal digits _ _ => 256 ≤ octalNumber digits
  | _ => False

instance : DecidablePred Overflows
  | octal digits _ _ => inferInstanceAs (Decidable (256 ≤ octalNumber digits))
  | char _ _ _ | letter _ _ _ | hex _ _ _ | scalar _ _ _ | kept _ _ _ => .isFalse id

/-- What the item is read as. -/
def read (i : QuotedItem) : List Char := if i.Overflows then i.text else i.value

theorem read_octal (digits : List (Fin 8)) (ne_nil : digits ≠ []) (length : digits.length ≤ 3) :
    (octal digits ne_nil length).read =
      if octalNumber digits < 256 then [Char.ofNat (octalNumber digits)]
      else '\\' :: digits.map octalChar := by
  have hover : (octal digits ne_nil length).Overflows ↔ 256 ≤ octalNumber digits := Iff.rfl
  by_cases h : octalNumber digits < 256
  · rw [if_pos h, read, if_neg (by rwa [hover, not_le]), value, Nat.mod_eq_of_lt h]
  · rw [if_neg h, read, if_pos (by rwa [hover, ← not_lt]), text]

example : (octal [4, 0, 0] (by decide) (by decide)).read = ['\\', '4', '0', '0'] ∧
    (octal [4, 0, 0] (by decide) (by decide)).value = ['\x00'] := by
  decide

/-- The text behind an item does not go on with it: an item takes as many digits as there are, up
    to its limit. -/
def Ends : QuotedItem → List Char → Prop
  | octal digits _ _, rest => digits.length = 3 ∨ rest.head?.any isOctalDigit = false
  | hex digits _ _, rest => digits.length = 2 ∨ rest.head?.any isHexDigit = false
  | kept c _ _, rest => (c = 'x' → rest.head?.any isHexDigit = false) ∧
      (c = 'u' → rest.head? ≠ some '{')
  | _, _ => True

theorem staysOpen (i : QuotedItem) : StaysOpen '"' i.text := by
  have hoctal : ∀ digits : List (Fin 8), StaysOpen '"' (digits.map octalChar) := fun digits =>
    .of_forall <| List.forall_mem_map.2 fun d _ => (octalChar_spec d).2.2
  have hhex : ∀ digits : List HexDigit, StaysOpen '"' (digits.map HexDigit.char) := fun digits =>
    .of_forall <| List.forall_mem_map.2 fun d _ => ⟨d.char_spec.2.2.1, d.char_spec.2.2.2.1⟩
  cases i with
  | char c quote backslash => exact .char quote backslash .nil
  | letter c _ _ => exact .escape c .nil
  | octal digits ne_nil _ =>
    obtain ⟨d, more, rfl⟩ := List.exists_cons_of_ne_nil ne_nil
    exact .escape _ (hoctal more)
  | hex digits _ _ => exact .escape 'x' (hhex digits)
  | scalar digits _ _ =>
    exact .escape 'u' (.char (by decide) (by decide)
      ((hhex digits).append (.char (by decide) (by decide) .nil)))
  | kept c _ _ => exact .escape c .nil

end QuotedItem

end Written

/-! ## Decoding -/

section
variable {quote c : Char}

theorem simpleEscape?_letter {e : Char} (h : (c, e) ∈ Written.letterEscapes) :
    simpleEscape? '"' c = some e := by
  revert h
  simp only [Written.letterEscapes, List.mem_cons, List.not_mem_nil, or_false, Prod.mk.injEq]
  rintro (h | h | h | h | h | h | h | h | h) <;> obtain ⟨rfl, rfl⟩ := h <;> rfl

theorem simpleEscape?_kept (h : ∀ e, (c, e) ∉ Written.letterEscapes) :
    simpleEscape? '"' c = none := by
  have hne : ∀ p ∈ Written.letterEscapes, c ≠ p.1 := by
    rintro ⟨_, e⟩ hp rfl
    exact h e hp
  simp only [Written.letterEscapes, List.forall_mem_cons] at hne
  simp [simpleEscape?, hne]

end

namespace Written.QuotedItem

/-- An octal escape is no other escape. -/
theorem octalChar_simple : ∀ d, simpleEscape? '"' (octalChar d) = none ∧
    octalChar d ≠ 'x' ∧ octalChar d ≠ 'u' := by
  decide

theorem decodeEscapes_octal {digits : List (Fin 8)} {rest : List Char} (ne_nil : digits ≠ [])
    (length : digits.length ≤ 3)
    (hr : digits.length = 3 ∨ rest.head?.any isOctalDigit = false) :
    decodeEscapes '"' ('\\' :: (digits.map octalChar ++ rest)) =
      (if octalNumber digits < 256 then [Char.ofNat (octalNumber digits)]
        else '\\' :: digits.map octalChar) ++ decodeEscapes '"' rest := by
  have htake : takeUpTo 3 isOctalDigit (digits.map octalChar ++ rest) = digits.map octalChar :=
    takeUpTo_append (all_octal digits) (by simpa using length) (by simpa using hr)
  have hnumber := numberOf_octal digits
  obtain ⟨d, more, rfl⟩ := List.exists_cons_of_ne_nil ne_nil
  obtain ⟨hsimple, hx, hu⟩ := octalChar_simple d
  rw [List.map_cons, List.cons_append] at htake
  rw [List.map_cons, List.cons_append, decodeEscapes.eq_def]
  simp only [hsimple, hx, hu, (octalChar_spec d).1, htake]
  rw [← List.cons_append, ← List.map_cons, List.drop_left, hnumber]
  simp

theorem decodeEscapes_hex {digits : List HexDigit} {rest : List Char} (ne_nil : digits ≠ [])
    (length : digits.length ≤ 2) (hr : digits.length = 2 ∨ rest.head?.any isHexDigit = false) :
    decodeEscapes '"' ('\\' :: 'x' :: (digits.map HexDigit.char ++ rest)) =
      Char.ofNat (hexNumber digits) :: decodeEscapes '"' rest := by
  have htake : takeUpTo 2 isHexDigit (digits.map HexDigit.char ++ rest) =
      digits.map HexDigit.char :=
    takeUpTo_append (all_hex digits) (by simpa using length) (by simpa using hr)
  have hsimple : simpleEscape? '"' 'x' = none := rfl
  rw [decodeEscapes.eq_def]
  simp [hsimple, htake, ne_nil, numberOf_hex]

theorem decodeEscapes_scalar {digits : List HexDigit} (ne_nil : digits ≠ [])
    (valid : (hexNumber digits).isValidChar) (rest : List Char) :
    decodeEscapes '"' ('\\' :: 'u' :: '{' :: (digits.map HexDigit.char ++ '}' :: rest)) =
      Char.ofNat (hexNumber digits) :: decodeEscapes '"' rest := by
  have hbrace : (digits.map HexDigit.char).all (· ≠ '}') = true := by simp [HexDigit.char_spec]
  have htake : (digits.map HexDigit.char ++ '}' :: rest).takeWhile (· ≠ '}') =
      digits.map HexDigit.char := takeWhile_append_stop hbrace rfl
  have hscalar : scalarOf (digits.map HexDigit.char) = some (Char.ofNat (hexNumber digits)) := by
    have hplus : (digits.map HexDigit.char).head? ≠ some '+' := by
      obtain ⟨d, more, rfl⟩ := List.exists_cons_of_ne_nil ne_nil
      simp [HexDigit.char_spec]
    simp only [scalarOf, if_neg hplus, all_hex, numberOf_hex, if_pos valid]
    simp [ne_nil]
  have hsimple : simpleEscape? '"' 'u' = none := rfl
  have hdrop : (digits.map HexDigit.char ++ '}' :: rest).drop
      ((digits.map HexDigit.char).length + 1) = rest := by
    rw [← List.drop_drop, List.drop_left]
    rfl
  rw [decodeEscapes.eq_def]
  simp only [hsimple, htake, hscalar, hdrop]
  simp

theorem decodeEscapes_kept {c : Char} (letter : ∀ e, (c, e) ∉ letterEscapes)
    (octal : isOctalDigit c = false) {rest : List Char}
    (hx : c = 'x' → rest.head?.any isHexDigit = false) (hu : c = 'u' → rest.head? ≠ some '{') :
    decodeEscapes '"' ('\\' :: c :: rest) = '\\' :: c :: decodeEscapes '"' rest := by
  rw [decodeEscapes.eq_def]
  simp only [simpleEscape?_kept letter]
  by_cases hc : c = 'x'
  · have htake : takeUpTo 2 isHexDigit ([] ++ rest) = [] :=
      takeUpTo_append rfl (Nat.zero_le 2) (.inr (hx hc))
    rw [List.nil_append] at htake
    simp [hc, htake]
  by_cases hc' : c = 'u'
  · subst hc'
    cases rest with
    | nil => simp
    | cons d rest =>
      have hd : d ≠ '{' := by simpa using hu rfl
      simp [hd]
  · simp [hc, hc', octal]

/-- **What an item is read as,** in front of any text that does not go on with it. -/
theorem decodeEscapes_text (i : QuotedItem) {rest : List Char} (h : i.Ends rest) :
    decodeEscapes '"' (i.text ++ rest) = i.read ++ decodeEscapes '"' rest := by
  cases i with
  | char c quote backslash => exact decodeEscapes_plain backslash rest
  | letter c e he => exact decodeEscapes_simple (simpleEscape?_letter he) rest
  | octal digits ne_nil length =>
    rw [text, List.cons_append, decodeEscapes_octal ne_nil length h, read_octal]
  | hex digits ne_nil length => exact decodeEscapes_hex ne_nil length h
  | scalar digits ne_nil valid =>
    have hread : (scalar digits ne_nil valid).read = [Char.ofNat (hexNumber digits)] := rfl
    simpa [text, hread] using decodeEscapes_scalar ne_nil valid rest
  | kept c letter octal => exact decodeEscapes_kept letter octal h.1 h.2

end Written.QuotedItem

/-! ## Literals -/

namespace Written

/-- A literal in double quotes, as the items that stand between them. -/
structure QuotedLiteral where
  items : List QuotedItem
  /-- Each item ends where the next one starts. -/
  ends : ∀ i before after, items = before ++ i :: after → i.Ends (after.flatMap QuotedItem.text)

namespace QuotedLiteral

variable (l : QuotedLiteral)

/-- The text between the quotes. -/
def body : List Char := l.items.flatMap QuotedItem.text

/-- The literal as it is written. -/
def text : List Char := '"' :: l.body ++ ['"']

/-- The text that the literal stands for. -/
def value : List Char := l.items.flatMap QuotedItem.value

/-- The text that it is read as. -/
def read : List Char := l.items.flatMap QuotedItem.read

theorem body_staysOpen : StaysOpen '"' l.body := by
  have hall : ∀ items : List QuotedItem, StaysOpen '"' (items.flatMap QuotedItem.text) := by
    intro items
    induction items with
    | nil => exact .nil
    | cons i items ih => exact i.staysOpen.append ih
  exact hall l.items

theorem decodeEscapes_body : decodeEscapes '"' l.body = l.read := by
  obtain ⟨items, ends⟩ := l
  simp only [body, read]
  induction items with
  | nil => rw [decodeEscapes.eq_def]; rfl
  | cons i items ih =>
    have hitem := ends i [] items rfl
    have hmore := ih fun j before after h => ends j (i :: before) after (by rw [h]; rfl)
    rw [List.flatMap_cons, List.flatMap_cons, i.decodeEscapes_text hitem, hmore]

theorem heads (rest : List Char) :
    Heads ⟨l.text, some (.string (String.ofList l.read))⟩ rest := by
  rw [← l.decodeEscapes_body]
  exact l.body_staysOpen.heads rest

end QuotedLiteral

namespace QuotedItem

/-- An overflowing escape is longer than the one character that it stands for. -/
theorem length_value_lt {i : QuotedItem} (h : i.Overflows) : i.value.length < i.read.length := by
  cases i with
  | octal digits ne_nil length =>
    have hlength := List.length_pos_iff.2 ne_nil
    rw [read, if_pos h]
    simpa [value, text] using hlength
  | _ => cases h

theorem length_value_le (i : QuotedItem) : i.value.length ≤ i.read.length := by
  by_cases h : i.Overflows
  · exact (length_value_lt h).le
  · rw [read, if_neg h]

theorem length_flatMap_value_le (items : List QuotedItem) :
    (items.flatMap value).length ≤ (items.flatMap read).length := by
  induction items with
  | nil => exact le_rfl
  | cons i items ih =>
    simp only [List.flatMap_cons, List.length_append]
    exact Nat.add_le_add i.length_value_le ih

/-- Items are read as what they stand for exactly if none of them overflows. -/
theorem read_eq_value_iff (items : List QuotedItem) :
    items.flatMap read = items.flatMap value ↔ ∀ i ∈ items, ¬i.Overflows := by
  induction items with
  | nil => simp
  | cons i items ih =>
    rw [List.forall_mem_cons, ← ih, List.flatMap_cons, List.flatMap_cons]
    constructor
    · intro h
      -- what is read is nowhere shorter, so it is nowhere longer either
      have hlength := congrArg List.length h
      have hmore := length_flatMap_value_le items
      have hitem := i.length_value_le
      simp only [List.length_append] at hlength
      refine ⟨fun hi => ?_, (List.append_inj h (by omega)).2⟩
      have := length_value_lt hi
      omega
    · rintro ⟨hi, hmore⟩
      rw [read, if_neg hi, hmore]

end QuotedItem

end Written

/-- **Escapes in double quotes.** A literal that is written with any items, in front of any text, is
    one token, its text is what the items are read as, and then follows what the text gives by
    itself. That is what the items stand for if and only if no octal escape is 256 or more. -/
theorem tokenize_escapes (l : Written.QuotedLiteral) (rest : List Char) :
    tokenize ("<?php " ++ String.ofList (l.text ++ rest)) =
      behind [⟨.string (String.ofList l.read), 1⟩] (lineFeeds l.text)
        (tokenize ("<?php " ++ String.ofList rest)) ∧
    (l.read = l.value ↔ ∀ i ∈ l.items, ¬i.Overflows) := by
  have hread := tokenize_heads (l.heads rest)
  exact ⟨by simpa using hread, Written.QuotedItem.read_eq_value_iff l.items⟩

end PhpSharp.Php
