/-
  Reading C# string literals, and what becomes of a text that is escaped for one.

  * `readLiteral` reads what stands between the quotes of a regular string literal;
  * `readLiteral_escape`: an escaped text is read back exactly, unless it holds one of the two
    separators of Unicode that end a line in C# and are left as they are.
-/
import Mathlib.Tactic.SplitIfs
import PhpSharp.CSharp.Literal

namespace PhpSharp.CSharp

/-! ## Reading -/

/-- The characters that end a line. None of them can stand in a literal as it is. -/
def isNewLine (c : Char) : Bool := ['\n', '\r', '\x85', '\u2028', '\u2029'].contains c

/-- The simple escapes, each with the character it stands for. -/
def simpleEscapes : List (Char × Char) :=
  [('\'', '\''), ('"', '"'), ('\\', '\\'), ('0', '\x00'), ('a', '\x07'), ('b', '\x08'),
    ('f', '\x0c'), ('n', '\n'), ('r', '\r'), ('t', '\t'), ('v', '\x0b')]

/-- The value of a hexadecimal digit. -/
def hexDigit? (c : Char) : Option Nat :=
  if c.isDigit then some (c.toNat - '0'.toNat)
  else if 'a' ≤ c ∧ c ≤ 'f' then some (c.toNat - 'a'.toNat + 10)
  else if 'A' ≤ c ∧ c ≤ 'F' then some (c.toNat - 'A'.toNat + 10)
  else none

/-- The character that hexadecimal digits name. -/
def hexChar? (digits : List Char) : Option Char :=
  (digits.mapM hexDigit?).bind fun values =>
    let n := values.foldl (fun n d => n * 16 + d) 0
    if n.isValidChar then some (Char.ofNat n) else none

/-- Reads what stands between the quotes of a literal: characters, simple escapes, and `\u` with
    four digits. -/
def readLiteral : List Char → Option (List Char)
  | [] => some []
  | '\\' :: 'u' :: a :: b :: c :: d :: cs =>
    (hexChar? [a, b, c, d]).bind fun e => (readLiteral cs).map (e :: ·)
  | '\\' :: e :: cs => (simpleEscapes.lookup e).bind fun e => (readLiteral cs).map (e :: ·)
  | c :: cs =>
    if c = '\\' || c = '"' || isNewLine c then none else (readLiteral cs).map (c :: ·)

/-- The separators that end a line and are no control characters. -/
def isSeparator (c : Char) : Bool := ['\u2028', '\u2029'].contains c

theorem isSeparator_iff {c : Char} : isSeparator c = true ↔ c = '\u2028' ∨ c = '\u2029' := by
  simp [isSeparator]

/-! ## Reading back -/

theorem readLiteral_plain {c : Char} (hb : c ≠ '\\') (cs : List Char) :
    readLiteral (c :: cs) =
      if c = '"' || isNewLine c then none else (readLiteral cs).map (c :: ·) := by
  rw [readLiteral]
  · simp [hb]
  all_goals intros; simp_all

theorem hexDigit?_digitChar : ∀ d < 16, hexDigit? (Nat.digitChar d) = some d := by decide

/-- Four digits name the character whose number they are. -/
theorem hexChar?_fourDigits {c : Char} (h : c.toNat < 65536) :
    hexChar? (fourDigits c.toNat) = some c := by
  have hvalues : (fourDigits c.toNat).mapM hexDigit? =
      some [c.toNat / 4096 % 16, c.toNat / 256 % 16, c.toNat / 16 % 16, c.toNat % 16] := by
    simp [fourDigits, hexDigit?_digitChar, Nat.mod_lt]
  have hn : ((c.toNat / 4096 % 16 * 16 + c.toNat / 256 % 16) * 16 + c.toNat / 16 % 16) * 16 +
      c.toNat % 16 = c.toNat := by omega
  have hvalid : c.toNat.isValidChar := c.valid
  rw [hexChar?, hvalues]
  simp [hn, hvalid]

theorem readLiteral_unicode {c : Char} (h : c.toNat < 65536) (cs : List Char) :
    readLiteral ('\\' :: 'u' :: fourDigits c.toNat ++ cs) = (readLiteral cs).map (c :: ·) := by
  have hc := hexChar?_fourDigits h
  simp only [fourDigits, List.map_cons, List.map_nil] at hc ⊢
  simp only [List.cons_append, List.nil_append, readLiteral, hc, Option.bind_some]

theorem isSeparator_of_isControl {c : Char} (h : isControl c = true) : isSeparator c = false := by
  rw [← Bool.not_eq_true]
  intro hs
  rcases isSeparator_iff.1 hs with rfl | rfl
  all_goals exact absurd h (by decide)

/-- The separators are the only characters that end a line and are no control characters. -/
theorem isNewLine_eq_isSeparator {c : Char} (h : isControl c = false) :
    isNewLine c = isSeparator c := by
  have hall : ['\n', '\r', '\x85'].all isControl = true := by decide
  have hne : ∀ d ∈ ['\n', '\r', '\x85'], c ≠ d := by
    rintro d hd rfl
    exact Bool.false_ne_true (h.symm.trans (List.all_eq_true.1 hall c hd))
  simp only [List.forall_mem_cons, List.not_mem_nil, false_imp_iff, implies_true, and_true] at hne
  simp [isNewLine, isSeparator, hne]

/-- **A character is read back from its escape**, unless it is a separator. -/
theorem readLiteral_escapeChar (c : Char) (cs : List Char) :
    readLiteral (escapeChar c ++ cs) =
      if isSeparator c then none else (readLiteral cs).map (c :: ·) := by
  have hsimple : ∀ {e d : Char}, simpleEscapes.lookup e = some d → e ≠ 'u' →
      readLiteral ('\\' :: e :: cs) = (readLiteral cs).map (d :: ·) := by
    intro e d he hu
    rw [readLiteral, he]
    · rfl
    · intro _ _ _ _ _ h
      exact absurd h hu
  by_cases hb : c = '\\'
  · subst hb; exact hsimple (e := '\\') rfl (by decide)
  by_cases hq : c = '"'
  · subst hq; exact hsimple (e := '"') rfl (by decide)
  by_cases hn : c = '\n'
  · subst hn; exact hsimple (e := 'n') rfl (by decide)
  by_cases hr : c = '\r'
  · subst hr; exact hsimple (e := 'r') rfl (by decide)
  by_cases ht : c = '\t'
  · subst ht; exact hsimple (e := 't') rfl (by decide)
  by_cases hz : c = '\x00'
  · subst hz; exact hsimple (e := '0') rfl (by decide)
  have hescape : escapeChar c = if isControl c then '\\' :: 'u' :: fourDigits c.toNat else [c] := by
    simp only [escapeChar, hb, hq, hn, hr, ht, hz, if_false]
  rw [hescape]
  cases hc : isControl c with
  | true =>
    have hlt : c.toNat < 160 := by
      simp only [isControl, Bool.or_eq_true, Bool.and_eq_true, decide_eq_true_eq] at hc
      omega
    rw [if_pos rfl, isSeparator_of_isControl hc]
    exact readLiteral_unicode (by omega) cs
  | false =>
    rw [if_neg (by simp), List.singleton_append, readLiteral_plain hb]
    simp [hq, isNewLine_eq_isSeparator hc]

/-- **A text is read back from its literal** exactly if it holds no separator. -/
theorem readLiteral_escape (cs : List Char) :
    readLiteral (cs.flatMap escapeChar) = if cs.any isSeparator then none else some cs := by
  induction cs with
  | nil => rfl
  | cons c cs ih =>
    rw [List.flatMap_cons, readLiteral_escapeChar, ih]
    cases hc : isSeparator c <;> cases ha : cs.any isSeparator <;> simp [hc, ha]

/-- The literal of a value is read back as the value exactly if no separator is in it. -/
theorem readLiteral_eq_some_iff (value : String) :
    readLiteral (escape value).toList = some value.toList ↔
      '\u2028' ∉ value.toList ∧ '\u2029' ∉ value.toList := by
  rw [escape, String.toList_ofList, readLiteral_escape]
  cases hs : value.toList.any isSeparator with
  | true =>
    obtain ⟨c, hc, hsep⟩ := List.any_eq_true.1 hs
    rcases isSeparator_iff.1 hsep with rfl | rfl
    · simp [hc]
    · simp [hc]
  | false =>
    have hnone := List.any_eq_false.1 hs
    have hline : '\u2028' ∉ value.toList := fun hm => hnone _ hm rfl
    have hparagraph : '\u2029' ∉ value.toList := fun hm => hnone _ hm rfl
    simp [hline, hparagraph]

/-! ## Lines and quotes -/

/-- How a character is written: as it is, or by a backslash and characters that end neither a line
    nor a literal. -/
inductive Escaped (c : Char) : List Char → Prop
  | plain : c ≠ '\\' → c ≠ '"' → isNewLine c = isSeparator c → Escaped c [c]
  | escape {e rest} : isSeparator c = false → (∀ d ∈ e :: rest, isNewLine d = false) →
      (∀ d ∈ rest, d ≠ '\\' ∧ d ≠ '"') → Escaped c ('\\' :: e :: rest)

theorem escaped_escapeChar (c : Char) : Escaped c (escapeChar c) := by
  by_cases hspecial : c ∈ ['\\', '"', '\n', '\r', '\t', '\x00']
  · simp only [List.mem_cons, List.not_mem_nil, or_false] at hspecial
    rcases hspecial with rfl | rfl | rfl | rfl | rfl | rfl
    all_goals exact .escape rfl (List.forall_mem_singleton.2 rfl) (List.forall_mem_nil _)
  simp only [List.mem_cons, List.not_mem_nil, or_false, not_or] at hspecial
  obtain ⟨hb, hq, hn, hr, ht, hz⟩ := hspecial
  simp only [escapeChar, hb, hq, hn, hr, ht, hz, if_false]
  cases hc : isControl c with
  | true =>
    have hall : ∀ k < 16, isNewLine (Nat.digitChar k) = false ∧ Nat.digitChar k ≠ '\\' ∧
        Nat.digitChar k ≠ '"' := by decide
    have hdigit : ∀ d ∈ fourDigits c.toNat, isNewLine d = false ∧ d ≠ '\\' ∧ d ≠ '"' := by
      intro d hd
      obtain ⟨k, hk, rfl⟩ := List.mem_map.1 hd
      refine hall k ?_
      simp only [List.mem_cons, List.not_mem_nil, or_false] at hk
      omega
    exact .escape (isSeparator_of_isControl hc)
      (List.forall_mem_cons.2 ⟨by decide, fun d hd => (hdigit d hd).1⟩)
      fun d hd => (hdigit d hd).2
  | false => exact .plain hb hq (isNewLine_eq_isSeparator hc)

/-- **The characters of a literal that end a line** are the separators in the text. -/
theorem filter_isNewLine_escape (cs : List Char) :
    (cs.flatMap escapeChar).filter isNewLine = cs.filter isSeparator := by
  induction cs with
  | nil => rfl
  | cons c cs ih =>
    rw [List.flatMap_cons, List.filter_append, ih]
    have hescaped := escaped_escapeChar c
    generalize escapeChar c = written at hescaped ⊢
    cases hescaped with
    | plain _ _ hline => cases hs : isSeparator c <;> simp [hline, hs]
    | @escape e rest hs hline _ =>
      have hnone : ('\\' :: e :: rest).filter isNewLine = [] :=
        List.filter_eq_nil_iff.2 (List.forall_mem_cons.2 ⟨by decide, by simpa using hline⟩)
      simp [hnone, hs]

/-- A literal stands on one line. -/
theorem feed_not_mem_escape (cs : List Char) : '\n' ∉ cs.flatMap escapeChar := by
  intro h
  have hfeed : '\n' ∈ (cs.flatMap escapeChar).filter isNewLine := List.mem_filter.2 ⟨h, rfl⟩
  rw [filter_isNewLine_escape, List.mem_filter] at hfeed
  exact absurd hfeed.2 (by decide)

end PhpSharp.CSharp
