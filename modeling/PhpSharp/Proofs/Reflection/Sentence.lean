/-
  A name as a sentence.

  * `Text.Neighbours`: two characters of a text with nothing but separators between them;
  * `WordEnds`: between which neighbours of a name a word ends, and `IsSentence`: what the sentence
    of a name is, said of the two texts alone;
  * `Spelled`: a name next to its sentence, from one letter or digit to the next. The function
    writes a space as soon as a word ends, and trims it if no other word follows; here a space
    belongs to the character behind it (`spelled_humanize`);
  * `humanize_sentence`: a name of ASCII letters, digits and low lines becomes its sentence, and a
    sentence stays what it is.
-/
import PhpSharp.Proofs.Php.Lexing
import PhpSharp.Proofs.Reflection.Documentation

namespace PhpSharp.Text

/-! ## Neighbours -/

section
variable {sep a b c d : Char} {n : Nat} {run gap text front rest back : List Char}

/-- Two characters of a text with nothing but separators between them; `n` characters that are no
    separators stand in front of them. -/
def Neighbours (sep : Char) (text : List Char) (n : Nat) (a : Char) (gap : List Char)
    (b : Char) : Prop :=
  ∃ front back, text = front ++ a :: (gap ++ b :: back) ∧
    (front.filter (· ≠ sep)).length = n ∧ a ≠ sep ∧ b ≠ sep ∧ ∀ c ∈ gap, c = sep

theorem filter_run (hrun : ∀ c ∈ run, c = sep) : run.filter (· ≠ sep) = [] :=
  List.filter_eq_nil_iff.2 fun c hc => by simpa using hrun c hc

theorem filter_run_append (hrun : ∀ c ∈ run, c = sep) (rest : List Char) :
    (run ++ rest).filter (· ≠ sep) = rest.filter (· ≠ sep) := by
  rw [List.filter_append, filter_run hrun, List.nil_append]

/-- A character that is no separator stands behind the separators in front of a text. -/
theorem behind_run (hrun : ∀ c ∈ run, c = sep) (ha : a ≠ sep)
    (h : run ++ rest = front ++ a :: back) :
    ∃ part, front = run ++ part ∧ rest = part ++ a :: back := by
  rcases List.append_eq_append_iff.1 h with ⟨part, hfront, hrest⟩ | ⟨part, rfl, hback⟩
  · exact ⟨part, hfront, hrest⟩
  · rcases part with _ | ⟨c, part⟩
    · exact ⟨[], by simp, hback.symm⟩
    · obtain ⟨rfl, -⟩ := List.cons.inj hback
      exact absurd (hrun a (by simp)) ha

/-- The neighbours in a text that starts with a character and the next one: these two, and those
    from the next one on. -/
theorem neighbours_cons (hrun : ∀ c ∈ run, c = sep) (hc : c ≠ sep) (hd : d ≠ sep) :
    Neighbours sep (c :: (run ++ d :: rest)) n a gap b ↔
      (n = 0 ∧ a = c ∧ gap = run ∧ b = d) ∨
        ∃ m, n = m + 1 ∧ Neighbours sep (d :: rest) m a gap b := by
  have hcount (part : List Char) :
      ((c :: (run ++ part)).filter (· ≠ sep)).length = (part.filter (· ≠ sep)).length + 1 := by
    rw [List.filter_cons_of_pos (by simpa using hc), filter_run_append hrun, List.length_cons]
  constructor
  · rintro ⟨front, back, htext, rfl, ha, hb, hgap⟩
    rcases front with _ | ⟨e, front⟩
    · obtain ⟨rfl, hrest⟩ := List.cons.inj htext
      obtain ⟨part, rfl, hpart⟩ := behind_run hrun hb hrest
      rcases part with _ | ⟨e, part⟩
      · exact .inl ⟨rfl, rfl, List.append_nil _, (List.cons.inj hpart).1.symm⟩
      · obtain ⟨rfl, -⟩ := List.cons.inj hpart
        exact absurd (hgap d (by simp)) hd
    · obtain ⟨rfl, hrest⟩ := List.cons.inj htext
      obtain ⟨part, rfl, hpart⟩ := behind_run hrun ha hrest
      exact .inr ⟨_, hcount part, part, back, hpart, rfl, ha, hb, hgap⟩
  · rintro (⟨rfl, rfl, rfl, rfl⟩ | ⟨m, rfl, front, back, htext, rfl, ha, hb, hgap⟩)
    · exact ⟨[], rest, rfl, rfl, hc, hd, hrun⟩
    · exact ⟨c :: (run ++ front), back, by simp [htext], hcount front, ha, hb, hgap⟩

theorem neighbours_run_append (hrun : ∀ c ∈ run, c = sep) :
    Neighbours sep (run ++ text) n a gap b ↔ Neighbours sep text n a gap b := by
  constructor
  · rintro ⟨front, back, htext, rfl, ha, hb, hgap⟩
    obtain ⟨part, rfl, hpart⟩ := behind_run hrun ha htext
    exact ⟨part, back, hpart, by rw [filter_run_append hrun], ha, hb, hgap⟩
  · rintro ⟨front, back, rfl, rfl, ha, hb, hgap⟩
    exact ⟨run ++ front, back, (List.append_assoc ..).symm, by rw [filter_run_append hrun], ha, hb,
      hgap⟩

/-- It takes two characters that are no separators to be neighbours. -/
theorem not_neighbours (h : (text.filter (· ≠ sep)).length ≤ 1) :
    ¬Neighbours sep text n a gap b := by
  rintro ⟨front, back, rfl, -, ha, hb, -⟩
  simp only [List.filter_append, List.length_append, List.filter_cons, ne_eq, ha, hb,
    not_false_eq_true, decide_true, if_true, List.length_cons] at h
  omega

end

end PhpSharp.Text

namespace PhpSharp.Reflection

open Text (Neighbours)

/-! ## Sentences -/

/-- A word ends between two neighbours of a name: at the low lines between them, or in front of a
    capital that directly follows a small letter or a digit. -/
def WordEnds (a : Char) (low : List Char) (b : Char) : Prop :=
  low ≠ [] ∨ b.isUpper = true ∧ (a.isLower = true ∨ a.isDigit = true)

instance (a : Char) (low : List Char) (b : Char) : Decidable (WordEnds a low b) :=
  inferInstanceAs (Decidable (_ ∨ _))

/-- What stands in a sentence between two neighbours of its name. -/
def gapBetween (a : Char) (low : List Char) (b : Char) : List Char :=
  if WordEnds a low b then [' '] else []

/-- The first letter in upper case, all others in lower. -/
def sentenceCase : List Char → List Char
  | [] => []
  | c :: cs => c.toUpper :: cs.map Char.toLower

/-- A text is the sentence of a name: it has the letters and digits of the name, and one space
    between those where a word ends, but none anywhere else. -/
structure IsSentence (name text : List Char) : Prop where
  letters : text.filter (· ≠ ' ') = sentenceCase (name.filter (· ≠ '_'))
  gaps : ∀ n gap, (∃ x y, Neighbours ' ' text n x gap y) ↔
    ∃ a low b, Neighbours '_' name n a low b ∧ gap = gapBetween a low b
  head_ne : text.head? ≠ some ' '
  last_ne : text.getLast? ≠ some ' '
  single : text.IsChain fun a b => a ≠ ' ' ∨ b ≠ ' '

/-! ## Letters and digits -/

section
variable {c : Char}

theorem isAscii_of_isAlphanum (h : c.isAlphanum = true) : c.toNat < 128 := by
  have := Php.toNat_of_isAlphanum h
  omega

theorem isAlphanum_toLower (h : c.isAlphanum = true) : c.toLower.isAlphanum = true :=
  Text.forall_ascii (P := fun c => c.isAlphanum = true → c.toLower.isAlphanum = true)
    (by decide +kernel) (isAscii_of_isAlphanum h) h

theorem isAlphanum_toUpper (h : c.isAlphanum = true) : c.toUpper.isAlphanum = true :=
  Text.forall_ascii (P := fun c => c.isAlphanum = true → c.toUpper.isAlphanum = true)
    (by decide +kernel) (isAscii_of_isAlphanum h) h

theorem ne_space_of_isAlphanum (h : c.isAlphanum = true) : c ≠ ' ' := by
  rintro rfl
  cases h

theorem ne_lowLine_of_isAlphanum (h : c.isAlphanum = true) : c ≠ '_' := by
  rintro rfl
  cases h

end

/-! ## From character to character -/

/-- How the sentence of a name goes on behind the character `previous` of the name. -/
inductive Continues : Char → List Char → List Char → Prop
  | stop {previous low} (hlow : ∀ c ∈ low, c = '_') : Continues previous low []
  | next {previous low c rest text} (hlow : ∀ c ∈ low, c = '_') (hc : c.isAlphanum = true)
      (h : Continues c rest text) :
      Continues previous (low ++ c :: rest) (gapBetween previous low c ++ c.toLower :: text)

/-- The sentence of a name, which starts with the first letter or digit. -/
inductive Spelled : List Char → List Char → Prop
  | nothing {low} (hlow : ∀ c ∈ low, c = '_') : Spelled low []
  | first {low c rest text} (hlow : ∀ c ∈ low, c = '_') (hc : c.isAlphanum = true)
      (h : Continues c rest text) : Spelled (low ++ c :: rest) (c.toUpper :: text)

section
variable {previous c d x : Char} {low cs name text : List Char}

theorem eq_space_of_mem_gap (h : d ∈ gapBetween previous low c) : d = ' ' := by
  rw [gapBetween] at h
  split at h
  · exact List.mem_singleton.1 h
  · cases h

theorem Continues.letters (h : Continues previous cs text) :
    text.filter (· ≠ ' ') = (cs.filter (· ≠ '_')).map Char.toLower := by
  induction h with
  | stop hlow =>
    rw [Text.filter_run hlow]
    rfl
  | next hlow hc h ih =>
    have hspace := ne_space_of_isAlphanum (isAlphanum_toLower hc)
    have hlowLine := ne_lowLine_of_isAlphanum hc
    rw [Text.filter_run_append hlow, Text.filter_run_append fun _ => eq_space_of_mem_gap,
      List.filter_cons_of_pos (by simpa using hspace),
      List.filter_cons_of_pos (by simpa using hlowLine), List.map_cons, ih]

/-- From a letter or digit on, the gaps of the sentence are those of the name. -/
theorem Continues.gaps (h : Continues previous cs text) (hprevious : previous ≠ '_')
    (hx : x ≠ ' ') (n : Nat) (gap : List Char) :
    (∃ y z, Neighbours ' ' (x :: text) n y gap z) ↔
      ∃ a low b, Neighbours '_' (previous :: cs) n a low b ∧ gap = gapBetween a low b := by
  induction h generalizing n x with
  | stop hlow =>
    constructor
    · rintro ⟨y, z, h⟩
      exact absurd h (Text.not_neighbours (by simp [hx]))
    · rintro ⟨a, low, b, h, -⟩
      refine absurd h (Text.not_neighbours ?_)
      rw [List.filter_cons_of_pos (by simpa using hprevious), Text.filter_run hlow]
      rfl
  | next hlow hc h ih =>
    have hspace := ne_space_of_isAlphanum (isAlphanum_toLower hc)
    have hlowLine := ne_lowLine_of_isAlphanum hc
    simp only [Text.neighbours_cons (fun _ => eq_space_of_mem_gap) hx hspace,
      Text.neighbours_cons hlow hprevious hlowLine]
    cases n with
    | zero => simp
    | succ n => simpa using ih hlowLine hspace n

theorem Continues.single (h : Continues previous cs text) (hx : x ≠ ' ') :
    (x :: text).IsChain fun a b => a ≠ ' ' ∨ b ≠ ' ' := by
  induction h generalizing x with
  | stop hlow => exact .singleton _
  | next hlow hc h ih =>
    have hspace := ne_space_of_isAlphanum (isAlphanum_toLower hc)
    rw [gapBetween]
    split
    · exact .cons_cons (.inl hx) (.cons_cons (.inr hspace) (ih hspace))
    · exact .cons_cons (.inl hx) (ih hspace)

theorem Spelled.lowLine (h : Spelled name text) : Spelled ('_' :: name) text := by
  cases h with
  | nothing hlow => exact .nothing (by simpa using hlow)
  | @first low c rest text hlow hc h =>
    exact @Spelled.first ('_' :: low) c rest text (by simpa using hlow) hc h

theorem Spelled.isSentence (h : Spelled name text) (hlast : text.getLast? ≠ some ' ') :
    IsSentence name text := by
  cases h with
  | nothing hlow =>
    have hnone := Text.filter_run hlow
    refine ⟨by rw [hnone]; rfl, fun n gap => ?_, by simp, hlast, .nil⟩
    constructor
    · rintro ⟨x, y, h⟩
      exact absurd h (Text.not_neighbours (by simp))
    · rintro ⟨a, low, b, h, -⟩
      exact absurd h (Text.not_neighbours (by rw [hnone]; exact Nat.zero_le _))
  | first hlow hc h =>
    have hspace := ne_space_of_isAlphanum (isAlphanum_toUpper hc)
    have hlowLine := ne_lowLine_of_isAlphanum hc
    refine ⟨?_, fun n gap => ?_, by simpa using hspace, hlast, h.single hspace⟩
    · rw [Text.filter_run_append hlow, List.filter_cons_of_pos (by simpa using hspace),
        List.filter_cons_of_pos (by simpa using hlowLine), h.letters, sentenceCase]
    · simp only [Text.neighbours_run_append hlow]
      exact h.gaps hlowLine hspace n gap

end

/-! ## What the function writes -/

section
variable {p l c : Char} {cs low name : List Char} {previous? : Option Char}

theorem startsWord_iff (hp : p.toNat < 128) (hc : c.toNat < 128) :
    startsWord p c = true ↔ WordEnds p [] c := by
  simp [startsWord, WordEnds, Text.isUpper, Text.isLower, hp, hc]

theorem spellOut_next (hp : p.toNat < 128) (hc : c.isAlphanum = true) :
    spellOut (some p) (some l) (c :: cs) =
      gapBetween p [] c ++ c.toLower :: spellOut (some c) (some c.toLower) cs := by
  have hascii := isAscii_of_isAlphanum hc
  rw [spellOut, if_neg (ne_lowLine_of_isAlphanum hc)]
  simp only [Option.any_some, startsWord_iff hp hascii, Text.lower_ascii hascii]
  simp [gapBetween]

theorem gapBetween_lowLine (c : Char) : gapBetween '_' [] c = [] := by
  have hlower : '_'.isLower = false := by decide
  have hdigit : '_'.isDigit = false := by decide
  exact if_neg (by simp [WordEnds, hlower, hdigit])

theorem trimEnd_gap (hc : c.isAlphanum = true) (low text : List Char) :
    Text.trimEnd (gapBetween p low c ++ c.toLower :: text) =
      gapBetween p low c ++ c.toLower :: Text.trimEnd text :=
  Text.trimEnd_append_cons (Php.isBlank_of_isAlphanum (isAlphanum_toLower hc)) _ _

/-- Behind a letter or digit `p` the function writes how the sentence goes on; behind low lines too,
    for the first of which it has written a space. -/
theorem continues_spellOut (hcs : ∀ c ∈ cs, c.isAlphanum = true ∨ c = '_') (hp : p.toNat < 128)
    (hl : l ≠ ' ') :
    Continues p cs (Text.trimEnd (spellOut (some p) (some l) cs)) ∧
      ∀ low, low ≠ [] → (∀ c ∈ low, c = '_') →
        Continues p (low ++ cs) (Text.trimEnd (' ' :: spellOut (some '_') (some ' ') cs)) := by
  induction cs generalizing p l with
  | nil =>
    refine ⟨.stop (by simp), fun low _ hlow => ?_⟩
    rw [List.append_nil]
    exact .stop hlow
  | cons c cs ih =>
    obtain ⟨hc, hrest⟩ := List.forall_mem_cons.1 hcs
    by_cases hlowLine : c = '_'
    · subst hlowLine
      obtain ⟨-, hbehind⟩ := ih hrest hp hl
      refine ⟨?_, fun low _ hlow => ?_⟩
      · rw [spellOut, if_pos rfl, if_neg (by simpa using hl)]
        exact hbehind ['_'] (by simp) (by simp)
      · have hlows : ∀ d ∈ low ++ ['_'], d = '_' := by simpa [or_imp, forall_and] using hlow
        rw [spellOut, if_pos rfl, if_pos (by simp), List.append_cons]
        exact hbehind (low ++ ['_']) (by simp) hlows
    · have hc := hc.resolve_right hlowLine
      have hspace := ne_space_of_isAlphanum (isAlphanum_toLower hc)
      obtain ⟨hcontinues, -⟩ := ih hrest (isAscii_of_isAlphanum hc) hspace
      refine ⟨?_, fun low hne hlow => ?_⟩
      · rw [spellOut_next hp hc, trimEnd_gap hc]
        exact @Continues.next p [] c cs _ (by simp) hc hcontinues
      · -- the space is the gap in front of `c`, before which `spellOut` writes no other
        have hgap : gapBetween p low c = [' '] := if_pos (.inl hne)
        have hspell : ' ' :: spellOut (some '_') (some ' ') (c :: cs) =
            gapBetween p low c ++ c.toLower :: spellOut (some c) (some c.toLower) cs := by
          rw [spellOut_next (by decide) hc, gapBetween_lowLine, hgap]
          rfl
        rw [hspell, trimEnd_gap hc]
        exact .next hlow hc hcontinues

/-- In front of the first letter or digit the function writes nothing. -/
theorem spelled_spellOut (hname : ∀ c ∈ name, c.isAlphanum = true ∨ c = '_')
    (hprevious : previous? = none ∨ previous? = some '_') :
    Spelled name (Text.trimEnd (spellOut previous? none name)) := by
  induction name generalizing previous? with
  | nil => exact .nothing (by simp)
  | cons c cs ih =>
    obtain ⟨hc, hcs⟩ := List.forall_mem_cons.1 hname
    by_cases hlowLine : c = '_'
    · subst hlowLine
      rw [spellOut, if_pos rfl, if_pos (by simp)]
      exact (ih hcs (.inr rfl)).lowLine
    · have hc := hc.resolve_right hlowLine
      have hascii := isAscii_of_isAlphanum hc
      have hupper := isAlphanum_toUpper hc
      have hstart : previous?.any (startsWord · c) = false := by
        rcases hprevious with rfl | rfl
        · rfl
        · exact startsWord_lowLine c
      have hspell : spellOut previous? none (c :: cs) =
          c.toUpper :: spellOut (some c) (some c.toUpper) cs := by
        rw [spellOut, if_neg hlowLine]
        simp [hstart, Text.upper_ascii hascii]
      obtain ⟨hcontinues, -⟩ := continues_spellOut hcs hascii (ne_space_of_isAlphanum hupper)
      rw [hspell, Text.trimEnd_cons, if_neg (by simp [Php.isBlank_of_isAlphanum hupper])]
      exact @Spelled.first [] c cs _ (by simp) hc hcontinues

theorem toList_humanize (name : String) :
    (humanize name).toList = Text.trimEnd (spellOut none none name.toList) := by
  rw [humanize, String.toList_ofList]

/-- **A name is spelled as its sentence.** -/
theorem spelled_humanize {name : String}
    (hname : ∀ c ∈ name.toList, c.isAlphanum = true ∨ c = '_') :
    Spelled name.toList (humanize name).toList := by
  rw [toList_humanize]
  exact spelled_spellOut hname (.inl rfl)

end

/-! ## Sentences of sentences -/

section
variable {previous c l : Char} {cs name text : List Char} {previous? : Option Char}

/-- A character that stays what it is behind another one. -/
def IsSmall (c : Char) : Prop := c ≠ '_' ∧ Text.isUpper c = false ∧ Text.lower c = [c]

theorem isSmall_toLower (hc : c.isAlphanum = true) : IsSmall c.toLower := by
  have hlower := isAlphanum_toLower hc
  have hascii := isAscii_of_isAlphanum hlower
  refine ⟨ne_lowLine_of_isAlphanum hlower, ?_, ?_⟩
  · exact Text.forall_ascii (P := fun c => Text.isUpper c.toLower = false) (by decide +kernel)
      (isAscii_of_isAlphanum hc)
  · rw [Text.lower_ascii hascii, Text.toLower_toLower]

theorem Continues.isSmall (h : Continues previous cs text) : ∀ c ∈ text, IsSmall c := by
  induction h with
  | stop => simp
  | next hlow hc h ih =>
    intro d hd
    rcases List.mem_append.1 hd with hd | hd
    · rw [eq_space_of_mem_gap hd]
      exact ⟨by decide, by decide, by decide⟩
    · rcases List.mem_cons.1 hd with rfl | hd
      · exact isSmall_toLower hc
      · exact ih d hd

theorem spellOut_isSmall (h : ∀ c ∈ cs, IsSmall c) : spellOut previous? (some l) cs = cs := by
  induction cs generalizing previous? l with
  | nil => rfl
  | cons c cs ih =>
    obtain ⟨⟨hlowLine, hupper, hlower⟩, hcs⟩ := List.forall_mem_cons.1 h
    have hstart : previous?.any (startsWord · c) = false := by simp [startsWord, hupper]
    rw [spellOut, if_neg hlowLine]
    simp [hstart, hlower, ih hcs]

theorem Spelled.spellOut_eq (h : Spelled name text) : spellOut none none text = text := by
  cases h with
  | nothing => rfl
  | first hlow hc h =>
    have hupper := Text.forall_ascii (P := fun c => Text.upper c.toUpper = [c.toUpper])
      (by decide +kernel) (isAscii_of_isAlphanum hc)
    rw [spellOut, if_neg (ne_lowLine_of_isAlphanum (isAlphanum_toUpper hc))]
    simp [hupper, spellOut_isSmall h.isSmall]

/-- **Names as sentences.** A name of ASCII letters, digits and low lines becomes its sentence: it
    keeps every letter and digit, the first in upper case and the others in lower, and has a single
    space exactly where a word ends and another follows. The sentence of a sentence is itself. -/
theorem humanize_sentence {name : String}
    (hname : ∀ c ∈ name.toList, c.isAlphanum = true ∨ c = '_') :
    IsSentence name.toList (humanize name).toList ∧ humanize (humanize name) = humanize name := by
  have hspelled := spelled_humanize hname
  refine ⟨hspelled.isSentence fun hlast => ?_, String.toList_inj.1 ?_⟩
  · rw [toList_humanize] at hlast
    have hblank := Text.of_mem_getLast?_dropEndWhile hlast
    cases hblank
  · rw [toList_humanize (humanize name), hspelled.spellOut_eq, toList_humanize name]
    exact List.rdropWhile_idempotent ..

end

/-- A name with every kind of boundary, and low lines at its ends. -/
def adSetsName : String := "__getAdSets2By__ID_"

theorem humanize_sentence_adSets :
    (∀ c ∈ adSetsName.toList, c.isAlphanum = true ∨ c = '_') ∧
      humanize adSetsName = "Get ad sets2 by id" ∧
      IsSentence adSetsName.toList "Get ad sets2 by id".toList ∧
      humanize "Get ad sets2 by id" = "Get ad sets2 by id" := by
  have hname : ∀ c ∈ adSetsName.toList, c.isAlphanum = true ∨ c = '_' := by simp [adSetsName]
  have htext : humanize adSetsName = "Get ad sets2 by id" := by decide +kernel
  have hsentence := humanize_sentence hname
  rw [htext] at hsentence
  exact ⟨hname, htext, hsentence⟩

end PhpSharp.Reflection
