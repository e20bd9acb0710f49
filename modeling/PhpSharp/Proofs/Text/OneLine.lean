/-
  A text on one line: its words with single spaces between them are the text with every run of
  blanks squeezed to one space and the ends trimmed.

  * `squeeze` replaces every run of blanks by one space;
  * `oneLine_eq`: `oneLine` is `squeeze`, then `trim`;
  * `eq_space_of_mem_oneLine`: the only blank that is left is the space.
-/
import Mathlib.Data.List.Basic
import Mathlib.Tactic.SplitIfs
import PhpSharp.Text.Blank

namespace PhpSharp.Text

/-- Whether a text starts with a blank. -/
def startsBlank (cs : List Char) : Bool := cs.head?.any isBlank

/-- A text with one space for every run of blanks. -/
def squeeze : List Char → List Char
  | [] => []
  | c :: cs =>
    if isBlank c then if startsBlank cs then squeeze cs else ' ' :: squeeze cs
    else c :: squeeze cs

variable {c : Char} {cs : List Char}

/-! ## Squeezing and trimming -/

theorem eq_space_of_mem_squeeze (h : c ∈ squeeze cs) (hc : isBlank c = true) : c = ' ' := by
  induction cs with
  | nil => cases h
  | cons d cs ih =>
    rw [squeeze] at h
    split_ifs at h with hd hcs
    · exact ih h
    · exact (List.mem_cons.1 h).elim id ih
    · rcases List.mem_cons.1 h with rfl | h
      · exact absurd hc hd
      · exact ih h

/-- Blanks in front can be cut off before squeezing or after it. -/
theorem trimStart_squeeze (cs : List Char) : trimStart (squeeze cs) = squeeze (trimStart cs) := by
  induction cs with
  | nil => rfl
  | cons c cs ih =>
    by_cases hc : isBlank c = true
    · have hstart : trimStart (c :: cs) = trimStart cs := List.dropWhile_cons_of_pos hc
      rw [hstart, ← ih, squeeze, if_pos hc]
      split_ifs
      · rfl
      · exact List.dropWhile_cons_of_pos (by decide)
    · have hstart : ∀ ds, trimStart (c :: ds) = c :: ds := fun _ => List.dropWhile_cons_of_neg hc
      rw [hstart, squeeze, if_neg hc, hstart]

theorem startsBlank_trimStart (cs : List Char) : startsBlank (trimStart cs) = false := by
  induction cs with
  | nil => rfl
  | cons c cs ih =>
    rw [trimStart, List.dropWhile_cons]
    split_ifs with hc
    · exact ih
    · exact Bool.eq_false_iff.2 hc

theorem trimEnd_cons (c : Char) (cs : List Char) : trimEnd (c :: cs) =
    if trimEnd cs = [] ∧ isBlank c = true then [] else c :: trimEnd cs := by
  have hnil : (cs.reverse.dropWhile isBlank).isEmpty = true ↔ trimEnd cs = [] := by
    rw [trimEnd, dropEndWhile, List.reverse_eq_nil_iff, List.isEmpty_iff]
  rw [trimEnd, dropEndWhile, List.reverse_cons, List.dropWhile_append]
  split_ifs with h hc hc
  · rw [List.dropWhile_cons_of_pos hc.2]; rfl
  · rw [List.dropWhile_cons_of_neg fun hb => hc ⟨hnil.1 h, hb⟩, hnil.1 h]; rfl
  · exact absurd (hnil.2 hc.1) h
  · simp [trimEnd, dropEndWhile]

theorem trimEnd_append_cons (hc : isBlank c = false) (front rest : List Char) :
    trimEnd (front ++ c :: rest) = front ++ c :: trimEnd rest := by
  induction front with
  | nil => rw [List.nil_append, List.nil_append, trimEnd_cons, if_neg (by simp [hc])]
  | cons d front ih => rw [List.cons_append, trimEnd_cons, ih, if_neg (by simp), List.cons_append]

theorem mem_of_mem_trim (h : c ∈ trim cs) : c ∈ cs := by
  rw [trim, trimEnd, dropEndWhile, List.mem_reverse] at h
  have hstart := List.mem_reverse.1 ((List.dropWhile_suffix _).subset h)
  exact (List.dropWhile_suffix _).subset hstart

/-! ## Words -/

theorem words_blank (hc : isBlank c = true) (cs : List Char) : words (c :: cs) = words cs := by
  simp [words, List.splitOnP_cons_eq_if_modifyHead, hc]

theorem words_trimStart (cs : List Char) : words (trimStart cs) = words cs := by
  induction cs with
  | nil => rfl
  | cons c cs ih =>
    rw [trimStart, List.dropWhile_cons]
    split_ifs with hc
    · exact ih.trans (words_blank hc cs).symm
    · rfl

theorem oneLine_blank (hc : isBlank c = true) (cs : List Char) :
    oneLine (c :: cs) = oneLine cs := by
  rw [oneLine, words_blank hc, oneLine]

theorem oneLine_trimStart (cs : List Char) : oneLine (trimStart cs) = oneLine cs := by
  rw [oneLine, words_trimStart, oneLine]

theorem ne_nil_of_mem_words {w : List Char} (h : w ∈ words cs) : w ≠ [] := by
  simpa using (List.mem_filter.1 h).2

theorem oneLine_eq_nil_iff : oneLine cs = [] ↔ words cs = [] := by
  rw [oneLine]
  rcases hwords : words cs with _ | ⟨w, _ | ⟨v, ws⟩⟩
  · simp
  · simpa using ne_nil_of_mem_words (hwords ▸ List.mem_cons_self)
  · simp [List.intercalate_cons_cons]

/-- The words of a text on one line, with a space in front if there are blanks in front of the
    first. -/
def spaced (cs : List Char) : List Char :=
  if startsBlank cs = true ∧ oneLine cs ≠ [] then ' ' :: oneLine cs else oneLine cs

theorem spaced_of_startsBlank (h : startsBlank cs = true) :
    spaced cs = if oneLine cs = [] then [] else ' ' :: oneLine cs := by
  simp only [spaced, h, true_and, ite_not]
  split_ifs with hempty
  · exact hempty
  · rfl

theorem spaced_of_not_startsBlank (h : ¬startsBlank cs = true) : spaced cs = oneLine cs :=
  if_neg (h ·.1)

/-- A character that is no blank begins a word, or goes on with the word in front. -/
theorem oneLine_cons (hc : ¬isBlank c = true) (cs : List Char) :
    oneLine (c :: cs) = c :: spaced cs := by
  rcases cs with _ | ⟨d, cs⟩
  · simp [oneLine, words, spaced, startsBlank, hc, List.splitOnP_cons_eq_if_modifyHead]
  by_cases hd : startsBlank (d :: cs) = true
  · have hblank : isBlank d = true := hd
    have hwords : words (c :: d :: cs) = [c] :: words (d :: cs) := by
      simp [words, hc, hblank, List.splitOnP_cons_eq_if_modifyHead]
    rw [spaced_of_startsBlank hd, oneLine, hwords]
    simp only [oneLine_eq_nil_iff]
    rw [oneLine]
    rcases words (d :: cs) with _ | ⟨w, ws⟩
    · simp
    · simp [List.intercalate_cons_cons]
  · have hblank : ¬isBlank d = true := hd
    obtain ⟨w, ws, hpieces⟩ := List.exists_cons_of_ne_nil (List.splitOnP_ne_nil isBlank cs)
    rw [spaced_of_not_startsBlank hd]
    simp only [oneLine, words, List.splitOnP_cons_eq_if_modifyHead, hc, hblank, hpieces]
    rcases ws.filter (· ≠ []) with _ | ⟨v, vs⟩
    · simp
    · simp

/-- **Squeezing keeps the words**, and a space for the blanks in front of them. -/
theorem trimEnd_squeeze (cs : List Char) : trimEnd (squeeze cs) = spaced cs := by
  induction cs with
  | nil => rfl
  | cons c cs ih =>
    by_cases hc : isBlank c = true
    · have hstart : startsBlank (c :: cs) = true := hc
      rw [squeeze, if_pos hc, spaced_of_startsBlank hstart, oneLine_blank hc]
      by_cases hcs : startsBlank cs = true
      · rw [if_pos hcs, ih, spaced_of_startsBlank hcs]
      · rw [if_neg hcs, trimEnd_cons, ih, spaced_of_not_startsBlank hcs]
        simp [isBlank]
    · have hstart : ¬startsBlank (c :: cs) = true := hc
      rw [squeeze, if_neg hc, trimEnd_cons, if_neg (hc ·.2), ih,
        spaced_of_not_startsBlank hstart, oneLine_cons hc]

/-- **A text on one line** is the text with its blanks squeezed, without those at the ends. -/
theorem oneLine_eq (cs : List Char) : oneLine cs = trim (squeeze cs) := by
  have hstart : ¬startsBlank (trimStart cs) = true := by simp [startsBlank_trimStart]
  rw [trim, trimStart_squeeze, trimEnd_squeeze, spaced_of_not_startsBlank hstart,
    oneLine_trimStart]

theorem eq_space_of_mem_oneLine (h : c ∈ oneLine cs) (hc : isBlank c = true) : c = ' ' := by
  rw [oneLine_eq] at h
  exact eq_space_of_mem_squeeze (mem_of_mem_trim h) hc

end PhpSharp.Text
