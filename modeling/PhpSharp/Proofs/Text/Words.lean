/-
  The words of a text that is joined from others or cut at its ends.

  * `words_append_blank`: a blank parts the words in front of it from those behind it;
  * `words_trim`, `words_join`: blanks at the ends add no word, nor does the space between lines;
  * `exists_last`: behind its last blank a text has one word or nothing, and what is cut from its
    end is cut from there (`dropEndWhile_append`).
-/
import PhpSharp.Proofs.Text.Cut
import PhpSharp.Proofs.Text.OneLine

namespace PhpSharp.Text

variable {c b : Char} {cs ds w : List Char}

theorem words_append_blank (hb : isBlank b = true) (cs ds : List Char) :
    words (cs ++ b :: ds) = words cs ++ words ds := by
  rw [words, List.splitOnP_append_cons _ _ hb, List.filter_append, words, words]

theorem words_of_no_blank (h : ∀ c ∈ w, isBlank c = false) : words w = [w].filter (· ≠ []) := by
  rw [words, List.splitOnP_eq_singleton h]

/-! ## Trimming -/

theorem startsBlank_of_isPrefix (h : ds <+: cs) (hne : ds ≠ []) :
    startsBlank ds = startsBlank cs := by
  obtain ⟨rest, rfl⟩ := h
  obtain ⟨d, ds, rfl⟩ := List.exists_cons_of_ne_nil hne
  rfl

theorem startsBlank_trimEnd (cs : List Char) :
    startsBlank (trimEnd cs) = true ↔ trimEnd cs ≠ [] ∧ startsBlank cs = true := by
  by_cases hne : trimEnd cs = []
  · simp [hne, startsBlank]
  · have hprefix : trimEnd cs <+: cs := dropEndWhile_isPrefix _ _
    rw [startsBlank_of_isPrefix hprefix hne]
    simp [hne]

theorem startsBlank_trim (cs : List Char) : startsBlank (trim cs) = false := by
  rw [← Bool.not_eq_true, trim, startsBlank_trimEnd, startsBlank_trimStart]
  simp

theorem isBlank_of_mem_getLast?_trim (h : c ∈ (trim cs).getLast?) : isBlank c = false :=
  of_mem_getLast?_dropEndWhile h

/-! ## Joining -/

theorem words_trimEnd (cs : List Char) : words (trimEnd cs) = words cs := by
  induction cs using List.reverseRecOn with
  | nil => rfl
  | append_singleton cs c ih =>
    by_cases hc : isBlank c = true
    · rw [trimEnd, dropEndWhile_concat, if_pos hc, ← trimEnd, ih, words_append_blank hc]
      exact (List.append_nil _).symm
    · rw [trimEnd, dropEndWhile_concat, if_neg hc]

theorem words_trim (cs : List Char) : words (trim cs) = words cs :=
  (words_trimEnd _).trans (words_trimStart cs)

theorem words_join (ls : List (List Char)) : words ([' '].intercalate ls) = ls.flatMap words := by
  match ls with
  | [] => rfl
  | [line] => simp
  | line :: next :: rest =>
    rw [List.intercalate_cons_cons, List.append_assoc, List.singleton_append,
      words_append_blank (by decide), words_join (next :: rest), List.flatMap_cons (x := line)]

theorem mem_of_mem_intercalate {between : List Char} {lines : List (List Char)}
    (h : c ∈ between.intercalate lines) : c ∈ between ∨ ∃ line ∈ lines, c ∈ line := by
  induction lines with
  | nil => cases h
  | cons line lines ih =>
    by_cases hne : lines = []
    · subst hne
      rw [List.intercalate_singleton] at h
      exact .inr ⟨line, List.mem_cons_self, h⟩
    · rw [List.intercalate_cons_of_ne_nil hne, List.mem_append, List.mem_append] at h
      rcases h with (h | h) | h
      · exact .inr ⟨line, List.mem_cons_self, h⟩
      · exact .inl h
      · exact (ih h).imp_right fun ⟨l, hl, hc⟩ => ⟨l, List.mem_cons_of_mem _ hl, hc⟩

theorem getLast?_intercalate {lines : List (List Char)} (h : ∀ line ∈ lines, line ≠ [])
    (between : List Char) :
    (between.intercalate lines).getLast? = lines.getLast?.bind List.getLast? := by
  induction lines with
  | nil => rfl
  | cons line lines ih =>
    by_cases hne : lines = []
    · subst hne
      simp
    · have hlast := ih fun l hl => h l (List.mem_cons_of_mem _ hl)
      have hline : lines.getLast hne ≠ [] := h _ (List.mem_cons_of_mem _ (List.getLast_mem hne))
      rw [List.intercalate_cons_of_ne_nil hne, List.getLast?_append, hlast,
        List.getLast?_cons_of_ne_nil hne, List.getLast?_eq_some_getLast hne, Option.bind_some,
        List.getLast?_eq_some_getLast hline, Option.some_or]

/-! ## The last word -/

/-- A text that is empty or ends in a blank: what follows it begins a word. -/
def EndsBlank (cs : List Char) : Prop := ∀ b ∈ cs.getLast?, isBlank b = true

theorem words_append (h : EndsBlank cs) (ds : List Char) :
    words (cs ++ ds) = words cs ++ words ds := by
  rcases List.eq_nil_or_concat' cs with rfl | ⟨front, b, rfl⟩
  · rfl
  · have hb : isBlank b = true := h b (by simp)
    have hnil : words [] = [] := rfl
    rw [List.append_assoc, List.singleton_append, words_append_blank hb, words_append_blank hb,
      hnil, List.append_nil]

/-- **A text ends in a word**, perhaps an empty one, that stands behind its last blank. -/
theorem exists_last (cs : List Char) :
    ∃ front w, cs = front ++ w ∧ EndsBlank front ∧ ∀ c ∈ w, isBlank c = false := by
  induction cs using List.reverseRecOn with
  | nil => exact ⟨[], [], rfl, by simp [EndsBlank], by simp⟩
  | append_singleton cs c ih =>
    obtain ⟨front, w, rfl, hfront, hw⟩ := ih
    by_cases hc : isBlank c = true
    · exact ⟨front ++ w ++ [c], [], by simp, by simp [EndsBlank, hc], by simp⟩
    · refine ⟨front, w ++ [c], by simp, hfront, fun d hd => ?_⟩
      rcases List.mem_append.1 hd with hd | hd
      · exact hw d hd
      · rw [List.mem_singleton.1 hd]
        exact Bool.eq_false_iff.2 hc

theorem EndsBlank.eq_nil (h : EndsBlank cs) (hlast : ∀ c ∈ cs.getLast?, isBlank c = false) :
    cs = [] := by
  rcases List.eq_nil_or_concat' cs with rfl | ⟨front, b, rfl⟩
  · rfl
  · have hb := hlast b (by simp)
    rw [h b (by simp)] at hb
    cases hb

/-- What is cut from the end of a text is cut from its last word, if no blank is. -/
theorem dropEndWhile_append {p : Char → Bool} (hp : ∀ c, isBlank c = true → p c = false)
    (h : EndsBlank cs) (ds : List Char) :
    dropEndWhile p (cs ++ ds) = cs ++ dropEndWhile p ds := by
  induction ds using List.reverseRecOn with
  | nil =>
    rw [List.append_nil]
    rcases List.eq_nil_or_concat' cs with rfl | ⟨front, b, rfl⟩
    · rfl
    · rw [dropEndWhile_concat, if_neg (by simp [hp b (h b (by simp))])]
      exact (List.append_nil _).symm
  | append_singleton ds d ih =>
    rw [← List.append_assoc, dropEndWhile_concat, dropEndWhile_concat, ih]
    split_ifs
    · rfl
    · exact List.append_assoc ..

/-- The last character of a text with no blank behind it is that of its last word. -/
theorem getLast?_eq_words (h : ∀ c ∈ cs.getLast?, isBlank c = false) :
    cs.getLast? = (words cs).getLast?.bind List.getLast? := by
  obtain ⟨front, w, rfl, hfront, hw⟩ := exists_last cs
  rw [words_append hfront, words_of_no_blank hw]
  by_cases hnil : w = []
  · subst hnil
    rw [List.append_nil] at h ⊢
    rw [hfront.eq_nil h]
    rfl
  · simp [hnil, List.getLast?_eq_some_getLast hnil]

theorem eq_nil_of_words_trim (h : words (trim cs) = []) : trim cs = [] := by
  rw [← List.getLast?_eq_none_iff, getLast?_eq_words fun _ => isBlank_of_mem_getLast?_trim, h]
  rfl

end PhpSharp.Text
