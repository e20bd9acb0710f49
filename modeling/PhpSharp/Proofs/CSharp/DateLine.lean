/-
  The line of the date in a generated source: all that the clock shows of itself.

  * `isDateChar_of_mem_text`: a date is written in digits and a few marks, so in one line;
  * `render_dateLine`: two sources generated for a class at two points in time have the same lines
    but for that of the date, whichever characters end a line.
-/
import PhpSharp.Proofs.CSharp.Comment

namespace PhpSharp.CSharp

open Sdk (Descriptor)
open Text (Timestamp)

/-! ## Dates -/

/-- The characters that dates are written in. -/
def isDateChar (c : Char) : Bool := c.isDigit || ['-', '+', ':', ' '].contains c

variable {c : Char}

theorem isDateChar_of_isDigit (h : c.isDigit = true) : isDateChar c = true := by
  rw [isDateChar, h, Bool.true_or]

theorem isDateChar_of_mem_padded {width n : Nat} (h : c ∈ Text.padded width n) :
    isDateChar c = true := by
  rcases List.mem_append.1 h with h | h
  · obtain rfl := List.eq_of_mem_replicate h
    rfl
  · exact isDateChar_of_isDigit (Nat.isDigit_of_mem_toDigits (by decide) (by decide) h)

theorem isDateChar_of_mem_yearText {year : Int} (h : c ∈ Text.yearText year) :
    isDateChar c = true := by
  have hsigned : ∀ {sign : Char} {n : Nat}, isDateChar sign = true →
      c ∈ sign :: Text.padded 4 n → isDateChar c = true := by
    intro sign n hsign hmem
    rcases List.mem_cons.1 hmem with rfl | hmem
    · exact hsign
    · exact isDateChar_of_mem_padded hmem
  unfold Text.yearText at h
  split at h
  · exact hsigned (by decide) h
  · split at h
    · exact hsigned (by decide) h
    · exact isDateChar_of_mem_padded h

/-- A date is written in digits and a few marks. -/
theorem isDateChar_of_mem_text {t : Timestamp} (h : c ∈ t.text.toList) : isDateChar c = true := by
  simp only [Timestamp.text, String.toList_ofList, List.mem_append, List.mem_cons] at h
  rcases h with ((((h | rfl | h) | rfl | h) | rfl | h) | rfl | h) | rfl | h
  all_goals first
    | rfl
    | exact isDateChar_of_mem_yearText h
    | exact isDateChar_of_mem_padded h

/-- None of these characters ends a line. -/
theorem isLineEnd_of_isDateChar (h : isDateChar c = true) : isLineEnd c = false := by
  rw [← Bool.not_eq_true]
  intro hend
  have hnone : ['\n', '\x0b', '\x0c', '\r', '\x85', '\u2028', '\u2029'].all
      (fun c => !isDateChar c) = true := by decide
  have hc := List.all_eq_true.1 hnone c (List.contains_iff_mem.1 hend)
  rw [h] at hc
  cases hc

/-! ## Lines -/

/-- These characters end lines: the line feed does, and others may that do so in C# or elsewhere. -/
structure EndsLines (ends : Char → Bool) : Prop where
  feed : ends '\n' = true
  isLineEnd : ∀ c, ends c = true → isLineEnd c = true

/-- The lines of a text, by the characters that end them. -/
def linesBy (ends : Char → Bool) (text : String) : List (List Char) := text.toList.splitOnP ends

/-- Two lists have the same length, and the same members but at one place. -/
structure AgreeBut {α : Type} (n : Nat) (as bs : List α) : Prop where
  length_eq : as.length = bs.length
  getElem?_eq : ∀ i, i ≠ n → as[i]? = bs[i]?

theorem agreeBut_middle {α : Type} (above below : List α) (a b : α) :
    AgreeBut above.length (above ++ a :: below) (above ++ b :: below) where
  length_eq := by simp
  getElem?_eq := by
    intro i hi
    rcases Nat.lt_or_gt_of_ne hi with hlt | hgt
    · rw [List.getElem?_append_left hlt, List.getElem?_append_left hlt]
    · obtain ⟨k, hk⟩ := Nat.exists_eq_add_of_lt hgt
      rw [List.getElem?_append_right (by omega), List.getElem?_append_right (by omega)]
      have hplace : i - above.length = k + 1 := by omega
      rw [hplace, List.getElem?_cons_succ, List.getElem?_cons_succ]

/-- A line between two line feeds is one of the lines, among those of what is around it. -/
theorem linesBy_between {ends : Char → Bool} (h : EndsLines ends) (above below : String)
    {line : String} (hline : ∀ c ∈ line.toList, isLineEnd c = false) :
    linesBy ends (above ++ "\n" ++ line ++ "\n" ++ below) =
      linesBy ends above ++ line.toList :: linesBy ends below := by
  have hsingle : line.toList.splitOnP ends = [line.toList] :=
    List.splitOnP_eq_singleton fun c hc => Bool.eq_false_iff.2 fun he =>
      Bool.false_ne_true ((hline c hc).symm.trans (h.isLineEnd c he))
  have hlist : (above ++ "\n" ++ line ++ "\n" ++ below).toList =
      above.toList ++ '\n' :: (line.toList ++ '\n' :: below.toList) := by
    simp only [String.toList_append, List.append_assoc]
    rfl
  rw [linesBy, hlist, List.splitOnP_append_cons _ _ h.feed, List.splitOnP_append_cons _ _ h.feed,
    hsingle]
  rfl

/-! ## Sources -/

/-- The line of a date. -/
def dateLine (t : Timestamp) : String := "/// <date>" ++ t.text ++ "</date>"

theorem isLineEnd_of_mem_dateLine {t : Timestamp} (h : c ∈ (dateLine t).toList) :
    isLineEnd c = false := by
  simp only [dateLine, String.toList_append, List.mem_append] at h
  rcases h with (h | h) | h
  · exact isLineEnd_of_any (by decide) h
  · exact isLineEnd_of_isDateChar (isDateChar_of_mem_text h)
  · exact isLineEnd_of_any (by decide) h

/-- **The clock shows in the line of the date only.** Whether a source can be generated for a class,
    and why not, does not depend on the time. Where one is, it is the date between two texts that do
    not depend on the time; the first ends in the opening tag and the second starts with the closing
    one. A date has no line end in it, so that the sources of two points in time have equally many
    lines, and the same ones but for that of the date. -/
theorem render_dateLine (p : Profile) (d : Descriptor) :
    (∃ fault, ∀ t, render p d t = .error fault) ∨
      ∃ before after : String, "/// <date>".toList <:+ before.toList ∧
        "</date>".toList <+: after.toList ∧
        (∀ t, render p d t = .ok (before ++ t.text ++ after) ∧
          ∀ c ∈ t.text.toList, isLineEnd c = false) ∧
        ∀ ends, EndsLines ends → ∃ n, ∀ t u,
          let lines (t : Timestamp) := linesBy ends (before ++ t.text ++ after)
          (lines t)[n]? = some ("/// <date>" ++ t.text ++ "</date>").toList ∧
            AgreeBut n (lines t) (lines u) := by
  refine (render_lines p d).imp_right ?_
  rintro ⟨below, hbelow, hrender⟩
  have habove : linesAboveDate p.header ≠ [] := by simp [linesAboveDate]
  have hsource : ∀ t, Text.joinLines (linesAboveDate p.header ++ dateLine t :: below) =
      Text.joinLines (linesAboveDate p.header) ++ "\n" ++ dateLine t ++ "\n" ++
        Text.joinLines below := fun t => joinLines_between habove hbelow _
  generalize Text.joinLines (linesAboveDate p.header) = first at hsource
  have hparts : ∀ t, (first ++ "\n" ++ "/// <date>") ++ t.text ++
      ("</date>" ++ "\n" ++ Text.joinLines below) =
        first ++ "\n" ++ dateLine t ++ "\n" ++ Text.joinLines below := fun t => by
    simp only [dateLine, String.append_assoc]
  refine ⟨first ++ "\n" ++ "/// <date>", "</date>" ++ "\n" ++ Text.joinLines below, ?_, ?_,
    fun t => ⟨?_, fun c hc => isLineEnd_of_isDateChar (isDateChar_of_mem_text hc)⟩, ?_⟩
  · rw [String.toList_append]
    exact List.suffix_append ..
  · rw [String.append_assoc, String.toList_append]
    exact List.prefix_append ..
  · rw [hrender, hparts]
    exact congrArg _ (hsource t)
  · intro ends hends
    refine ⟨(linesBy ends first).length, fun t u => ?_⟩
    have hlines : ∀ t, linesBy ends ((first ++ "\n" ++ "/// <date>") ++ t.text ++
        ("</date>" ++ "\n" ++ Text.joinLines below)) =
          linesBy ends first ++ (dateLine t).toList :: linesBy ends (Text.joinLines below) :=
      fun t => by
        rw [hparts]
        exact linesBy_between hends first _ fun c => isLineEnd_of_mem_dateLine
    simp only [hlines]
    exact ⟨by simp [dateLine], agreeBut_middle ..⟩

end PhpSharp.CSharp
