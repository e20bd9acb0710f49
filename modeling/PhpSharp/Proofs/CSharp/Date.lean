/-
  The date in a generated source: it stands in one line, and nothing else depends on it.
-/
import PhpSharp.Proofs.CSharp.Enumeration

namespace PhpSharp.CSharp

open Sdk (Descriptor)

/-- A text with the line of a date between two others. -/
def dated (before after : String) (date : Text.Timestamp) : String :=
  before ++ "/// <date>" ++ date.text ++ "</date>" ++ after

/-- The lines of a header above the date. -/
def linesAboveDate (h : Header) : List String :=
  h.usings.map (fun u => "using " ++ u ++ ";") ++ ["", "/// <summary>"] ++ bannerLines h ++
    ["/// </summary>"]

/-- The lines of a header below the date. -/
def linesBelowDate (qualifiedName : String) : List String :=
  ["///", "/// <remarks>",
    "/// This file was automatically generated by sdkport from the PHP class",
    "/// " ++ qualifiedName ++ ". Edits will be lost on the next conversion.",
    "/// </remarks>", ""]

theorem headerLines_eq (h : Header) (qualifiedName date : String) :
    headerLines h qualifiedName date =
      linesAboveDate h ++ ("/// <date>" ++ date ++ "</date>") :: linesBelowDate qualifiedName := by
  simp [headerLines, linesAboveDate, linesBelowDate]

/-- A line among others, with what stands before and behind it. -/
theorem joinLines_line (above : List String) (line : String) {below : List String}
    (h : below ≠ []) :
    Text.joinLines (above ++ line :: below) =
      terminated above ++ line ++ ("\n" ++ Text.joinLines below) := by
  rw [joinLines_append above (List.cons_ne_nil _ _), Text.joinLines]
  · simp only [String.append_assoc]
  · exact h

/-- **The lines of a generated source** are those above the date, the line of the date, and those
    below it; and if no source can be generated, that does not depend on the time. -/
theorem render_lines (p : Profile) (d : Descriptor) :
    (∃ fault, ∀ date, render p d date = .error fault) ∨
      ∃ below, below ≠ [] ∧ ∀ date, render p d date = .ok (Text.joinLines
        (linesAboveDate p.header ++ ("/// <date>" ++ date.text ++ "</date>") :: below)) := by
  unfold render
  cases d.facts? with
  | none => exact .inl ⟨_, fun _ => rfl⟩
  | some facts =>
    cases hmembers : memberLines p d facts with
    | error fault => exact .inl ⟨fault, fun _ => by simp [hmembers, Except.map]⟩
    | ok lines =>
      obtain ⟨base, members⟩ := lines
      refine .inr ⟨linesBelowDate d.qualifiedName ++
        classLines d.nameSpace d.shortName base members, by simp [linesBelowDate], fun date => ?_⟩
      simp only [hmembers, Except.map, headerLines_eq, List.append_assoc, List.cons_append]

/-- **Two sources generated for a class at two points in time** differ in the date only; and if none
    can be generated, that does not depend on the time. -/
theorem render_dated (p : Profile) (d : Descriptor) :
    (∃ fault, ∀ date, render p d date = .error fault) ∨
      ∃ before after, ∀ date, render p d date = .ok (dated before after date) := by
  refine (render_lines p d).imp_right ?_
  rintro ⟨below, hbelow, hrender⟩
  refine ⟨terminated (linesAboveDate p.header), "\n" ++ Text.joinLines below, fun date => ?_⟩
  rw [hrender, joinLines_line _ _ hbelow]
  simp only [dated, String.append_assoc]

end PhpSharp.CSharp
