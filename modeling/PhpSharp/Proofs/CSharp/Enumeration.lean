/-
  The source generated for an enumeration: one line per constant, between two texts that do not
  depend on the constants.
-/
import PhpSharp.CSharp.Render
import PhpSharp.Proofs.CSharp.Literal

namespace PhpSharp.CSharp

open Sdk (Constants Descriptor Facts)

/-- Lines, each with its line feed. -/
def terminated (lines : List String) : String := String.join (lines.map (· ++ "\n"))

theorem terminated_append (ls ms : List String) :
    terminated (ls ++ ms) = terminated ls ++ terminated ms := by
  rw [terminated, List.map_append, String.join_append]
  rfl

/-- Lines before others end in a line feed each. -/
theorem joinLines_append (ls : List String) {ms : List String} (h : ms ≠ []) :
    Text.joinLines (ls ++ ms) = terminated ls ++ Text.joinLines ms := by
  induction ls with
  | nil => simp [terminated]
  | cons l ls ih =>
    have hne : ls ++ ms ≠ [] := by simp [h]
    rw [List.cons_append, Text.joinLines, ih]
    · simp [terminated, String.append_assoc]
    · exact hne

/-- The lines above the constants. -/
def openingLines (p : Profile) (d : Descriptor) (date : Text.Timestamp) : List String :=
  headerLines p.header d.qualifiedName date.text ++
    ["namespace " ++ d.nameSpace, "\x7b",
      "    public class " ++ d.shortName ++ " : " ++ p.enumerationBase, "    \x7b"]

/-- The line of a constant, with its line feed. -/
def constantText (entry : String × String) : String := constantLine entry.1 entry.2 ++ "\n"

/-- **The constants stand in one block of lines**, in order. -/
theorem render_enumeration (p : Profile) {d : Descriptor} (date : Text.Timestamp)
    (hk : d.kind.isEnumeration = true) (constants : Constants) :
    render p { d with facts? := some (.enumeration constants) } date =
      .ok (terminated (openingLines p d date) ++
        String.join (constants.entries.map constantText) ++ "    \x7d\n\x7d") := by
  have hmembers : memberLines p { d with facts? := some (.enumeration constants) }
      (.enumeration constants) = .ok (p.enumerationBase,
        constants.entries.map fun entry => constantLine entry.1 entry.2) := by
    cases hkind : d.kind with
    | object => simp [hkind, Sdk.Kind.isEnumeration] at hk
    | fields | values => rfl
  have hlines : ∀ members : List String, headerLines p.header d.qualifiedName date.text ++
      classLines d.nameSpace d.shortName p.enumerationBase members =
        (openingLines p d date ++ members) ++ ["    \x7d", "\x7d"] := by
    intro members
    simp [classLines, openingLines]
  rw [render]
  simp only [hmembers, Except.map, hlines]
  rw [joinLines_append _ (by simp), terminated_append]
  simp only [terminated, List.map_map]
  rfl

end PhpSharp.CSharp
