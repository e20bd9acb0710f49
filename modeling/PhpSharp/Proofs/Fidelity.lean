/-
  Enumerations from source to source: which text the constants of a PHP class become, and what a
  reader of the generated C# class gets back.

  * `enumeration_fidelity`: the constants are kept, one line each and in order, and the literal of a
    value is read back as the value exactly if it holds no line or paragraph separator.
-/
import PhpSharp.Proofs.CSharp.Enumeration
import PhpSharp.Proofs.Reflection.Enumeration

namespace PhpSharp

open Reflection (reflect enumerationSource)
open CSharp (Profile render constantText readLiteral readLiteral_eq_some_iff)

/-- A constant stands on one line. -/
theorem feeds_constantText {entry : String × String} (h : Sdk.isIdentifier entry.1 = true) :
    (constantText entry).toList.count '\n' = 1 := by
  have hname : entry.1.toList.count '\n' = 0 :=
    Reflection.lineFeeds_name (Reflection.isNameText_of_isIdentifier h)
  have hliteral : (CSharp.escape entry.2).toList.count '\n' = 0 := by
    rw [CSharp.escape, String.toList_ofList]
    exact List.count_eq_zero.2 (CSharp.feed_not_mem_escape _)
  have hbefore : "        public const string ".toList.count '\n' = 0 := by decide
  have hbetween : " = \"".toList.count '\n' = 0 := by decide
  have hbehind : "\";".toList.count '\n' = 0 := by decide
  have hfeed : "\n".toList.count '\n' = 1 := by decide
  have hsum : ∀ {s t u v w x : String}, s.toList.count '\n' = 0 → t.toList.count '\n' = 0 →
      u.toList.count '\n' = 0 → v.toList.count '\n' = 0 → w.toList.count '\n' = 0 →
      x.toList.count '\n' = 1 → (s ++ t ++ u ++ v ++ w ++ x).toList.count '\n' = 1 := by
    intro s t u v w x hs ht hu hv hw hx
    simp only [String.toList_append, List.count_append, hs, ht, hu, hv, hw, hx]
  exact hsum hbefore hname hbetween hliteral hbehind hfeed

/-- **Enumerations keep their constants from source to source.** For every class of constants, its
    facts are its constants in order, and the class generated from them declares them in order, one
    line each, between two texts that do not depend on them. The literal of a value is read back
    as the value, except for one that holds a line or paragraph separator: no literal can hold these
    as they are, and they are left as they are. -/
theorem enumeration_fidelity (expected : Sdk.PerKind String) (sources : String → Option String)
    (p : Profile) (date : Text.Timestamp) {d : Sdk.Descriptor} (hk : d.kind.isEnumeration = true)
    (hx : Sdk.isClassName d.shortName = true) :
    ∃ above below : String, ∀ (nameSpace : String) (constants : Sdk.Constants),
      Php.isNameText nameSpace.toList = true →
      (∀ name ∈ constants.names, Sdk.isIdentifier name = true) →
      (reflect expected sources d (enumerationSource nameSpace d.shortName constants)).1 =
          .ok (.enumeration constants) ∧
        render p { d with facts? := some (.enumeration constants) } date =
          .ok (above ++ String.join (constants.entries.map constantText) ++ below) ∧
        ∀ entry ∈ constants.entries, ∃ literal : String,
          constantText entry =
            "        public const string " ++ entry.1 ++ " = \"" ++ literal ++ "\";" ++ "\n" ∧
          (constantText entry).toList.count '\n' = 1 ∧
          (readLiteral literal.toList = some entry.2.toList ↔
            '\u2028' ∉ entry.2.toList ∧ '\u2029' ∉ entry.2.toList) := by
  refine ⟨CSharp.terminated (CSharp.openingLines p d date), "    \x7d\n\x7d", ?_⟩
  intro nameSpace constants hn hnames
  refine ⟨Reflection.reflect_enumeration expected sources hk hn hx hnames,
    CSharp.render_enumeration p date hk constants, ?_⟩
  intro entry he
  have hname := hnames entry.1 (List.mem_map_of_mem he)
  exact ⟨CSharp.escape entry.2, rfl, feeds_constantText hname, readLiteral_eq_some_iff entry.2⟩

/-- Two constants, the value of the second with a quote and a line feed. -/
def adConstants : Sdk.Constants where
  entries := [("ID", "id"), ("NOTE", "it's\nnew")]
  nodup := by decide

/-- A class of constants before its source is read. -/
def adDescriptor : Sdk.Descriptor where
  kind := .fields
  shortName := "AdFields"
  nameSpace := "Sdk.Fields"
  qualifiedName := "\\Sdk\\Fields\\AdFields"
  sourceFile := ⟨"AdFields.php"⟩

theorem enumeration_fidelity_adConstants : ∃ above below : String,
    (reflect ⟨"", "", ""⟩ (fun _ => none) adDescriptor
        (enumerationSource "Sdk\\Fields" "AdFields" adConstants)).1 =
      .ok (.enumeration adConstants) ∧
    render ⟨"Object", "Fields", ⟨[], [], []⟩⟩
        { adDescriptor with facts? := some (.enumeration adConstants) } ⟨2024, 3, 9, 10, 30, 0⟩ =
      .ok (above ++ ("        public const string ID = \"id\";\n" ++
        "        public const string NOTE = \"it's\\nnew\";\n") ++ below) := by
  obtain ⟨above, below, h⟩ := enumeration_fidelity ⟨"", "", ""⟩ (fun _ => none)
    ⟨"Object", "Fields", ⟨[], [], []⟩⟩ ⟨2024, 3, 9, 10, 30, 0⟩ (d := adDescriptor) rfl (by decide)
  obtain ⟨hfacts, htext, -⟩ := h "Sdk\\Fields" adConstants (by decide) (by decide)
  have hlines : String.join (adConstants.entries.map constantText) =
      "        public const string ID = \"id\";\n" ++
        "        public const string NOTE = \"it's\\nnew\";\n" := by decide
  rw [hlines] at htext
  exact ⟨above, below, hfacts, htext⟩

end PhpSharp
