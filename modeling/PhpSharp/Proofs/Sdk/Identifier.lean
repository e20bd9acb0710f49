/-
  The names of classes, said without the functions that find them.

  * `shortName_eq_iff`: the name of a file up to its first point;
  * `isClassName_iff`: an ASCII identifier that is no keyword;
  * `bareNamespace_eq_iff`: a namespace without the backslashes around it;
  * `qualify_eq_iff`: the full name of a class.
-/
import PhpSharp.Proofs.Text.Cut
import PhpSharp.Sdk.Identifier

namespace PhpSharp.Sdk

/-! ## Stems -/

/-- The stem of the name of a file: what stands before its first point. -/
structure IsStem (stem fileName : String) : Prop where
  noPoint : '.' ∉ stem.toList
  name_eq : fileName = stem ∨ ∃ rest, fileName = stem ++ "." ++ rest

theorem isStem_iff {stem fileName : String} :
    IsStem stem fileName ↔ Text.IsBefore '.' stem.toList fileName.toList := by
  have hpoint (rest : String) :
      (stem ++ "." ++ rest).toList = stem.toList ++ '.' :: rest.toList := by simp
  constructor
  · rintro ⟨hstem, rfl | ⟨rest, rfl⟩⟩
    · exact ⟨hstem, .inl rfl⟩
    · exact ⟨hstem, .inr ⟨rest.toList, hpoint rest⟩⟩
  · rintro ⟨hstem, hname | ⟨rest, hname⟩⟩
    · exact ⟨hstem, .inl (String.toList_inj.1 hname)⟩
    · refine ⟨hstem, .inr ⟨String.ofList rest, String.toList_inj.1 ?_⟩⟩
      rw [hname, hpoint, String.toList_ofList]

theorem shortName_eq_iff {fileName stem : String} :
    shortName fileName = stem ↔ IsStem stem fileName := by
  rw [isStem_iff, ← Text.takeWhile_ne_eq_iff, ← String.toList_inj, shortName, String.toList_ofList]

theorem isStem_shortName (fileName : String) : IsStem (shortName fileName) fileName :=
  shortName_eq_iff.1 rfl

/-! ## Identifiers -/

/-- `[A-Za-z]` -/
def IsLetter (c : Char) : Prop := 'A' ≤ c ∧ c ≤ 'Z' ∨ 'a' ≤ c ∧ c ≤ 'z'

/-- `[0-9]` -/
def IsFigure (c : Char) : Prop := '0' ≤ c ∧ c ≤ '9'

theorem isAlpha_iff {c : Char} : c.isAlpha = true ↔ IsLetter c := by
  have hupper : c.isUpper = true ↔ 'A' ≤ c ∧ c ≤ 'Z' := decide_eq_true_iff
  have hlower : c.isLower = true ↔ 'a' ≤ c ∧ c ≤ 'z' :=
    Bool.and_eq_true_iff.trans (and_congr decide_eq_true_iff decide_eq_true_iff)
  exact Bool.or_eq_true_iff.trans (or_congr hupper hlower)

theorem isDigit_iff {c : Char} : c.isDigit = true ↔ IsFigure c :=
  Bool.and_eq_true_iff.trans (and_congr decide_eq_true_iff decide_eq_true_iff)

/-- `[A-Za-z_][A-Za-z0-9_]*` -/
inductive MatchesIdentifier : List Char → Prop
  | mk {c cs} (first : IsLetter c ∨ c = '_')
      (others : ∀ c ∈ cs, IsLetter c ∨ IsFigure c ∨ c = '_') : MatchesIdentifier (c :: cs)

theorem isIdentifier_iff {name : String} :
    isIdentifier name = true ↔ MatchesIdentifier name.toList := by
  unfold isIdentifier
  cases name.toList with
  | nil => exact ⟨fun h => (nomatch h), fun h => nomatch h⟩
  | cons c cs =>
    simp only [Bool.and_eq_true, List.all_eq_true, isIdentifierStart, isIdentifierChar,
      Char.isAlphanum, Bool.or_eq_true, beq_iff_eq, isAlpha_iff, isDigit_iff, or_assoc]
    exact ⟨fun ⟨hfirst, hothers⟩ => .mk hfirst hothers, fun ⟨hfirst, hothers⟩ => ⟨hfirst, hothers⟩⟩

/-- **A class can have the name** in generated code: it is an identifier and no keyword. -/
def IsUsable (name : String) : Prop := MatchesIdentifier name.toList ∧ name ∉ reservedWords

theorem isClassName_iff {name : String} : isClassName name = true ↔ IsUsable name := by
  simp [isClassName, isIdentifier_iff, IsUsable]

/-! ## Namespaces -/

/-- The namespace without the backslashes around it. -/
structure IsBare (bare nameSpace : String) : Prop where
  text_eq : ∃ m n, nameSpace.toList =
    List.replicate m '\\' ++ bare.toList ++ List.replicate n '\\'
  head_ne : bare.toList.head? ≠ some '\\'
  last_ne : bare.toList.getLast? ≠ some '\\'

theorem isBare_iff {bare nameSpace : String} :
    IsBare bare nameSpace ↔ Text.IsInside '\\' bare.toList nameSpace.toList :=
  ⟨fun h => ⟨h.text_eq, h.head_ne, h.last_ne⟩, fun h => ⟨h.eq_around, h.head_ne, h.last_ne⟩⟩

theorem bareNamespace_eq_iff {nameSpace bare : String} :
    bareNamespace nameSpace = bare ↔ IsBare bare nameSpace := by
  rw [isBare_iff, ← Text.dropAround_eq_iff, ← String.toList_inj, bareNamespace,
    String.toList_ofList, Text.dropAround]

theorem isBare_bareNamespace (nameSpace : String) : IsBare (bareNamespace nameSpace) nameSpace :=
  bareNamespace_eq_iff.1 rfl

/-- **The full name of a class** in a namespace. -/
inductive IsQualified (nameSpace name : String) : String → Prop
  /-- There is nothing but backslashes to the namespace. -/
  | root (h : IsBare "" nameSpace) : IsQualified nameSpace name ("\\" ++ name)
  | inside {bare} (h : IsBare bare nameSpace) (hne : bare ≠ "") :
      IsQualified nameSpace name ("\\" ++ bare ++ "\\" ++ name)

theorem qualify_eq_iff {nameSpace name full : String} :
    qualify nameSpace name = full ↔ IsQualified nameSpace name full := by
  have hbare : ∀ {bare}, IsBare bare nameSpace → bareNamespace nameSpace = bare :=
    bareNamespace_eq_iff.2
  constructor
  · rintro rfl
    unfold qualify
    dsimp only
    split
    · rename_i hempty
      exact .root (bareNamespace_eq_iff.1 hempty)
    · rename_i hne
      exact .inside (isBare_bareNamespace nameSpace) hne
  · intro h
    cases h with
    | root h => rw [qualify, hbare h, if_pos rfl]
    | inside h hne => rw [qualify, hbare h, if_neg hne]

end PhpSharp.Sdk
