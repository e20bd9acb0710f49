/-
  Texts in comments: what is shown of a text stays in its line of the comment, and the text can be
  read off it but for its blanks.

  * `undoEntities` reads what is shown, and `Shows` says what becomes of a text;
  * `shows_commentText`: that is what `commentText` does;
  * `comment_contained`: in a generated source, a text of the header or the documentation of a
    method is shown in one line of a comment, and nothing else depends on it.
-/
import PhpSharp.Proofs.CSharp.Date
import PhpSharp.Proofs.Text.OneLine

namespace PhpSharp.CSharp

open Sdk (Connection ConnectionKind Descriptor)

/-! ## What is shown of a text -/

/-- The characters that end a line, in C# or elsewhere. -/
def isLineEnd (c : Char) : Bool :=
  ['\n', '\x0b', '\x0c', '\r', '\x85', '\u2028', '\u2029'].contains c

/-- The entities behind their ampersand. -/
def entityNames : List String := ["amp;", "lt;", "gt;"]

/-- A text with its entities undone. -/
def undoEntities : List Char → List Char
  | '&' :: 'a' :: 'm' :: 'p' :: ';' :: cs => '&' :: undoEntities cs
  | '&' :: 'l' :: 't' :: ';' :: cs => '<' :: undoEntities cs
  | '&' :: 'g' :: 't' :: ';' :: cs => '>' :: undoEntities cs
  | c :: cs => c :: undoEntities cs
  | [] => []

/-- What is shown of a text in a comment. -/
structure Shows (text shown : String) : Prop where
  oneLine : ∀ c ∈ shown.toList, isLineEnd c = false
  noTag : '<' ∉ shown.toList ∧ '>' ∉ shown.toList
  /-- Every ampersand opens an entity. -/
  entity : ∀ behind, '&' :: behind <:+ shown.toList → ∃ name ∈ entityNames, name.toList <+: behind
  /-- It is the text, with one space for every run of blanks and none at the ends. -/
  undone : undoEntities shown.toList = Text.trim (Text.squeeze text.toList)

variable {c d : Char} {cs : List Char}

theorem isBlank_of_isLineEnd (h : isLineEnd c = true) : Text.isBlank c = true := by
  have hall : ['\n', '\x0b', '\x0c', '\r', '\x85', '\u2028', '\u2029'].all Text.isBlank = true := by
    decide
  exact List.all_eq_true.1 hall c (List.contains_iff_mem.1 h)

theorem isLineEnd_of_any (h : cs.any isLineEnd = false) (hc : c ∈ cs) : isLineEnd c = false :=
  Bool.eq_false_iff.2 (List.any_eq_false.1 h c hc)

theorem isLineEnd_of_mem_oneLine (h : c ∈ Text.oneLine cs) : isLineEnd c = false := by
  rw [← Bool.not_eq_true]
  intro hc
  obtain rfl := Text.eq_space_of_mem_oneLine h (isBlank_of_isLineEnd hc)
  exact absurd hc (by decide)

theorem undoEntities_plain (hc : c ≠ '&') (cs : List Char) :
    undoEntities (c :: cs) = c :: undoEntities cs := by
  rw [undoEntities] <;> rintro _ rfl <;> exact absurd rfl hc

theorem xmlChar_plain (h : c ≠ '&' ∧ c ≠ '<' ∧ c ≠ '>') : xmlChar c = [c] := by
  rw [xmlChar, if_neg h.1, if_neg h.2.1, if_neg h.2.2]

theorem undoEntities_xml (cs : List Char) : undoEntities (cs.flatMap xmlChar) = cs := by
  induction cs with
  | nil => rfl
  | cons c cs ih =>
    rw [List.flatMap_cons]
    by_cases h : c ≠ '&' ∧ c ≠ '<' ∧ c ≠ '>'
    · rw [xmlChar_plain h, List.singleton_append, undoEntities_plain h.1, ih]
    · obtain rfl | rfl | rfl : c = '&' ∨ c = '<' ∨ c = '>' := by grind
      all_goals exact congrArg (List.cons _) ih

/-- The characters of an escaped text are those of the text that are no marks, and those of the
    entities. -/
theorem of_mem_xml (h : c ∈ cs.flatMap xmlChar) :
    (c ∈ cs ∧ c ≠ '<' ∧ c ≠ '>') ∨ c ∈ "&ampltg;".toList := by
  obtain ⟨d, hd, hc⟩ := List.mem_flatMap.1 h
  by_cases h : d ≠ '&' ∧ d ≠ '<' ∧ d ≠ '>'
  · rw [xmlChar_plain h, List.mem_singleton] at hc
    exact .inl ⟨hc ▸ hd, hc ▸ h.2⟩
  · have hall : ['&', '<', '>'].all
        (fun d => (xmlChar d).all ("&ampltg;".toList.contains ·)) = true := by decide
    have hd : (xmlChar d).all ("&ampltg;".toList.contains ·) = true :=
      List.all_eq_true.1 hall d (by grind)
    exact .inr (List.contains_iff_mem.1 (List.all_eq_true.1 hd c hc))

/-- An ampersand in an escaped text opens an entity. -/
theorem entity_of_suffix_xml {behind : List Char} (h : '&' :: behind <:+ cs.flatMap xmlChar) :
    ∃ name ∈ entityNames, name.toList <+: behind := by
  induction cs with
  | nil => exact absurd (List.suffix_nil.1 h) (List.cons_ne_nil _ _)
  | cons c cs ih =>
    rw [List.flatMap_cons] at h
    by_cases hc : c ≠ '&' ∧ c ≠ '<' ∧ c ≠ '>'
    · rw [xmlChar_plain hc, List.singleton_append, List.suffix_cons_iff] at h
      rcases h with h | h
      · exact absurd (List.cons.inj h).1.symm hc.1
      · exact ih h
    · obtain rfl | rfl | rfl : c = '&' ∨ c = '<' ∨ c = '>' := by grind
      all_goals
        simp [xmlChar, List.suffix_cons_iff] at h
        rcases h with rfl | h
        · simp [entityNames]
        · exact ih h

/-- Escaping is three replacements, one after the other; the ampersands come first, as the
    entities have one. -/
theorem xml_eq_replaced (cs : List Char) :
    cs.flatMap xmlChar =
      ((cs.flatMap fun c => if c = '&' then "&amp;".toList else [c]).flatMap
        fun c => if c = '<' then "&lt;".toList else [c]).flatMap
          fun c => if c = '>' then "&gt;".toList else [c] := by
  simp only [List.flatMap_assoc]
  refine List.flatMap_congr fun c _ => ?_
  by_cases h : c ≠ '&' ∧ c ≠ '<' ∧ c ≠ '>'
  · simp [xmlChar, h]
  · obtain rfl | rfl | rfl : c = '&' ∨ c = '<' ∨ c = '>' := by grind
    all_goals rfl

theorem toList_commentText (text : String) :
    (commentText text).toList = (Text.oneLine text.toList).flatMap xmlChar := by
  simp [commentText, xmlEscape]

/-- **What is shown of a text** is one line without tags, from which the text can be read. -/
theorem shows_commentText (text : String) : Shows text (commentText text) where
  oneLine c hc := by
    rw [toList_commentText] at hc
    rcases of_mem_xml hc with ⟨hc, -⟩ | hc
    · exact isLineEnd_of_mem_oneLine hc
    · exact isLineEnd_of_any (by decide) hc
  noTag := by
    rw [toList_commentText]
    constructor
    all_goals
      intro h
      rcases of_mem_xml h with ⟨-, hlt, hgt⟩ | h
      · contradiction
      · exact absurd h (by decide)
  entity behind h := entity_of_suffix_xml (toList_commentText text ▸ h)
  undone := by rw [toList_commentText, undoEntities_xml, Text.oneLine_eq]

/-! ## Lines -/

/-- A line, after some indentation, of a comment that shows the text. -/
structure IsCommentLine (indent stop text line : String) : Prop where
  oneLine : ∀ c ∈ line.toList, isLineEnd c = false
  shows : ∃ gap shown, line = indent ++ "///" ++ gap ++ shown ++ stop ∧ Shows text shown ∧
    (gap = " " ∨ gap ++ shown = "")

/-- A source that depends on a text shows it in one line of a comment, and has nothing else of
    it. -/
def ShownOnce (indent stop : String) (source : String → Except Fault String) : Prop :=
  ∃ above below, ∀ text, ∃ line, IsCommentLine indent stop text line ∧
    source text = .ok (above ++ "\n" ++ line ++ "\n" ++ below)

theorem isCommentLine_of_shows (indent gap stop : String) {text shown : String}
    (hindent : indent.toList.any isLineEnd = false) (hstop : stop.toList.any isLineEnd = false)
    (hshown : Shows text shown) (hgap : gap = " " ∨ gap ++ shown = "") :
    IsCommentLine indent stop text (indent ++ "///" ++ gap ++ shown ++ stop) := by
  refine ⟨fun c hc => ?_, gap, shown, rfl, hshown, hgap⟩
  have hspace : gap.toList.any isLineEnd = false := by
    rcases hgap with rfl | hnone
    · decide
    · simp [(String.append_eq_empty_iff.1 hnone).1]
  simp only [String.toList_append, List.mem_append] at hc
  rcases hc with (((hc | hc) | hc) | hc) | hc
  · exact isLineEnd_of_any hindent hc
  · exact isLineEnd_of_any (by decide) hc
  · exact isLineEnd_of_any hspace hc
  · exact hshown.oneLine c hc
  · exact isLineEnd_of_any hstop hc

theorem isCommentLine_commentLine (text : String) :
    IsCommentLine "" "" text (commentLine text) := by
  have hshown := shows_commentText text
  by_cases h : text = ""
  · subst h
    exact isCommentLine_of_shows "" "" "" (by decide) (by decide) hshown (.inr rfl)
  · have hline := isCommentLine_of_shows "" " " "" (by decide) (by decide) hshown (.inl rfl)
    have htext : commentLine text = "" ++ "///" ++ " " ++ commentText text ++ "" := by
      rw [commentLine, if_neg h, String.append_empty]
      rfl
    rwa [htext]

theorem isCommentLine_documentation (text : String) :
    IsCommentLine "        " "." text ("        /// " ++ commentText text ++ ".") :=
  isCommentLine_of_shows "        " " " "." (by decide) (by decide) (shows_commentText text)
    (.inl rfl)

theorem terminated_eq {ls : List String} (h : ls ≠ []) :
    terminated ls = Text.joinLines ls ++ "\n" := by
  obtain ⟨ls, l, rfl⟩ := List.eq_nil_or_concat ls |>.resolve_left h
  rw [List.concat_eq_append, joinLines_append ls (List.cons_ne_nil _ _), terminated_append,
    String.append_assoc]
  rfl

/-- A line among others stands between two line feeds. -/
theorem joinLines_between {above below : List String} (ha : above ≠ []) (hb : below ≠ [])
    (line : String) : Text.joinLines (above ++ line :: below) =
      Text.joinLines above ++ "\n" ++ line ++ "\n" ++ Text.joinLines below := by
  rw [joinLines_line above line hb, terminated_eq ha]
  simp only [String.append_assoc]

/-- A source with one line that shows the text, among lines that do not depend on it. -/
theorem shownOnce_of_lines {indent stop : String} {line : String → String}
    (hline : ∀ text, IsCommentLine indent stop text (line text)) (above below : List String)
    (ha : above ≠ []) (hb : below ≠ []) {source : String → Except Fault String}
    (hsource : ∀ text, source text = .ok (Text.joinLines (above ++ line text :: below))) :
    ShownOnce indent stop source :=
  ⟨Text.joinLines above, Text.joinLines below, fun text =>
    ⟨line text, hline text, by rw [hsource, joinLines_between ha hb]⟩⟩

/-! ## The header -/

/-- A header that depends on a text has one line for it in the comment at the top. -/
structure BannerShows (header : String → Header) : Prop where
  usings : ∃ usings, ∀ text, (header text).usings = usings
  banner : ∃ above below, ∀ text, bannerLines (header text) = above ++ commentLine text :: below

theorem bannerShows_copyright (h : Header) (above below : List String) :
    BannerShows fun text => { h with copyright := above ++ text :: below } where
  usings := ⟨h.usings, fun _ => rfl⟩
  banner := ⟨above.map commentLine,
    (below ++ (if h.license ≠ [] then [""] else []) ++ h.license).map commentLine,
    fun text => by simp [bannerLines]⟩

theorem bannerShows_license (h : Header) (above below : List String) :
    BannerShows fun text => { h with license := above ++ text :: below } where
  usings := ⟨h.usings, fun _ => rfl⟩
  banner := ⟨(h.copyright ++ (if h.copyright ≠ [] then [""] else []) ++ above).map commentLine,
    below.map commentLine, fun text => by simp [bannerLines]⟩

/-- The rest of a source does not depend on its header, nor whether there is one. -/
theorem render_header (p : Profile) (d : Descriptor) (date : Text.Timestamp) :
    (∃ fault, ∀ header, render { p with header := header } d date = .error fault) ∨
      ∃ below, ∀ header, render { p with header := header } d date =
        .ok (Text.joinLines (headerLines header d.qualifiedName date.text ++ below)) := by
  unfold render
  cases d.facts? with
  | none => exact .inl ⟨_, fun _ => rfl⟩
  | some facts =>
    have hmembers : ∀ header, memberLines { p with header := header } d facts =
        memberLines p d facts := fun _ => rfl
    simp only [hmembers]
    cases memberLines p d facts with
    | error fault => exact .inl ⟨fault, fun _ => rfl⟩
    | ok lines =>
      exact .inr ⟨classLines d.nameSpace d.shortName lines.1 lines.2, fun _ => rfl⟩

theorem BannerShows.shownOnce {header : String → Header} (h : BannerShows header)
    (qualifiedName date : String) {below : List String} :
    ShownOnce "" "" fun text =>
      .ok (Text.joinLines (headerLines (header text) qualifiedName date ++ below)) := by
  obtain ⟨usings, husings⟩ := h.usings
  obtain ⟨above, behind, hbanner⟩ := h.banner
  refine shownOnce_of_lines isCommentLine_commentLine
    (usings.map (fun u => "using " ++ u ++ ";") ++ ["", "/// <summary>"] ++ above)
    (behind ++ "/// </summary>" :: ("/// <date>" ++ date ++ "</date>") ::
      linesBelowDate qualifiedName ++ below) (by simp) (by simp) fun text => ?_
  simp [headerLines, linesBelowDate, husings, hbanner]

/-! ## Summary -/

/-- **Texts in comments stay there.** In the source generated for a class, a line of the copyright
    or the license and the documentation of a connection are shown in one line of a comment each,
    whatever they hold, and nothing else depends on them. -/
theorem comment_contained (p : Profile) (d : Descriptor) (date : Text.Timestamp) :
    ((∃ fault, ∀ header, render { p with header := header } d date = .error fault) ∨
      ∀ above below : List String,
        ShownOnce "" "" (fun text => render { p with header :=
          { p.header with copyright := above ++ text :: below } } d date) ∧
        ShownOnce "" "" fun text => render { p with header :=
          { p.header with license := above ++ text :: below } } d date) ∧
    ∀ (endpoint name edge : String) (kind : ConnectionKind) (above below : List Connection),
      ShownOnce "        " "." fun text => render p { d with
        kind := .object
        facts? := some (.object (some endpoint)
          (above ++ ⟨name, some edge, text, kind⟩ :: below)) } date := by
  constructor
  · refine (render_header p d date).imp_right ?_
    rintro ⟨rest, hrender⟩ above below
    simp only [hrender]
    exact ⟨(bannerShows_copyright p.header above below).shownOnce _ _,
      (bannerShows_license p.header above below).shownOnce _ _⟩
  · intro endpoint name edge kind above below
    refine shownOnce_of_lines isCommentLine_documentation
      (headerLines p.header d.qualifiedName date.text ++
        ["namespace " ++ d.nameSpace, "\x7b",
          "    public class " ++ d.shortName ++ " : " ++ p.objectBase, "    \x7b"] ++
        objectLines d.shortName endpoint ++ above.flatMap connectionLines ++
        ["", "        /// <summary>"])
      ((methodLines ⟨name, some edge, "", kind⟩ edge).drop 3 ++
        below.flatMap connectionLines ++ ["    \x7d", "\x7d"]) (by simp) (by simp) fun text => ?_
    simp [render, memberLines, Except.map, classLines, connectionLines, methodLines]

end PhpSharp.CSharp
