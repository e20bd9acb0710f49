/-
  What the description of a method is made of.

  * `IsParagraph`: the first paragraph among the lines of a comment (`isParagraph_iff`);
  * `Summarizes`: a description from a comment has the words of the paragraph in order, the last one
    without the points behind it. What is left may end in a point again if those points stand apart;
  * `SpellsOut`: a description from a name has no point, and no blanks but spaces and those of the
    name;
  * `documentation_line`: the description of a method of a source is one or the other, without a
    line feed and without a blank behind it.
-/
import PhpSharp.Proofs.Php.Provenance
import PhpSharp.Proofs.Text.Letters
import PhpSharp.Proofs.Text.Words
import PhpSharp.Reflection.Documentation

namespace PhpSharp.Reflection

/-! ## Paragraphs -/

/-- The lines of a documentation comment, without the stars and blanks around them. -/
def commentLines (doc : String) : List (List Char) :=
  (Text.lines (commentText doc.toList)).map bareLine

/-- A line of a paragraph: not empty, and no tag. -/
def IsProse (line : List Char) : Prop := line ≠ [] ∧ line.head? ≠ some '@'

/-- The first paragraph among the lines of a comment stands behind empty lines only, and goes up to
    the next empty line or tag; it is empty if a tag or nothing stands in its place. -/
def IsParagraph (lines paragraph : List (List Char)) : Prop :=
  ∃ empty behind, lines = empty ++ paragraph ++ behind ∧ (∀ line ∈ empty, line = []) ∧
    (∀ line ∈ paragraph, IsProse line) ∧
    ∀ line ∈ behind.head?, line.head? = some '@' ∨ line = [] ∧ paragraph ≠ []

section
variable {lines paragraph : List (List Char)}

theorem firstParagraph_eq (h : IsParagraph lines paragraph) : firstParagraph lines = paragraph := by
  obtain ⟨empty, behind, rfl, hempty, hprose, hbehind⟩ := h
  have hdrop : (empty ++ paragraph ++ behind).dropWhile (· = []) = paragraph ++ behind := by
    rw [List.append_assoc, List.dropWhile_append_of_pos (by simpa using hempty)]
    cases paragraph with
    | nil =>
      cases behind with
      | nil => rfl
      | cons line behind =>
        have htag := (hbehind line rfl).resolve_right (·.2 rfl)
        have hne : line ≠ [] := fun hnil => by
          rw [hnil] at htag
          cases htag
        exact List.dropWhile_cons_of_neg (by simpa using hne)
    | cons line paragraph =>
      exact List.dropWhile_cons_of_neg (by simpa using (hprose line (by simp)).1)
  have hstop : behind.takeWhile (fun line => line ≠ [] && line.head? ≠ some '@') = [] := by
    cases behind with
    | nil => rfl
    | cons line behind =>
      refine List.takeWhile_cons_of_neg ?_
      rcases hbehind line rfl with h | h <;> simp [h]
  rw [firstParagraph, hdrop, List.takeWhile_append_of_pos (by simpa [IsProse] using hprose),
    hstop, List.append_nil]

theorem isParagraph_firstParagraph (lines : List (List Char)) :
    IsParagraph lines (firstParagraph lines) := by
  have hempty := List.head?_dropWhile_not (fun line : List Char => decide (line = [])) lines
  have hlines := List.takeWhile_append_dropWhile
    (p := fun line : List Char => decide (line = [])) (l := lines)
  rw [firstParagraph]
  generalize lines.dropWhile (· = []) = rest at hempty hlines
  have hprose := List.head?_dropWhile_not
    (fun line : List Char => line ≠ [] && line.head? ≠ some '@') rest
  have hrest := List.takeWhile_append_dropWhile
    (p := fun line : List Char => line ≠ [] && line.head? ≠ some '@') (l := rest)
  refine ⟨lines.takeWhile (· = []), _, by rw [List.append_assoc, hrest, hlines],
    fun line h => by simpa using List.mem_takeWhile_imp h,
    fun line h => by simpa [IsProse] using List.mem_takeWhile_imp h, fun line hline => ?_⟩
  rw [Option.mem_def.1 hline] at hprose
  by_cases htag : line.head? = some '@'
  · exact .inl htag
  · have hnil : line = [] := by simpa [htag] using hprose
    refine .inr ⟨hnil, fun hparagraph => ?_⟩
    -- with nothing in the paragraph, the empty line would stand behind empty lines only
    rw [hparagraph, List.nil_append] at hrest
    rw [hrest, Option.mem_def] at hline
    rw [hline] at hempty
    simp [hnil] at hempty

theorem isParagraph_iff : IsParagraph lines paragraph ↔ firstParagraph lines = paragraph :=
  ⟨firstParagraph_eq, fun h => h ▸ isParagraph_firstParagraph lines⟩

end

/-! ## Sentences -/

/-- The words of a sentence without the points behind it. -/
def withoutPoints (ws : List (List Char)) : List (List Char) :=
  ws.dropLast ++ (ws.getLast?.toList.map (Text.dropEndWhile (· = '.'))).filter (· ≠ [])

theorem withoutPoints_concat (ws : List (List Char)) (w : List Char) :
    withoutPoints (ws ++ [w]) = ws ++ [Text.dropEndWhile (· = '.') w].filter (· ≠ []) := by
  simp [withoutPoints]

theorem withoutPoints_points {points : List Char} (h : ∀ c ∈ points, c = '.')
    (ws : List (List Char)) : withoutPoints (ws ++ [points]) = ws := by
  have hnil : Text.dropEndWhile (· = '.') points = [] :=
    Text.dropEndWhile_eq_nil_iff.2 fun c hc => decide_eq_true (h c hc)
  simp [withoutPoints_concat, hnil]

theorem withoutPoints_word {w : List Char} (h : Text.dropEndWhile (· = '.') w ≠ [])
    (ws : List (List Char)) :
    withoutPoints (ws ++ [w]) = ws ++ [Text.dropEndWhile (· = '.') w] := by
  simp [withoutPoints_concat, h]

/-- Behind a word that ends in a point, the last word is nothing but points. -/
def PointsApart (ws : List (List Char)) : Prop :=
  ∃ front w points, ws = front ++ [w, points] ∧ w.getLast? = some '.' ∧ ∀ c ∈ points, c = '.'

/-- No line feed in a text, and no blank at its end. -/
structure IsLine (text : List Char) : Prop where
  no_feed : '\n' ∉ text
  last : ∀ c ∈ text.getLast?, Text.isBlank c = false

/-- How a description goes back to the paragraph of a comment. -/
structure Summarizes (paragraph : List (List Char)) (text : List Char) : Prop extends
    IsLine text where
  words : Text.words text = withoutPoints (paragraph.flatMap Text.words)
  start : Text.startsBlank text = false
  point : text.getLast? = some '.' ↔ PointsApart (paragraph.flatMap Text.words)
  characters : ∀ c ∈ text, c = ' ' ∨ ∃ line ∈ paragraph, c ∈ line

section
variable {paragraph : List (List Char)} {ws : List (List Char)} {text : List Char}

/-- What is left of the words ends in a point if the points behind it stood apart. -/
theorem withoutPoints_last :
    (withoutPoints ws).getLast?.bind List.getLast? = some '.' ↔ PointsApart ws := by
  rcases List.eq_nil_or_concat' ws with rfl | ⟨front, last, rfl⟩
  · simp [withoutPoints, PointsApart]
  have hparts : ∀ {f w points}, front ++ [last] = f ++ [w, points] →
      front = f ++ [w] ∧ last = points := fun {f w points} he => by
    have he' : front ++ [last] = (f ++ [w]) ++ [points] := by simpa using he
    simpa using List.append_inj' he' rfl
  by_cases hpoints : Text.dropEndWhile (· = '.') last = []
  · have hall : ∀ c ∈ last, c = '.' := by simpa using Text.dropEndWhile_eq_nil_iff.1 hpoints
    rw [withoutPoints_points hall, Option.bind_eq_some_iff]
    constructor
    · rintro ⟨w, hw, hpoint⟩
      obtain ⟨f, rfl⟩ := List.getLast?_eq_some_iff.1 hw
      exact ⟨f, w, last, by simp, hpoint, hall⟩
    · rintro ⟨f, w, points, he, hpoint, -⟩
      rw [(hparts he).1]
      exact ⟨w, by simp, hpoint⟩
  · rw [withoutPoints_word hpoints, List.getLast?_concat, Option.bind_some]
    constructor
    · intro hpoint
      have hcut := Text.of_mem_getLast?_dropEndWhile hpoint
      simp at hcut
    · rintro ⟨f, w, points, he, -, hall⟩
      refine absurd (Text.dropEndWhile_eq_nil_iff.2 fun c hc => ?_) hpoints
      rw [(hparts he).2] at hc
      exact decide_eq_true (hall c hc)

/-! ## Summaries -/

/-- The lines of a paragraph on one line, without the points behind it. -/
def sentence (paragraph : List (List Char)) : List Char :=
  Text.trim (Text.dropEndWhile (· = '.') ([' '].intercalate paragraph))

theorem getLast?_sentence : ∀ c ∈ (sentence paragraph).getLast?, Text.isBlank c = false :=
  fun _ => Text.isBlank_of_mem_getLast?_trim

theorem summary?_eq (doc : String) : summary? doc =
    if sentence (firstParagraph (commentLines doc)) = [] then none
    else some (String.ofList (sentence (firstParagraph (commentLines doc)))) := rfl

theorem getLast?_commentLines {doc : String} {line : List Char} (h : line ∈ commentLines doc) :
    ∀ c ∈ line.getLast?, Text.isBlank c = false := by
  obtain ⟨written, -, rfl⟩ := List.mem_map.1 h
  exact fun _ => Text.isBlank_of_mem_getLast?_trim

theorem mem_firstParagraph {line : List Char} {lines : List (List Char)}
    (h : line ∈ firstParagraph lines) : line ∈ lines ∧ IsProse line :=
  ⟨(List.dropWhile_suffix _).subset ((List.takeWhile_prefix _).subset h),
    by simpa [IsProse] using List.mem_takeWhile_imp h⟩

theorem words_dropPoints (h : ∀ c ∈ text.getLast?, Text.isBlank c = false) :
    Text.words (Text.dropEndWhile (· = '.') text) = withoutPoints (Text.words text) := by
  have hpoint : ∀ c, Text.isBlank c = true → decide (c = '.') = false := fun c hc =>
    decide_eq_false fun he => absurd hc (by rw [he]; decide)
  obtain ⟨front, w, rfl, hfront, hw⟩ := Text.exists_last text
  by_cases hnil : w = []
  · subst hnil
    rw [List.append_nil] at h ⊢
    rw [hfront.eq_nil h]
    rfl
  · have hcut : ∀ c ∈ Text.dropEndWhile (· = '.') w, Text.isBlank c = false := fun c hc =>
      hw c ((Text.dropEndWhile_isPrefix _ _).subset hc)
    have hword : Text.words w = [w] := by simp [Text.words_of_no_blank hw, hnil]
    rw [Text.dropEndWhile_append hpoint hfront, Text.words_append hfront,
      Text.words_append hfront, hword, withoutPoints_concat, Text.words_of_no_blank hcut]

theorem feed_notMem_commentLines {doc : String} {line : List Char} (h : line ∈ commentLines doc) :
    '\n' ∉ line := by
  obtain ⟨written, hwritten, rfl⟩ := List.mem_map.1 h
  intro hfeed
  have hstars := (List.dropWhile_suffix _).subset (Text.mem_of_mem_trim hfeed)
  exact Text.feed_notMem_of_mem_lines hwritten (Text.mem_of_mem_trim hstars)

theorem summarizes_sentence (hlines : ∀ line ∈ paragraph, line ≠ [])
    (hends : ∀ line ∈ paragraph, ∀ c ∈ line.getLast?, Text.isBlank c = false)
    (hfeed : ∀ line ∈ paragraph, '\n' ∉ line) : Summarizes paragraph (sentence paragraph) := by
  have hlast : ∀ c ∈ ([' '].intercalate paragraph).getLast?, Text.isBlank c = false := by
    intro c hc
    rw [Text.getLast?_intercalate hlines, Option.mem_def, Option.bind_eq_some_iff] at hc
    obtain ⟨line, hline, hc⟩ := hc
    exact hends line (List.mem_of_getLast? hline) c hc
  have hwords : Text.words (sentence paragraph) =
      withoutPoints (paragraph.flatMap Text.words) := by
    rw [sentence, Text.words_trim, words_dropPoints hlast, Text.words_join]
  have hcharacters : ∀ c ∈ sentence paragraph, c = ' ' ∨ ∃ line ∈ paragraph, c ∈ line := by
    intro c hc
    have hmem := (Text.dropEndWhile_isPrefix _ _).subset (Text.mem_of_mem_trim hc)
    exact (Text.mem_of_mem_intercalate hmem).imp_left List.mem_singleton.1
  refine ⟨⟨fun hm => ?_, getLast?_sentence⟩, hwords, Text.startsBlank_trim _, ?_, hcharacters⟩
  · obtain ⟨line, hline, hm⟩ := (hcharacters '\n' hm).resolve_left (by decide)
    exact hfeed line hline hm
  · rw [Text.getLast?_eq_words getLast?_sentence, hwords, withoutPoints_last]

/-- **A comment** describes the method by its first paragraph, if that has a word other than
    points. -/
theorem summary?_paragraph {doc : String} (hp : IsParagraph (commentLines doc) paragraph) :
    withoutPoints (paragraph.flatMap Text.words) = [] ∧ summary? doc = none ∨
      withoutPoints (paragraph.flatMap Text.words) ≠ [] ∧
        ∃ text, summary? doc = some text ∧ Summarizes paragraph text.toList := by
  have hfirst := isParagraph_iff.1 hp
  have hmem : ∀ line ∈ paragraph, line ∈ commentLines doc ∧ IsProse line := fun line hline =>
    mem_firstParagraph (by rwa [hfirst])
  have hsummary : Summarizes paragraph (sentence paragraph) :=
    summarizes_sentence (fun line hline => (hmem line hline).2.1)
      (fun line hline => getLast?_commentLines (hmem line hline).1)
      fun line hline => feed_notMem_commentLines (hmem line hline).1
  rw [summary?_eq, hfirst, ← hsummary.words]
  by_cases hnil : sentence paragraph = []
  · exact .inl ⟨by rw [hnil]; rfl, if_pos hnil⟩
  · refine .inr ⟨fun hnone => hnil (Text.eq_nil_of_words_trim hnone), _, if_neg hnil, ?_⟩
    rwa [String.toList_ofList]

end

/-! ## Names -/

section
variable {c d : Char} {cs : List Char} {previous? last? : Option Char}

/-- No letter begins a word behind a low line. -/
theorem startsWord_lowLine (c : Char) : startsWord '_' c = false := by
  simp [startsWord, show Text.isLower '_' = false by decide, show '_'.isDigit = false by decide]

theorem startsBlank_upper (c : Char) (cs : List Char) :
    Text.startsBlank (Text.upper c ++ cs) = Text.isBlank c := by
  obtain ⟨d, ds, hupper⟩ := List.exists_cons_of_ne_nil (Text.upper_ne_nil c)
  have hstart : Text.startsBlank (Text.upper c ++ cs) = Text.isBlank d := by rw [hupper]; rfl
  rw [hstart, Bool.eq_iff_iff]
  constructor
  · intro hd
    have hmem : d ∈ Text.upper c := by simp [hupper]
    rwa [← Text.eq_of_mem_upper hmem (Text.isUncased_of_isBlank hd)]
  · intro hc
    rw [Text.upper_of_isUncased (Text.isUncased_of_isBlank hc)] at hupper
    rwa [← (List.cons.inj hupper).1]

/-- The blanks and points of a spelling are spaces, or stand in the name. -/
theorem mem_spellOut (hd : Text.isUncased d = true) (h : d ∈ spellOut previous? last? cs) :
    d = ' ' ∨ d ∈ cs := by
  fun_induction spellOut previous? last? cs with
  | case1 => cases h
  | case2 previous? last? cs hlast ih => exact (ih h).imp_right (List.mem_cons_of_mem _)
  | case3 previous? last? cs hlast ih =>
    rcases List.mem_cons.1 h with rfl | h
    · exact .inl rfl
    · exact (ih h).imp_right (List.mem_cons_of_mem _)
  | case4 previous? last? c cs hc gap letters ih =>
    rw [List.append_assoc, List.mem_append, List.mem_append] at h
    rcases h with hgap | hletters | h
    · left
      simp only [gap] at hgap
      split at hgap
      · exact List.mem_singleton.1 hgap
      · cases hgap
    · right
      have heq : d = c := by
        simp only [letters] at hletters
        split at hletters
        · exact Text.eq_of_mem_upper hletters hd
        · exact Text.eq_of_mem_lower hletters hd
      rw [heq]
      exact List.mem_cons_self
    · exact (ih h).imp_right (List.mem_cons_of_mem _)

/-- The spelling of a name starts as the name does behind its low lines. -/
theorem startsBlank_spellOut (hprevious : previous? = none ∨ previous? = some '_') :
    Text.startsBlank (spellOut previous? none cs) =
      Text.startsBlank (cs.dropWhile (· = '_')) := by
  induction cs generalizing previous? with
  | nil => rfl
  | cons c cs ih =>
    by_cases hc : c = '_'
    · subst hc
      rw [spellOut, if_pos rfl, if_pos (by simp), ih (.inr rfl),
        List.dropWhile_cons_of_pos (by simp)]
    · have hgap : previous?.any (startsWord · c) = false := by
        rcases hprevious with rfl | rfl
        · rfl
        · exact startsWord_lowLine c
      rw [spellOut, if_neg hc, List.dropWhile_cons_of_neg (by simpa using hc)]
      simp only [hgap, if_true, Bool.false_eq_true, if_false, List.nil_append,
        startsBlank_upper]
      rfl

end

/-- How a description goes back to the name of a method. -/
structure SpellsOut (name : String) (text : List Char) : Prop extends IsLine text where
  start : Text.startsBlank text = true ↔
    text ≠ [] ∧ Text.startsBlank (name.toList.dropWhile (· = '_')) = true
  point : '.' ∉ text
  blank : ∀ c ∈ text, Text.isBlank c = true → c = ' ' ∨ c ∈ name.toList

theorem spellsOut_humanize {name : String} (hname : name.toList.all Php.isNameChar = true) :
    SpellsOut name (humanize name).toList := by
  have hspelled : ∀ c ∈ (humanize name).toList, Text.isUncased c = true →
      c = ' ' ∨ c ∈ name.toList := fun c hc hu => by
    rw [humanize, String.toList_ofList] at hc
    exact mem_spellOut hu ((Text.dropEndWhile_isPrefix _ _).subset hc)
  have hnot : ∀ c, Text.isUncased c = true → c ≠ ' ' → Php.isNameChar c = false →
      c ∉ (humanize name).toList := fun c hu hspace hchar hc => by
    have hmem := (hspelled c hc hu).resolve_left hspace
    rw [List.all_eq_true.1 hname c hmem] at hchar
    cases hchar
  refine ⟨⟨hnot '\n' (by decide) (by decide) (by decide), fun c hc => ?_⟩, ?_,
    hnot '.' (by decide) (by decide) (by decide),
    fun c hc hblank => hspelled c hc (Text.isUncased_of_isBlank hblank)⟩
  · rw [humanize, String.toList_ofList] at hc
    exact Text.of_mem_getLast?_dropEndWhile hc
  · rw [humanize, String.toList_ofList, Text.startsBlank_trimEnd, startsBlank_spellOut (.inl rfl)]

/-! ## Descriptions -/

/-- What the description of a method is made of: the first paragraph of its comment, or its name
    if there is no word in a paragraph but points. -/
inductive Describes (m : Php.MethodDecl) (text : List Char) : Prop
  | comment {doc : String} {paragraph : List (List Char)} (hdoc : m.doc? = some doc)
      (hp : IsParagraph (commentLines doc) paragraph)
      (hwords : withoutPoints (paragraph.flatMap Text.words) ≠ [])
      (htext : Summarizes paragraph text)
  | name (hnone : ∀ doc ∈ m.doc?, ∀ paragraph, IsParagraph (commentLines doc) paragraph →
        withoutPoints (paragraph.flatMap Text.words) = [])
      (htext : SpellsOut m.name text)

theorem Describes.isLine {m : Php.MethodDecl} {text : List Char} (h : Describes m text) :
    IsLine text := by
  cases h with
  | comment _ _ _ htext => exact htext.toIsLine
  | name _ htext => exact htext.toIsLine

theorem describes_documentation {m : Php.MethodDecl}
    (hname : m.name.toList.all Php.isNameChar = true) :
    Describes m (documentation m).toList := by
  have hspelled := spellsOut_humanize hname
  cases hdoc : m.doc? with
  | none =>
    rw [documentation, hdoc, Option.bind_none, Option.getD_none]
    exact .name (fun doc hmem => by simp [hdoc] at hmem) hspelled
  | some doc =>
    have hparagraph := isParagraph_firstParagraph (commentLines doc)
    rcases summary?_paragraph hparagraph with ⟨hnone, hsummary⟩ | ⟨hwords, text, htext, hsummary⟩
    · rw [documentation, hdoc, Option.bind_some, hsummary, Option.getD_none]
      refine .name (fun doc' hmem paragraph hp => ?_) hspelled
      obtain rfl : doc = doc' := Option.some.inj (hdoc.symm.trans hmem)
      obtain rfl : firstParagraph (commentLines doc) = paragraph := isParagraph_iff.1 hp
      exact hnone
    · rw [documentation, hdoc, Option.bind_some, htext, Option.getD_some]
      exact .comment hdoc hparagraph hwords hsummary

/-- **Descriptions.** The description of a method of a source is one line without a blank at its
    end: the words of the first paragraph of its comment, in order and without the points behind
    them, or its name taken apart. It ends in a point only where the points behind the paragraph
    stand apart. -/
theorem documentation_line {source : String} {file : Php.ClassFile}
    (h : Php.ClassFile.ofSource source = .ok file) {c : Php.ClassDecl} (hc : c ∈ file.classes)
    {m : Php.MethodDecl} (hm : m ∈ c.methods) :
    IsLine (documentation m).toList ∧ Describes m (documentation m).toList := by
  obtain ⟨ts, hts, hfile⟩ := Php.ofSource_eq_ok h
  obtain ⟨⟨t, ht, hname⟩, -⟩ := Php.ofTokens_method hfile hc hm
  have hdescribes := describes_documentation (Php.tokenize_named hts t ht m.name hname)
  exact ⟨hdescribes.isLine, hdescribes⟩

def adsMethod : Php.MethodDecl where
  name := "getAds"
  body? := some []
  doc? := some "/** Gets the ads. . */"
  line := 1
  visibility := .publicMember
  isStatic := false

/-- The points behind this summary stand apart: one of them stays. -/
def adsSource : String :=
  "<?php class Ad \x7b /** Gets the ads. . */ public function getAds() \x7b\x7d \x7d"

theorem documentation_line_ads :
    Php.ClassFile.ofSource adsSource =
        .ok ⟨none, [⟨"Ad", false, none, [], [], [adsMethod], 1⟩]⟩ ∧
      documentation adsMethod = "Gets the ads." ∧
      Describes adsMethod (documentation adsMethod).toList := by
  have hread : Php.ClassFile.ofSource adsSource =
      .ok ⟨none, [⟨"Ad", false, none, [], [], [adsMethod], 1⟩]⟩ := by
    decide +kernel
  exact ⟨hread, by decide +kernel,
    (documentation_line hread List.mem_cons_self List.mem_cons_self).2⟩

end PhpSharp.Reflection
