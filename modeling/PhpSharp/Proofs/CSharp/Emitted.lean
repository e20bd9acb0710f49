/-
  The string literals in a generated source: one for each value of the class, and what C# makes of
  them.

  * `literalToken?` reads the literal that a text begins with;
  * `exists_spans`: the values of a class stand in its source as literals, one for each and in
    order, and nothing else of the source depends on them;
  * `literals_legal`: a literal ends at its own quote, and is one token whose value is the value of
    the class, unless that holds one of the two separators that end a line.
-/
import PhpSharp.Proofs.CSharp.Object

namespace PhpSharp.Sdk

/-- The constants with other values. -/
def Constants.mapValues (f : String → String) (c : Constants) : Constants where
  entries := c.entries.map fun (name, value) => (name, f value)
  nodup := by simpa [List.map_map, Function.comp_def] using c.nodup

/-- The values that are written as literals: the endpoint and the edges of an object, or the values
    of the constants. -/
def Facts.texts : Facts → List String
  | .object endpoint? connections => endpoint?.toList ++ connections.filterMap (·.endpoint?)
  | .enumeration constants => constants.entries.map Prod.snd

/-- The facts with other values. -/
def Facts.mapTexts (f : String → String) : Facts → Facts
  | .object endpoint? connections => .object (endpoint?.map f)
      (connections.map fun c => { c with endpoint? := c.endpoint?.map f })
  | .enumeration constants => .enumeration (constants.mapValues f)

end PhpSharp.Sdk

namespace PhpSharp.CSharp

open Sdk (Connection Constants Descriptor Facts)

/-! ## Tokens -/

/-- What stands before the first quote that is not escaped, and what stands behind it. -/
def splitLiteral : List Char → Option (List Char × List Char)
  | [] => none
  | '"' :: cs => some ([], cs)
  | '\\' :: c :: cs => (splitLiteral cs).map fun (body, behind) => ('\\' :: c :: body, behind)
  | c :: cs => (splitLiteral cs).map fun (body, behind) => (c :: body, behind)

/-- The value of the string literal that a text begins with, and what is behind the literal. -/
def literalToken? : List Char → Option (List Char × List Char)
  | '"' :: cs => (splitLiteral cs).bind fun (body, behind) =>
    (readLiteral body).map fun value => (value, behind)
  | _ => none

theorem splitLiteral_plain {c : Char} (hb : c ≠ '\\') (hq : c ≠ '"') (cs : List Char) :
    splitLiteral (c :: cs) = (splitLiteral cs).map fun (body, behind) => (c :: body, behind) := by
  rw [splitLiteral]
  · exact hq
  · rintro _ _ rfl
    exact absurd rfl hb

theorem splitLiteral_append {body cs : List Char} (h : ∀ d ∈ body, d ≠ '\\' ∧ d ≠ '"') :
    splitLiteral (body ++ cs) =
      (splitLiteral cs).map fun (tail, behind) => (body ++ tail, behind) := by
  induction body with
  | nil => simp
  | cons d body ih =>
    obtain ⟨⟨hb, hq⟩, hbody⟩ := List.forall_mem_cons.1 h
    rw [List.cons_append, splitLiteral_plain hb hq, ih hbody, Option.map_map]
    rfl

/-- **An escaped text ends at the quote behind it.** -/
theorem splitLiteral_escape (cs behind : List Char) :
    splitLiteral (cs.flatMap escapeChar ++ '"' :: behind) =
      some (cs.flatMap escapeChar, behind) := by
  induction cs with
  | nil => rfl
  | cons c cs ih =>
    rw [List.flatMap_cons, List.append_assoc]
    have hescaped := escaped_escapeChar c
    generalize escapeChar c = written at hescaped ⊢
    cases hescaped with
    | plain hb hq _ => rw [List.singleton_append, splitLiteral_plain hb hq, ih]; rfl
    | escape _ _ hrest =>
      -- what stands behind the backslash is passed over, a quote too
      rw [List.cons_append, List.cons_append, splitLiteral, splitLiteral_append hrest, ih]
      rfl

theorem literalToken_escape (cs behind : List Char) :
    literalToken? ('"' :: (cs.flatMap escapeChar ++ '"' :: behind)) =
      if cs.any isSeparator then none else some (cs, behind) := by
  simp only [literalToken?, splitLiteral_escape, Option.bind_some, readLiteral_escape]
  split_ifs <;> rfl

/-- A quote behind a backslash does not end the literal. -/
example : literalToken? "\"a\\\"b\";".toList = some ("a\"b".toList, [';']) := by decide

/-- Without its separators, an escaped text is the escape of the text without them. -/
theorem filter_escape (cs : List Char) :
    (cs.flatMap escapeChar).filter (!isSeparator ·) =
      (cs.filter (!isSeparator ·)).flatMap escapeChar := by
  have hseparator : ∀ {d : Char}, isNewLine d = false → isSeparator d = false := by
    intro d hd
    rw [← Bool.not_eq_true] at hd ⊢
    intro hs
    rcases isSeparator_iff.1 hs with rfl | rfl
    all_goals exact hd rfl
  induction cs with
  | nil => rfl
  | cons c cs ih =>
    rw [List.flatMap_cons, List.filter_append, ih, List.filter_cons]
    have hescaped := escaped_escapeChar c
    cases hs : isSeparator c with
    | true =>
      generalize escapeChar c = written at hescaped ⊢
      cases hescaped with
      | plain _ _ _ => simp [hs]
      | escape hno _ _ => exact absurd (hs.symm.trans hno) (by decide)
    | false =>
      have hall : (escapeChar c).filter (!isSeparator ·) = escapeChar c := by
        generalize escapeChar c = written at hescaped ⊢
        rw [List.filter_eq_self]
        cases hescaped with
        | plain _ _ _ => simp [hs]
        | @escape e rest _ hline _ =>
          refine List.forall_mem_cons.2 ⟨rfl, fun d hd => ?_⟩
          simp [hseparator (hline d hd)]
      rw [hall]
      rfl

/-! ## Sources as spans -/

/-- A part of a source. -/
inductive Span
  /-- Text as it is -/
  | plain (text : String)
  /-- A value, written as a literal -/
  | literal (value : String)

namespace Span

/-- How a span is written. -/
def text : Span → String
  | .plain text => text
  | .literal value => "\"" ++ escape value ++ "\""

/-- The value of a literal. -/
def value? : Span → Option String
  | .plain _ => none
  | .literal value => some value

/-- The span with another value, if it is a literal. -/
def map (f : String → String) : Span → Span
  | .plain text => .plain text
  | .literal value => .literal (f value)

/-- How spans are written, one behind the other. -/
def join (spans : List Span) : String := String.join (spans.map text)

theorem join_plain (text : String) : join [.plain text] = text := by
  simp only [join, Span.text, List.map_cons, List.map_nil, String.join_cons, String.join_nil,
    String.append_empty]

theorem join_append (ss ts : List Span) : join (ss ++ ts) = join ss ++ join ts := by
  rw [join, List.map_append, String.join_append]
  rfl

theorem join_flatMap {α : Type} (f : α → List Span) (as : List α) :
    join (as.flatMap f) = String.join (as.map fun a => join (f a)) := by
  induction as with
  | nil => rfl
  | cons a as ih => rw [List.flatMap_cons, join_append, ih, List.map_cons, String.join_cons]

end Span

/-- The parts of the line of a constant. -/
def constantSpans (entry : String × String) : List Span :=
  [.plain ("        public const string " ++ entry.1 ++ " = "), .literal entry.2,
    .plain (";" ++ "\n")]

theorem join_literal (before value behind : String) :
    Span.join [.plain before, .literal value, .plain behind] =
      before ++ ("\"" ++ (escape value ++ ("\"" ++ behind))) := by
  simp only [Span.join, Span.text, List.map_cons, List.map_nil, String.join_cons, String.join_nil,
    String.append_empty, String.append_assoc]

theorem join_constantSpans (entry : String × String) :
    Span.join (constantSpans entry) = constantText entry := by
  -- the quotes of the line are those of the literal
  have hopen : " = \"" = " = " ++ "\"" := rfl
  have hclose : "\";" = "\"" ++ ";" := rfl
  unfold constantSpans constantText constantLine
  simp only [join_literal, hopen, hclose, String.append_assoc]

/-- The parts of the block of a connection. -/
def connectionSpans (c : Connection) : List Span :=
  match c.endpoint? with
  | none => []
  | some edge =>
    [.plain (terminated (commentLines c) ++
        ("        public object " ++ c.name ++
          "(string[] fields = null, Dictionary<string, object> parameters = null)" ++ "\n") ++
        "        \x7b\n" ++ ("            return " ++ fetchCall c.kind ++ "(")),
      .literal edge, .plain (", fields, parameters);" ++ "\n" ++ "        \x7d\n")]

theorem join_connectionSpans (connections : List Connection) :
    Span.join (connections.flatMap connectionSpans) =
      String.join (connections.filterMap connectionText?) := by
  have hopen : "(\"" = "(" ++ "\"" := rfl
  have hclose : "\", fields, parameters);" = "\"" ++ ", fields, parameters);" := rfl
  induction connections with
  | nil => rfl
  | cons c cs ih =>
    rw [List.flatMap_cons, Span.join_append, ih, List.filterMap_cons]
    unfold connectionSpans connectionText?
    cases c.endpoint? with
    | none => exact String.empty_append
    | some edge =>
      simp only [Option.map_some, String.join_cons, join_literal, terminated_methodLines, hopen,
        hclose, String.append_assoc]

/-- The parts of the source of an object. -/
def objectSpans (p : Profile) (d : Descriptor) (date : Text.Timestamp) (endpoint : String)
    (connections : List Connection) : List Span :=
  [.plain (terminated (linesAboveEndpoint p d date) ++ "            return "), .literal endpoint,
    .plain (";" ++ "\n" ++ "        \x7d\n")] ++
  connections.flatMap connectionSpans ++ [.plain "    \x7d\n\x7d"]

theorem render_objectSpans (p : Profile) (d : Descriptor) (date : Text.Timestamp)
    (endpoint : String) (connections : List Connection) :
    render p { d with
        kind := .object
        facts? := some (.object (some endpoint) connections) } date =
      .ok (Span.join (objectSpans p d date endpoint connections)) := by
  have hopen : "            return \"" = "            return " ++ "\"" := rfl
  have hclose : "\";" = "\"" ++ ";" := rfl
  rw [render_object]
  unfold objectSpans endpointLine
  simp only [Span.join_append, join_literal, join_connectionSpans, Span.join_plain, hopen, hclose,
    String.append_assoc]

/-- The parts of the source of an enumeration. -/
def enumerationSpans (p : Profile) (d : Descriptor) (date : Text.Timestamp)
    (constants : Constants) : List Span :=
  [.plain (terminated (openingLines p d date))] ++ constants.entries.flatMap constantSpans ++
    [.plain "    \x7d\n\x7d"]

theorem render_enumerationSpans (p : Profile) {d : Descriptor} (date : Text.Timestamp)
    (hk : d.kind.isEnumeration = true) (constants : Constants) :
    render p { d with facts? := some (.enumeration constants) } date =
      .ok (Span.join (enumerationSpans p d date constants)) := by
  have hconstants : (fun entry => Span.join (constantSpans entry)) = constantText :=
    funext join_constantSpans
  rw [render_enumeration p date hk]
  unfold enumerationSpans
  simp only [Span.join_append, Span.join_plain, Span.join_flatMap, hconstants]

/-! ## The values of a source -/

/-- The parts of the source of a class. -/
def sourceSpans (p : Profile) (d : Descriptor) (date : Text.Timestamp) (facts : Facts) :
    Except Fault (List Span) :=
  match d.kind, facts with
  | .object, .object none _ => .error .noEndpoint
  | .object, .object (some endpoint) connections => .ok (objectSpans p d date endpoint connections)
  | .fields, .enumeration constants | .values, .enumeration constants =>
    .ok (enumerationSpans p d date constants)
  | kind, _ => .error (.otherFacts kind)

theorem render_eq_sourceSpans (p : Profile) (d : Descriptor) (date : Text.Timestamp)
    (facts : Facts) :
    render p { d with facts? := some facts } date =
      (sourceSpans p d date facts).map Span.join := by
  obtain ⟨kind, shortName, nameSpace, qualifiedName, sourceFile, facts?⟩ := d
  cases facts with
  | object endpoint? connections =>
    cases kind with
    | object =>
      cases endpoint? with
      | none => rfl
      | some endpoint =>
        exact render_objectSpans p
          ⟨.object, shortName, nameSpace, qualifiedName, sourceFile, facts?⟩ date endpoint
          connections
    | fields | values => rfl
  | enumeration constants =>
    cases kind with
    | object => rfl
    | fields | values => exact render_enumerationSpans p date rfl constants

theorem values_constantSpans (entry : String × String) :
    (constantSpans entry).filterMap Span.value? = [entry.2] := rfl

theorem values_connectionSpans (c : Connection) :
    (connectionSpans c).filterMap Span.value? = c.endpoint?.toList := by
  unfold connectionSpans
  cases c.endpoint? <;> rfl

/-- **The literals of a source are the values of its class**, in order. -/
theorem values_of_sourceSpans {p : Profile} {d : Descriptor} {date : Text.Timestamp}
    {facts : Facts} {spans : List Span} (h : sourceSpans p d date facts = .ok spans) :
    spans.filterMap Span.value? = facts.texts := by
  have hobject : ∀ endpoint connections,
      (objectSpans p d date endpoint connections).filterMap Span.value? =
        endpoint :: connections.filterMap (·.endpoint?) := by
    intro endpoint connections
    simp only [objectSpans, List.filterMap_append, List.filterMap_flatMap, values_connectionSpans,
      ← List.filterMap_eq_flatMap_toList]
    exact congrArg (endpoint :: ·) (List.append_nil _)
  have henumeration : ∀ constants : Constants,
      (enumerationSpans p d date constants).filterMap Span.value? =
        constants.entries.map Prod.snd := by
    intro constants
    simp only [enumerationSpans, List.filterMap_append, List.filterMap_flatMap,
      values_constantSpans, ← List.map_eq_flatMap]
    exact List.append_nil _
  unfold sourceSpans at h
  split at h
  · cases h
  · cases h
    exact hobject _ _
  · cases h
    exact henumeration _
  · cases h
    exact henumeration _
  · cases h

theorem connectionSpans_map (f : String → String) (c : Connection) :
    connectionSpans { c with endpoint? := c.endpoint?.map f } =
      (connectionSpans c).map (Span.map f) := by
  obtain ⟨name, endpoint?, documentation, kind⟩ := c
  cases endpoint? <;> rfl

/-- **Nothing else of a source depends on the values.** -/
theorem sourceSpans_mapTexts (p : Profile) (d : Descriptor) (date : Text.Timestamp)
    (facts : Facts) (f : String → String) :
    sourceSpans p d date (facts.mapTexts f) =
      (sourceSpans p d date facts).map (List.map (Span.map f)) := by
  have henumeration : ∀ constants : Constants,
      enumerationSpans p d date (constants.mapValues f) =
        (enumerationSpans p d date constants).map (Span.map f) := by
    intro constants
    simp only [enumerationSpans, Constants.mapValues, List.map_append, List.map_flatMap,
      List.flatMap_map]
    rfl
  cases facts with
  | object endpoint? connections =>
    cases hk : d.kind with
    | object =>
      cases endpoint? with
      | none => simp only [sourceSpans, hk, Facts.mapTexts]; rfl
      | some endpoint =>
        simp only [sourceSpans, hk, Facts.mapTexts, Option.map_some, objectSpans, Except.map,
          List.map_append, List.map_flatMap, List.flatMap_map, connectionSpans_map]
        rfl
    | fields | values => simp only [sourceSpans, hk, Facts.mapTexts]; rfl
  | enumeration constants =>
    cases hk : d.kind with
    | object => simp only [sourceSpans, hk, Facts.mapTexts]; rfl
    | fields | values => simp only [sourceSpans, hk, Facts.mapTexts, henumeration]; rfl

/-- The source of a class, whatever its values are: either it has none, or the values stand in it
    as literals among parts that do not depend on them. -/
theorem exists_spans (p : Profile) (d : Descriptor) (date : Text.Timestamp) (facts : Facts) :
    (∃ fault, ∀ f : String → String,
      render p { d with facts? := some (facts.mapTexts f) } date = .error fault) ∨
    ∃ spans : List Span, spans.filterMap Span.value? = facts.texts ∧
      render p { d with facts? := some facts } date = .ok (Span.join spans) ∧
      ∀ f : String → String, render p { d with facts? := some (facts.mapTexts f) } date =
        .ok (Span.join (spans.map (Span.map f))) := by
  cases hspans : sourceSpans p d date facts with
  | error fault =>
    refine .inl ⟨fault, fun f => ?_⟩
    rw [render_eq_sourceSpans, sourceSpans_mapTexts, hspans]
    rfl
  | ok spans =>
    refine .inr ⟨spans, values_of_sourceSpans hspans, ?_, fun f => ?_⟩
    · rw [render_eq_sourceSpans, hspans]
      rfl
    · rw [render_eq_sourceSpans, sourceSpans_mapTexts, hspans]
      rfl

/-- **Literals are legal.** The source of a class has one literal for each of its values, in order,
    and the rest of it depends on none of them. A literal ends at the quote behind the escaped
    value, and not before. The characters in it that end a line are the line and paragraph
    separators of the value: without any, the literal is one token whose value is the value; with
    one, it is none; and all else in it is read back as what it stands for. -/
theorem literals_legal (p : Profile) (d : Descriptor) (date : Text.Timestamp) (facts : Facts) :
    ((∃ fault, ∀ f : String → String,
        render p { d with facts? := some (facts.mapTexts f) } date = .error fault) ∨
      ∃ spans : List Span, spans.filterMap Span.value? = facts.texts ∧
        render p { d with facts? := some facts } date = .ok (Span.join spans) ∧
        ∀ f : String → String, render p { d with facts? := some (facts.mapTexts f) } date =
          .ok (Span.join (spans.map (Span.map f)))) ∧
    ∀ (value : String) (behind : List Char),
      let body := (escape value).toList
      splitLiteral (body ++ '"' :: behind) = some (body, behind) ∧
      body.filter isNewLine = value.toList.filter isSeparator ∧
      literalToken? ('"' :: (body ++ '"' :: behind)) =
        (if value.toList.any isSeparator then none else some (value.toList, behind)) ∧
      readLiteral (body.filter (!isSeparator ·)) =
        some (value.toList.filter (!isSeparator ·)) := by
  refine ⟨exists_spans p d date facts, fun value behind => ?_⟩
  have hbody : (escape value).toList = value.toList.flatMap escapeChar := String.toList_ofList
  have hnone : (value.toList.filter (!isSeparator ·)).any isSeparator = false := by
    rw [List.any_eq_false]
    intro c hc
    simpa using (List.mem_filter.1 hc).2
  simp only [hbody]
  refine ⟨splitLiteral_escape _ _, filter_isNewLine_escape _, literalToken_escape _ _, ?_⟩
  rw [filter_escape, readLiteral_escape, hnone]
  rfl

end PhpSharp.CSharp
