/-
  Literals whose text only a running program knows, and what reflection makes of them.

  * `RuntimeLiteral`: double-quoted literals and heredocs with variables in them, and commands;
  * `AsText`: a source, and the one with the constant of a literal's text in its place;
  * `Scope.evaluate_holds`: an expression has the text of every literal in its value, and so, by
    `Scope.dollar_mem_evaluate`, the dollar sign of the variable;
  * `reflect_asText`: reflection does not tell the two sources apart. A variable in a literal is
    never looked for: the literal is the constant of its text as written, wherever it stands.
-/
import Mathlib.Logic.Relation
import PhpSharp.Proofs.Php.Locality
import PhpSharp.Proofs.Reflection.Connections

namespace PhpSharp.Php

open Lexeme

/-! ## Literals -/

/-- Whether a text in double quotes has a variable in it: an unescaped `$name` or `${`, or `{$`. -/
def interpolates : List Char → Bool
  | [] => false
  | '\\' :: _ :: cs => interpolates cs
  | '{' :: '$' :: _ => true
  | '$' :: c :: cs => isNameStart c && c != '\\' || c == '{' || interpolates (c :: cs)
  | _ :: cs => interpolates cs

/-- The string literals whose value only a running program knows. -/
inductive RuntimeLiteral
  /-- `"…$name…"`; the first quote that no backslash stands before closes it. -/
  | quoted (body : List Char) (closes : splitQuoted '"' (body ++ ['"']) = some (body, []))
      (runtime : interpolates body = true)
  /-- A heredoc with variables in its text; the label is not in single quotes. -/
  | heredoc (h : Written.Heredoc) (decodes : h.quote? ≠ some .single)
      (runtime : interpolates h.content = true)
  /-- A command in backticks -/
  | command (body : List Char) (closes : splitRaw '\x60' (body ++ ['\x60']) = some (body, []))

/-- A character of another class stands behind a run. -/
theorem mem_drop_takeUpTo {p : Char → Bool} {c : Char} (hp : p c = false) (n : Nat)
    {cs : List Char} (h : c ∈ cs) : c ∈ cs.drop (takeUpTo n p cs).length := by
  have hbegin : takeUpTo n p cs <+: cs :=
    (List.takeWhile_prefix p).trans (List.take_prefix n cs)
  have hall : ∀ d ∈ takeUpTo n p cs, p d = true := fun d hd => List.mem_takeWhile_imp hd
  generalize takeUpTo n p cs = run at hbegin hall ⊢
  obtain ⟨rest, rfl⟩ := hbegin
  rw [List.drop_left]
  rcases List.mem_append.1 h with h | h
  · cases hp.symm.trans (hall c h)
  · exact h

/-- A dollar sign that no brace closes over stands behind the brace. -/
theorem dollar_mem_drop_brace {cs : List Char} (h : '$' ∈ cs)
    (hd : '$' ∉ cs.takeWhile (· ≠ '}')) :
    '$' ∈ cs.drop ((cs.takeWhile (· ≠ '}')).length + 1) := by
  induction cs with
  | nil => cases h
  | cons c cs ih =>
    by_cases hc : c = '}'
    · subst hc
      simpa using h
    · have htake : (c :: cs).takeWhile (· ≠ '}') = c :: cs.takeWhile (· ≠ '}') :=
        List.takeWhile_cons_of_pos (by simpa using hc)
      rw [htake] at hd ⊢
      obtain ⟨hne, hd⟩ := not_or.1 (mt List.mem_cons.2 hd)
      exact ih (List.mem_of_ne_of_mem hne h) hd

theorem scalarOf_dollar {digits : List Char} (h : '$' ∈ digits) : scalarOf digits = none := by
  have hdigits : ∀ ds : List Char, '$' ∈ ds → (ds = [] || !ds.all isHexDigit) = true := by
    intro ds hm
    have hall : ¬ds.all isHexDigit = true := fun hall =>
      absurd (List.all_eq_true.1 hall _ hm) (by decide)
    simp [hall]
  unfold scalarOf
  dsimp only
  refine if_pos (hdigits _ ?_)
  split
  · cases digits with
    | nil => cases h
    | cons c digits =>
      rcases List.mem_cons.1 h with rfl | h
      · simp at *
      · exact h
  · exact h

/-- Decoding keeps the dollar signs. -/
theorem dollar_mem_decodeEscapes {quote : Char} {cs : List Char} (h : '$' ∈ cs) :
    '$' ∈ decodeEscapes quote cs := by
  have hslash : ∀ {c : Char} {cs : List Char}, ¬c ≠ '\\' → '$' ∈ c :: cs → '$' ∈ cs := by
    intro c cs hc hm
    rcases List.mem_cons.1 hm with rfl | hm
    · simp at hc
    · exact hm
  fun_induction decodeEscapes quote cs with
  | case1 => cases h
  | case2 _ _ _ ih =>
    rcases List.mem_cons.1 h with rfl | h
    · exact List.mem_cons_self
    · exact List.mem_cons_of_mem _ (ih h)
  | case3 _ hc => cases hslash hc h
  | case4 _ hc d _ e he ih =>
    rcases List.mem_cons.1 (hslash hc h) with rfl | h
    · cases he
      exact List.mem_cons_self
    · exact List.mem_cons_of_mem _ (ih h)
  | case5 _ hc ds _ _ _ ih =>
    have hm := List.mem_of_ne_of_mem (by decide) (hslash hc h)
    exact List.mem_append_right _ (ih (mem_drop_takeUpTo rfl 2 hm))
  | case6 _ hc es digits decoded _ _ ih =>
    have hm := List.mem_of_ne_of_mem (by decide) (hslash hc h)
    have hm := List.mem_of_ne_of_mem (by decide) hm
    by_cases hd : '$' ∈ digits
    · refine List.mem_append_left _ ?_
      have hdecoded : decoded = '\\' :: 'u' :: '{' :: digits ++ ['}'] := by
        simp only [decoded, scalarOf_dollar hd]
      rw [hdecoded]
      simp [hd]
    · exact List.mem_append_right _ (ih (dollar_mem_drop_brace hm hd))
  | case7 _ hc _ _ _ _ ih =>
    have hm := List.mem_of_ne_of_mem (by decide) (hslash hc h)
    exact List.mem_cons_of_mem _ (List.mem_cons_of_mem _ (ih hm))
  | case8 _ hc _ _ _ _ _ _ _ _ _ ih =>
    exact List.mem_append_right _ (ih (mem_drop_takeUpTo rfl 3 (hslash hc h)))
  | case9 _ hc _ _ _ _ _ _ ih =>
    rcases List.mem_cons.1 (hslash hc h) with rfl | h
    · simp
    · exact List.mem_cons_of_mem _ (List.mem_cons_of_mem _ (ih h))

theorem dollar_mem_of_interpolates {cs : List Char} (h : interpolates cs = true) : '$' ∈ cs := by
  fun_induction interpolates cs with
  | case1 => cases h
  | case2 _ _ ih => simp [ih h]
  | case3 => simp
  | case4 => simp
  | case5 _ _ _ _ _ ih => exact List.mem_cons_of_mem _ (ih h)

namespace RuntimeLiteral

/-- The literal in the source. -/
def text : RuntimeLiteral → List Char
  | quoted body .. => '"' :: body ++ ['"']
  | heredoc h .. => '<' :: '<' :: '<' :: h.text
  | command body .. => '\x60' :: body ++ ['\x60']

/-- The text of the literal with its variables as written. -/
def value : RuntimeLiteral → List Char
  | quoted body .. => decodeEscapes '"' body
  | heredoc h .. => h.value
  | command body .. => body

/-- The dollar sign of a variable is still in the text. -/
theorem dollar_mem_value (lit : RuntimeLiteral) (h : ∀ body closes, lit ≠ command body closes) :
    '$' ∈ lit.value := by
  cases lit with
  | quoted body closes runtime =>
    exact dollar_mem_decodeEscapes (dollar_mem_of_interpolates runtime)
  | heredoc d decodes runtime =>
    rw [value, Written.Heredoc.value, if_neg decodes]
    exact dollar_mem_decodeEscapes (dollar_mem_of_interpolates runtime)
  | command body closes => exact absurd rfl (h body closes)

/-- Whether the literal ends in front of a text. -/
def EndsBefore : RuntimeLiteral → List Char → Prop
  | heredoc .., after => after.head?.any isLabelChar = false
  | _, _ => True

/-- **A runtime literal is read as its text**, like any other literal. -/
theorem heads (lit : RuntimeLiteral) {after : List Char} (h : lit.EndsBefore after) :
    Heads ⟨lit.text, some (.string (String.ofList lit.value))⟩ after := by
  cases lit with
  | quoted body closes runtime =>
    have hsplit := splitQuoted_extend closes after
    refine ⟨'"', body ++ ['"'], rfl, ?_⟩
    show Lexeme.quoted '"' (splitQuoted '"') (decodeEscapes '"') _ = _
    rw [List.append_assoc, List.singleton_append, Lexeme.quoted, hsplit]
    rfl
  | heredoc d decodes runtime =>
    refine ⟨'<', '<' :: '<' :: d.text, rfl, ?_⟩
    show afterLess ('<' :: '<' :: (d.text ++ after)) = _
    simp only [afterLess, d.readHeredoc_text h]
    simp [text, value]
  | command body closes =>
    have hsplit := splitRaw_extend closes after
    refine ⟨'\x60', body ++ ['\x60'], rfl, ?_⟩
    show Lexeme.quoted '\x60' (splitRaw '\x60') id _ = _
    rw [List.append_assoc, List.singleton_append, Lexeme.quoted, hsplit]
    rfl

theorem opens (lit : RuntimeLiteral) : ∃ c cs, lit.text = c :: cs ∧ opensString c = true := by
  cases lit with
  | quoted body => exact ⟨'"', body ++ ['"'], rfl, rfl⟩
  | heredoc h => exact ⟨'<', '<' :: '<' :: h.text, rfl, rfl⟩
  | command body => exact ⟨'\x60', body ++ ['\x60'], rfl, rfl⟩

end RuntimeLiteral

/-! ## Constants -/

/-- A character between the quotes of a constant. -/
def escaped (c : Char) : List Char :=
  if c = '\n' then ['\\', 'n'] else if c = '\\' ∨ c = '"' ∨ c = '$' then ['\\', c] else [c]

/-- The body of a constant in double quotes. -/
def constantBody (value : List Char) : List Char := value.flatMap escaped

theorem constantBody_cons (c : Char) (value : List Char) :
    constantBody (c :: value) = escaped c ++ constantBody value := rfl

/-- What is escaped is decoded, and what is not needs no escape. -/
theorem escaped_cases (c : Char) :
    (∃ letter, escaped c = ['\\', letter] ∧ simpleEscape? '"' letter = some c ∧ letter ≠ '\n') ∨
      escaped c = [c] ∧ c ≠ '\n' ∧ c ≠ '\\' ∧ c ≠ '"' ∧ c ≠ '$' := by
  by_cases hfeed : c = '\n'
  · exact .inl ⟨'n', if_pos hfeed, hfeed ▸ rfl, by decide⟩
  by_cases hc : c = '\\' ∨ c = '"' ∨ c = '$'
  · refine .inl ⟨c, (if_neg hfeed).trans (if_pos hc), ?_, hfeed⟩
    rcases hc with rfl | rfl | rfl <;> rfl
  · simp only [not_or] at hc
    exact .inr ⟨(if_neg hfeed).trans (if_neg (by simp [hc])), hfeed, hc⟩

theorem splitQuoted_constantBody (value rest : List Char) :
    splitQuoted '"' (constantBody value ++ '"' :: rest) = some (constantBody value, rest) := by
  induction value with
  | nil =>
    rw [splitQuoted.eq_def]
    exact if_pos rfl
  | cons c value ih =>
    rw [constantBody_cons]
    rcases escaped_cases c with ⟨letter, he, -⟩ | ⟨he, -, hslash, hquote, -⟩
    · simp [he, splitQuoted, ih]
    · rw [he, List.append_assoc, List.singleton_append, splitQuoted.eq_def]
      simp [hslash, hquote, ih]

theorem decodeEscapes_constantBody (value : List Char) :
    decodeEscapes '"' (constantBody value) = value := by
  induction value with
  | nil => simp [constantBody, decodeEscapes]
  | cons c value ih =>
    rw [constantBody_cons]
    rcases escaped_cases c with ⟨letter, he, hletter, -⟩ | ⟨he, -, hslash, -⟩
    · rw [he]
      exact (decodeEscapes_simple hletter _).trans (congrArg _ ih)
    · rw [he]
      exact (decodeEscapes_plain hslash _).trans (congrArg _ ih)

theorem lineFeeds_constantBody (value : List Char) : lineFeeds (constantBody value) = 0 := by
  induction value with
  | nil => rfl
  | cons c value ih =>
    rw [constantBody_cons, lineFeeds_append, ih]
    rcases escaped_cases c with ⟨letter, he, -, hletter⟩ | ⟨he, hfeed, -⟩
    · simp [he, lineFeeds, hletter]
    · simp [he, lineFeeds, hfeed]

theorem interpolates_plain {c : Char} {cs : List Char} (hslash : c ≠ '\\') (hdollar : c ≠ '$')
    (hcs : cs.head? ≠ some '$') : interpolates (c :: cs) = interpolates cs := by
  rw [interpolates.eq_def]
  split <;> simp_all

/-- A constant has no variables in it. -/
theorem interpolates_constantBody (value : List Char) :
    interpolates (constantBody value) = false := by
  induction value with
  | nil => rfl
  | cons c value ih =>
    have hhead : (constantBody value).head? ≠ some '$' := by
      cases value with
      | nil => simp [constantBody]
      | cons d value =>
        rw [constantBody_cons]
        rcases escaped_cases d with ⟨letter, he, -⟩ | ⟨he, -, -, -, hdollar⟩
        · simp [he]
        · simp [he, hdollar]
    rw [constantBody_cons]
    rcases escaped_cases c with ⟨letter, he, -⟩ | ⟨he, -, hslash, -, hdollar⟩
    · rw [he, List.cons_append, List.singleton_append, interpolates, ih]
    · rw [he, List.singleton_append, interpolates_plain hslash hdollar hhead, ih]

theorem heads_constant (value rest : List Char) :
    Heads ⟨'"' :: constantBody value ++ ['"'], some (.string (String.ofList value))⟩ rest := by
  refine ⟨'"', constantBody value ++ ['"'], rfl, ?_⟩
  have h : next '"' (constantBody value ++ '"' :: rest) = .ok (⟨'"' :: constantBody value ++ ['"'],
      some (.string (String.ofList (decodeEscapes '"' (constantBody value))))⟩, rest) := by
    show quoted '"' (splitQuoted '"') (decodeEscapes '"') _ = _
    rw [quoted, splitQuoted_constantBody]
  rw [decodeEscapes_constantBody] at h
  rwa [List.append_assoc]

/-- The constant of a literal's text, with as many line feeds behind it as the literal has. -/
def RuntimeLiteral.constant (lit : RuntimeLiteral) : List Char :=
  '"' :: constantBody lit.value ++ ['"'] ++ List.replicate (lineFeeds lit.text) '\n'

/-! ## Sources -/

theorem tokensFrom_feeds (n line : Nat) (done : List Token) (rest : List Char) :
    tokensFrom line done (List.replicate n '\n' ++ rest) = tokensFrom (line + n) done rest := by
  induction n generalizing line with
  | zero => rfl
  | succ n ih =>
    rw [List.replicate_succ, List.cons_append, tokensFrom_blank rfl, ih, Nat.add_assoc,
      Nat.add_comm n]
    rfl

/-- From the literal on, and from the constant on, the same tokens are read. -/
theorem RuntimeLiteral.tokensFrom_constant (lit : RuntimeLiteral) {after : List Char}
    (h : lit.EndsBefore after) (line : Nat) (done : List Token) :
    tokensFrom line done (lit.text ++ after) = tokensFrom line done (lit.constant ++ after) := by
  have hconstant : lineFeeds ('"' :: constantBody lit.value ++ ['"']) = 0 := by
    simpa [lineFeeds] using lineFeeds_constantBody lit.value
  rw [tokensFrom_heads (lit.heads h), constant, List.append_assoc,
    tokensFrom_heads (heads_constant lit.value _), hconstant, Nat.add_zero, tokensFrom_feeds]

/-- The second source has the constant of its text in place of a runtime literal that the lexer
    arrives at in the first one. -/
inductive AsText : String → String → Prop
  | literal {before after} (lit : RuntimeLiteral) (ends : lit.EndsBefore after)
      (arrives : Arrives before (lit.text ++ after)) :
      AsText (String.ofList (before ++ (lit.text ++ after)))
        (String.ofList (before ++ (lit.constant ++ after)))

theorem tokenize_asText {source source' : String} (h : AsText source source') :
    tokenize source = tokenize source' := by
  obtain ⟨lit, ends, arrives⟩ := h
  obtain ⟨c, cs, htext, hc⟩ := lit.opens
  refine tokenize_arrives arrives ?_ fun line done => lit.tokensFrom_constant ends line done
  rw [htext]
  exact .opens hc

theorem ofSource_asText {source source' : String}
    (h : Relation.ReflTransGen AsText source source') :
    ClassFile.ofSource source = ClassFile.ofSource source' := by
  induction h with
  | refl => rfl
  | tail _ hstep ih =>
    rw [ih]
    unfold ClassFile.ofSource
    rw [tokenize_asText hstep]

/-! ## Expressions -/

/-- Every string among the tokens is part of the value. -/
def Holds (value : String) (ts : List Token) : Prop :=
  ∀ t ∈ ts, ∀ text, t.kind = .string text → text.toList <:+: value.toList

theorem Holds.cons {value : String} {t : Token} {ts : List Token} (h : Holds value ts)
    (ht : ∀ text, t.kind = .string text → text.toList <:+: value.toList) :
    Holds value (t :: ts) :=
  List.forall_mem_cons.2 ⟨ht, h⟩

theorem Holds.punctuation {value : String} {t : Token} {ts : List Token} (h : Holds value ts)
    {c : Char} (ht : t.isPunctuation c = true) : Holds value (t :: ts) :=
  h.cons fun text he => by simp [Token.isPunctuation, he] at ht

namespace Scope

variable {s : Scope}

/-- A term that is read from a string is that string, and from no other term a string is left
    out. -/
theorem readTerm_holds {kind : TokenKind} {ts rest : List Token} {term value : String}
    (h : s.readTerm kind ts = .ok (term, rest)) (hterm : term.toList <:+: value.toList)
    (hrest : Holds value rest) (line : Nat) : Holds value (⟨kind, line⟩ :: ts) := by
  unfold readTerm at h
  split at h
  · -- the string itself
    cases h
    exact hrest.cons fun text he => by cases he; exact hterm
  · obtain ⟨_, -, he⟩ := map_eq_ok h
    cases he
    exact hrest.cons fun text he => by cases he
  · refine Holds.cons ?_ fun text he => by cases he
    split at h
    · cases h
      exact hrest
    · split at h
      · rename_i hname
        obtain ⟨_, -, he⟩ := map_eq_ok h
        cases he
        refine Holds.cons (hrest.cons fun text he => ?_) fun text he => by cases he
        simp [Token.name?, he] at hname
      · cases h
    · cases h
  · rename_i hstring _ _
    refine Holds.cons ?_ fun text he => absurd he (hstring text)
    split at h
    · cases h
    · obtain ⟨_, -, he⟩ := map_eq_ok h
      cases he
      exact hrest.cons fun text he => by cases he
    · cases h

theorem infix_of_append {before term value : String}
    (h : (before ++ term).toList <:+: value.toList) :
    before.toList <:+: value.toList ∧ term.toList <:+: value.toList := by
  rw [String.toList_append] at h
  exact ⟨(List.prefix_append _ _).isInfix.trans h, (List.suffix_append _ _).isInfix.trans h⟩

/-- What an expression is worth has in it what was read before, and every string from there on. -/
theorem evaluateFrom_holds {waiting : List String} {before value : String} {done? : Bool}
    {ts : List Token} (h : s.evaluateFrom waiting before done? ts = .ok value) :
    (∀ text ∈ before :: waiting, text.toList <:+: value.toList) ∧ Holds value ts := by
  fun_induction s.evaluateFrom waiting before done? ts with
  | case1 => cases h
  | case2 =>
    cases h
    exact ⟨List.forall_mem_singleton.2 (List.infix_refl _), fun t ht => absurd ht List.not_mem_nil⟩
  | case3 => cases h
  -- a bracket opens: what was read before it waits
  | case4 _ _ _ _ hopen ih =>
    obtain ⟨hread, hts⟩ := ih h
    exact ⟨(List.forall_mem_cons.1 hread).2, hts.punctuation hopen⟩
  | case5 => cases h
  | case6 _ _ t _ _ _ _ hterm ih =>
    obtain ⟨hread, hrest⟩ := ih h
    obtain ⟨hfirst, hwaiting⟩ := List.forall_mem_cons.1 hread
    obtain ⟨hbefore, hvalue⟩ := infix_of_append hfirst
    exact ⟨List.forall_mem_cons.2 ⟨hbefore, hwaiting⟩, readTerm_holds hterm hvalue hrest t.line⟩
  | case7 _ _ _ _ hdot ih =>
    obtain ⟨hread, hts⟩ := ih h
    exact ⟨hread, hts.punctuation hdot⟩
  | case8 => cases h
  -- a bracket closes: its value goes behind what waits for it
  | case9 _ _ _ _ _ _ hclose ih =>
    obtain ⟨hread, hts⟩ := ih h
    obtain ⟨hfirst, hwaiting⟩ := List.forall_mem_cons.1 hread
    obtain ⟨houter, hbefore⟩ := infix_of_append hfirst
    exact ⟨List.forall_mem_cons.2 ⟨hbefore, List.forall_mem_cons.2 ⟨houter, hwaiting⟩⟩,
      hts.punctuation hclose⟩
  | case10 => cases h

/-- **The text of every string literal in an expression is part of its value.** -/
theorem evaluate_holds {ts : List Token} {value : String} (h : s.evaluate ts = .ok value) :
    Holds value ts :=
  (evaluateFrom_holds h).2

/-- A variable in a literal is not looked for: the text of the literal, its dollar sign with it, is
    in the value of every expression that the literal is part of. -/
theorem dollar_mem_evaluate {lit : RuntimeLiteral} {ts : List Token} {value : String}
    (h : s.evaluate ts = .ok value) {t : Token} (ht : t ∈ ts)
    (hk : t.kind = .string (String.ofList lit.value)) :
    lit.value <:+: value.toList ∧
      ((∀ body closes, lit ≠ .command body closes) → '$' ∈ value.toList) := by
  have hpart := evaluate_holds h t ht _ hk
  rw [String.toList_ofList] at hpart
  exact ⟨hpart, fun hlit => hpart.subset (lit.dollar_mem_value hlit)⟩

end Scope

end PhpSharp.Php

namespace PhpSharp.Reflection

open Php

theorem findClass?_asText {source? source'? : Option String}
    (h : Option.Rel (Relation.ReflTransGen AsText) source? source'?) (name : String) :
    findClass? source? name = findClass? source'? name := by
  cases h with
  | none => rfl
  | some h => simp [findClass?, ofSource_asText h]

section
variable {sources sources' : String → Option String}

theorem lookUp_congr
    (h : ∀ name, findClass? (sources name) name = findClass? (sources' name) name) :
    lookUp sources = lookUp sources' := by
  funext memo name
  unfold lookUp
  rw [h]

theorem connections_congr (h : lookUp sources = lookUp sources') (c : ClassDecl) (memo : Memo)
    (ms : List MethodDecl) :
    connections sources c memo ms = connections sources' c memo ms :=
  connections_congr_needed (fun _ _ _ _ _ _ _ _ => by rw [h]) memo

end

/-- **Reflection takes a runtime literal for the constant of its text**: whatever literals with
    variables, or commands, a source has, its class has the same facts, or the same fault, and the
    log the same entries as with the constants in their places; also where they stand in the
    sources of other classes. Nothing is left to compute in such a constant, and the text of the
    literal, the dollar sign of a variable with it, is in the value of every expression that has
    the literal in it. -/
theorem reflect_asText {source source' : String} (h : Relation.ReflTransGen AsText source source')
    {sources sources' : String → Option String}
    (hs : ∀ name, Option.Rel (Relation.ReflTransGen AsText) (sources name) (sources' name))
    (expected : Sdk.PerKind String) (d : Sdk.Descriptor) :
    reflect expected sources d source = reflect expected sources' d source' ∧
      ∀ lit : RuntimeLiteral, interpolates (constantBody lit.value) = false ∧
        ∀ (s : Scope) (ts : List Token) (value : String), s.evaluate ts = .ok value →
          ∀ t ∈ ts, t.kind = .string (String.ofList lit.value) → lit.value <:+: value.toList ∧
            ((∀ body closes, lit ≠ .command body closes) → '$' ∈ value.toList) := by
  have hobject : objectFacts sources = objectFacts sources' := by
    have hlook := lookUp_congr fun name => findClass?_asText (hs name) name
    funext c
    unfold objectFacts
    rw [connections_congr hlook]
  have hfacts : classFacts sources = classFacts sources' := by
    funext c kind
    unfold classFacts
    rw [hobject]
  refine ⟨?_, fun lit => ⟨interpolates_constantBody lit.value, fun s ts value hvalue t ht hkind =>
    Scope.dollar_mem_evaluate hvalue ht hkind⟩⟩
  unfold reflect
  rw [ofSource_asText h, hfacts]

/-- `act_{$id}/ads` in double quotes -/
def adEndpoint : RuntimeLiteral :=
  .quoted "act_\x7b$id\x7d/ads".toList (by decide +kernel) (by decide +kernel)

/-- The lexemes of a class up to what its `getEndpoint` returns. -/
def adLexemes : List Lexeme :=
  let space : Lexeme := ⟨[' '], none⟩
  let word (text : String) : Lexeme := ⟨text.toList, some (.name text)⟩
  let mark (c : Char) : Lexeme := ⟨[c], some (.punctuation c)⟩
  [space, word "class", space, word "Ad", mark '{', word "function", space, word "getEndpoint",
    mark '(', mark ')', mark '{', word "return", space]

/-- An object before its source is read. -/
def adObject : Sdk.Descriptor where
  kind := .object
  shortName := "Ad"
  nameSpace := "Sdk"
  qualifiedName := "\\Sdk\\Ad"
  sourceFile := ⟨"Ad.php"⟩

theorem reflect_asText_ad :
    let before := "<?php".toList ++ adLexemes.flatMap Lexeme.text
    let after := ";\x7d\x7d".toList
    reflect ⟨"", "", ""⟩ (fun _ => none) adObject
        (String.ofList (before ++ (adEndpoint.text ++ after))) =
      (.ok (.object (some "act_\x7b$id\x7d/ads") []),
        [⟨.debug, "Reflected class", [("class", "Ad"), ("kind", "object")]⟩]) ∧
      ∃ value, (⟨"Ad", .empty⟩ : Scope).evaluate [⟨.string (String.ofList adEndpoint.value), 1⟩] =
        .ok value ∧ '$' ∈ value.toList := by
  intro before after
  have harrives : Arrives before (adEndpoint.text ++ after) :=
    ⟨"<?php".toList, adLexemes, rfl, by decide +kernel, by decide +kernel⟩
  have htext : AsText (String.ofList (before ++ (adEndpoint.text ++ after)))
      (String.ofList (before ++ (adEndpoint.constant ++ after))) :=
    .literal adEndpoint trivial harrives
  obtain ⟨hsame, hliteral⟩ := @reflect_asText _ _ (.single htext) (fun _ => none) (fun _ => none)
    (fun _ => .none) ⟨"", "", ""⟩ adObject
  have hvalue : (⟨"Ad", .empty⟩ : Scope).evaluate [⟨.string (String.ofList adEndpoint.value), 1⟩] =
      .ok (String.ofList adEndpoint.value) := Scope.evaluate_eq_ok_iff.2 (.single .string)
  refine ⟨hsame.trans (by decide +kernel), _, hvalue, ?_⟩
  exact ((hliteral adEndpoint).2 _ _ _ hvalue _ List.mem_cons_self rfl).2 fun _ _ h => nomatch h

end PhpSharp.Reflection
