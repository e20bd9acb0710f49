/-
  Reading gives back what was written: the declarations of a class file are those of its
  syntax tree, each with its name, its words, its runs of tokens and its line.
-/
import PhpSharp.Proofs.Php.Written

namespace PhpSharp.Php.Written

/-! ## Constants -/

theorem isPunctuation_of_isTypePart {t : Token} (h : isTypePart t = true) :
    t.isPunctuation '=' = false := by
  obtain ⟨kind, line⟩ := t
  cases kind with
  | punctuation c =>
    simp only [isTypePart, Token.name?, Token.isPunctuation, Option.isSome_none, Bool.false_or,
      Bool.or_eq_true, beq_iff_eq, TokenKind.punctuation.injEq] at h
    rcases h with rfl | rfl <;> rfl
  | _ => rfl

/-- Whatever type stands before it, the name of a constant is the last name before the `=`. -/
theorem readConstantName_type {type : List Token} (h : ∀ t ∈ type, isTypePart t = true)
    (eof : Nat) (last? : Option (String × Nat)) (c : Constant) (rest : List Token) :
    readConstantName eof last? (type ++ (c.tokens ++ rest)) =
      .ok ((c.name.text, c.name.line), c.value ++ rest) := by
  induction type generalizing last? with
  | nil => simp [Constant.tokens, readConstantName]; rfl
  | cons t type ih =>
    have ht := h t (by simp)
    have ih := fun last? => ih (fun u hu => h u (by simp [hu])) last?
    simp only [List.cons_append, readConstantName, isPunctuation_of_isTypePart ht,
      Bool.false_eq_true, if_false]
    cases hn : t.name? with
    | some name => exact ih _
    | none =>
      simp only [isTypePart, hn, Option.isSome_none, Bool.false_or] at ht
      simp only [ht, if_true]
      exact ih _

/-- A value is read to its end: at depth zero commas and semicolons end it, deeper none does. -/
theorem readConstantValue_nested {p : Token → Prop} {ts : List Token} (h : Nested p ts)
    (unterminated : SyntaxError) (depth : Nat)
    (hp : ∀ t, p t → depth = 0 → t.isPunctuation ',' = false ∧ t.isPunctuation ';' = false)
    (rest : List Token) :
    readConstantValue unterminated depth (ts ++ rest) =
      (readConstantValue unterminated depth rest).map fun ((value, more), rest) =>
        ((ts ++ value, more), rest) := by
  induction h generalizing depth rest with
  | nil =>
    rw [List.nil_append]
    cases readConstantValue unterminated depth rest <;> rfl
  | @plain p t ts ho hc ht _ ih =>
    have hstop : (depth = 0 && (t.isPunctuation ',' || t.isPunctuation ';')) = false := by
      by_cases hd : depth = 0
      · simp [hp t ht hd]
      · simp [hd]
    rw [List.cons_append, readConstantValue, hstop]
    simp only [ho, hc, Option.isSome_none, Bool.false_eq_true, if_false, ih depth hp]
    cases readConstantValue unterminated depth rest <;> rfl
  | @block p o body c ts b ho hc _ _ ihb ih =>
    have hco := Token.opens?_of_closes? hc
    have hstop : (depth = 0 && (o.isPunctuation ',' || o.isPunctuation ';')) = false := by
      simp only [Token.isPunctuation, Token.kind_of_opens? ho]
      cases b <;> simp [Bracket.opening]
    have hbody := ihb (depth + 1) (by simp) (c :: (ts ++ rest))
    have hopen : readConstantValue unterminated depth (o :: body ++ c :: ts ++ rest) =
        (readConstantValue unterminated (depth + 1) (body ++ c :: (ts ++ rest))).map
          fun ((value, more), rest) => ((o :: value, more), rest) := by
      simp [readConstantValue, hstop, ho]
    have hclose : readConstantValue unterminated (depth + 1) (c :: (ts ++ rest)) =
        (readConstantValue unterminated depth (ts ++ rest)).map
          fun ((value, more), rest) => ((c :: value, more), rest) := by
      simp [readConstantValue, hco, hc]
    rw [hopen, hbody, hclose, ih depth hp]
    cases readConstantValue unterminated depth rest <;> simp [Except.map]

/-- The value of a constant is read up to the mark behind it. -/
theorem readConstantValue_stop (c : Constant) (unterminated : SyntaxError) (stop : Token)
    (hs : (stop.isPunctuation ',' || stop.isPunctuation ';') = true) (rest : List Token) :
    readConstantValue unterminated 0 (c.value ++ stop :: rest) =
      .ok ((c.value, stop.isPunctuation ','), rest) := by
  rw [readConstantValue_nested c.value_nested _ _ (fun t ht _ => ht)]
  simp [readConstantValue, hs, Except.map]

/-- A constant is read, and after a comma the next one. -/
theorem readConstants_step {eof line : Nat} {ts afterName value rest : List Token} {name : String}
    {more : Bool} (hn : readConstantName eof none ts = .ok ((name, line), afterName))
    (hv : readConstantValue ⟨line, .constantNotTerminated name⟩ 0 afterName =
      .ok ((value, more), rest)) (hne : value ≠ []) :
    readConstants eof ts =
      if more then (readConstants eof rest).map fun (constants, rest) =>
        (⟨name, value, line⟩ :: constants, rest)
      else .ok ([⟨name, value, line⟩], rest) := by
  rw [readConstants]
  split
  · rename_i hn'
    rw [hn] at hn'; cases hn'
  · rename_i hn'
    rw [hn] at hn'; cases hn'
    split
    · rename_i hv'
      rw [hv] at hv'; cases hv'
    · rename_i hv'
      rw [hv] at hv'; cases hv'
      rw [if_neg hne]

theorem readConstants_tokens {type : List Token} (h : ∀ t ∈ type, isTypePart t = true) (eof : Nat)
    (constants : Listing Constant) (stop : Mark ';') (rest : List Token) :
    readConstants eof (type ++ (constants.tokens Constant.tokens ++ stop.token :: rest)) =
      .ok (constants.items.map Constant.decl, rest) := by
  obtain ⟨c, more⟩ := constants
  -- the type stands before the first constant only
  induction more generalizing c type with
  | nil =>
    have hn := readConstantName_type h eof none c (stop.token :: rest)
    have hv := readConstantValue_stop c ⟨c.name.line, .constantNotTerminated c.name.text⟩
      stop.token (by simp) rest
    simpa [Listing.tokens, Listing.items, Constant.decl] using readConstants_step hn hv c.value_ne
  | cons m more ih =>
    obtain ⟨comma, d⟩ := m
    have ih := @ih [] (by simp) d
    rw [List.nil_append] at ih
    have hn := readConstantName_type h eof none c
      (comma.token :: (Listing.tokens ⟨d, more⟩ Constant.tokens ++ stop.token :: rest))
    have hv := readConstantValue_stop c ⟨c.name.line, .constantNotTerminated c.name.text⟩
      comma.token (by simp) (Listing.tokens ⟨d, more⟩ Constant.tokens ++ stop.token :: rest)
    have hstep := readConstants_step hn hv c.value_ne
    rw [ih] at hstep
    simpa [Listing.tokens, Listing.items, Constant.decl, Except.map] using hstep

/-! ## Functions -/

theorem readFunctionBody_step {eof : Nat} {t : Token} {ts : List Token}
    (h : t.isPunctuation '{' = false ∧ t.isPunctuation '(' = false ∧ t.isPunctuation ';' = false) :
    readFunctionBody eof (t :: ts) = readFunctionBody eof ts := by
  rw [readFunctionBody]
  simp [h]

theorem readFunctionBody_tokens (eof : Nat) (body : Body) (rest : List Token) :
    readFunctionBody eof (body.tokens ++ rest) = .ok (body.inner?, rest) := by
  cases body with
  | block opening body nested closing =>
    have hb := readBlock_nested (o := opening.token) (c := closing.token) (b := .brace) rfl rfl
      nested eof rest
    simp [Body.tokens, readFunctionBody, hb, Except.map, Body.inner?]
  | none stop => simp [Body.tokens, readFunctionBody, Body.inner?]

/-- A function is read from its parameters to the end of its body. -/
theorem readFunction_tail (eof : Nat) (f : Function) (before rest : List Token)
    (hb : ∀ t ∈ before, t.isPunctuation '(' = false) :
    readFunction eof (before ++ (f.tail ++ rest)) = .ok (f.body.inner?, rest) := by
  have hparameters := readBlock_nested (o := f.opening.token) (c := f.closing.token)
    (b := .parenthesis) rfl rfl f.parameters_nested eof (f.result ++ (f.body.tokens ++ rest))
  have hresult : ∀ ts : List Token, (∀ t ∈ ts, t.isPunctuation '{' = false ∧
      t.isPunctuation '(' = false ∧ t.isPunctuation ';' = false) →
      readFunctionBody eof (ts ++ (f.body.tokens ++ rest)) = .ok (f.body.inner?, rest) := by
    intro ts hts
    induction ts with
    | nil => exact readFunctionBody_tokens eof f.body rest
    | cons t ts ih =>
      rw [List.cons_append, readFunctionBody_step (hts t (by simp))]
      exact ih fun u hu => hts u (by simp [hu])
  have hdrop : (before ++ (f.tail ++ rest)).dropWhile (fun t => !t.isPunctuation '(') =
      f.tail ++ rest := by
    rw [List.dropWhile_append_of_pos (by simpa using hb)]
    simp [Function.tail]
  rw [readFunction, hdrop]
  simp only [Function.tail, List.cons_append, List.append_assoc, hparameters]
  exact hresult f.result f.result_plain

theorem expectName_name (eof : Nat) (role : NameRole) (n : Name) (rest : List Token) :
    expectName eof role (n.token :: rest) = .ok ((n.text, n.line), rest) := rfl

/-- A method is read from its name on; what waited for it is its comment and its modifiers. -/
theorem readMethod_tokens (eof : Nat) (pending : Pending) (f : Function) (rest : List Token) :
    readMethod eof pending
        ((f.reference?.map Mark.token).toList ++ f.name.token :: (f.tail ++ rest)) =
      .ok ({ name := f.name.text, line := f.name.line, body? := f.body.inner?
             doc? := pending.doc?, visibility := visibilityOf pending.modifiers
             isStatic := pending.modifiers.contains .isStatic }, rest) := by
  have hreference : dropReference
      ((f.reference?.map Mark.token).toList ++ f.name.token :: (f.tail ++ rest)) =
      f.name.token :: (f.tail ++ rest) := by
    cases f.reference? <;> simp [dropReference]
  have htail := readFunction_tail eof f [] rest (by simp)
  rw [List.nil_append] at htail
  rw [readMethod, hreference, expectName_name]
  simp only [htail]
  rfl

/-! ## What is not kept -/

/-- A statement is stepped over up to its semicolon. -/
theorem skipStatement_nested {p : Token → Prop} {ts : List Token} (h : Nested p ts)
    (hp : ∀ t, p t → t.isPunctuation ';' = false) (eof : Nat) (stop : Mark ';')
    (rest : List Token) : skipStatement eof (ts ++ stop.token :: rest) = .ok rest := by
  induction h with
  | nil => simp [skipStatement]
  | @plain p t ts ho hc ht _ ih =>
    have hbrace : t.isPunctuation '}' = false := Token.isPunctuation_of_closes? hc .brace
    rw [List.cons_append, skipStatement]
    simp [hp t ht, ho, hbrace, ih hp]
  | @block p o body c ts b ho hc hbody _ _ ih =>
    have hsemicolon : o.isPunctuation ';' = false := by
      simp only [Token.isPunctuation, Token.kind_of_opens? ho]
      cases b <;> rfl
    have hb := readBlock_nested ho hc hbody eof (ts ++ stop.token :: rest)
    rw [List.append_assoc, List.cons_append, List.cons_append, skipStatement]
    simp only [hsemicolon, ho, Option.isSome_some, Bool.false_eq_true, if_false, if_true]
    split
    · rename_i hb'
      rw [hb] at hb'; cases hb'
    · rename_i hb'
      rw [hb] at hb'; cases hb'
      exact ih hp

theorem skipUse_body (eof : Nat) (body : Body) (rest : List Token) :
    skipUse eof (body.tokens ++ rest) = .ok rest := by
  cases body with
  | block opening body nested closing =>
    have hb := readBlock_nested (o := opening.token) (c := closing.token) (b := .brace) rfl rfl
      nested eof rest
    simp [Body.tokens, skipUse, hb, Except.map]
  | none stop => simp [Body.tokens, skipUse]

/-- Traits are stepped over with their block. -/
theorem skipUse_tokens (eof : Nat) (traits : Listing Name) (body : Body) (rest : List Token) :
    skipUse eof (traits.tokens (fun n => [n.token]) ++ (body.tokens ++ rest)) = .ok rest := by
  obtain ⟨n, more⟩ := traits
  induction more generalizing n with
  | nil => simpa [Listing.tokens, skipUse] using skipUse_body eof body rest
  | cons m more ih =>
    obtain ⟨comma, n'⟩ := m
    simpa [Listing.tokens, skipUse] using ih n'

/-! ## Members -/

theorem readMembers_doc (eof : Nat) (unclosed : SyntaxError) (pending : Pending) (d : Doc)
    (rest : List Token) : readMembers eof unclosed pending (d.token :: rest) =
      readMembers eof unclosed { pending with doc? := some d.text } rest := by
  rw [readMembers]
  rfl

theorem modifier?_eq_none {t : Token} (h : ∀ w ∈ Modifier.table, t.isName w.1 = false) :
    t.modifier? = none := by
  rw [Token.modifier?, Option.map_eq_none_iff, List.find?_eq_none]
  exact fun w hw => by simp [h w hw]

/-- The modifier that a word stands for. -/
def ModifierWord.modifier : ModifierWord → Modifier
  | .visible v _ => .visible v
  | .isStatic _ => .isStatic
  | .isAbstract _ | .isFinal _ | .isVar _ | .isReadonly _ => .other

theorem modifier?_keyword {word : String} (k : Keyword word) : k.token.modifier? =
    (Modifier.table.find? fun w => Text.sameLetters word w.1).map Prod.snd := by
  simp only [Token.modifier?, Keyword.isName_token]

theorem ModifierWord.modifier?_token (w : ModifierWord) : w.token.modifier? = some w.modifier := by
  cases w with
  | visible v k =>
    rw [ModifierWord.token, modifier?_keyword]
    cases v <;> rfl
  | _ =>
    rw [ModifierWord.token, modifier?_keyword]
    rfl

theorem readMembers_modifier (eof : Nat) (unclosed : SyntaxError) (pending : Pending)
    (w : ModifierWord) (rest : List Token) :
    readMembers eof unclosed pending (w.token :: rest) =
      readMembers eof unclosed { pending with modifiers := pending.modifiers ++ [w.modifier] }
        rest := by
  have hbrace : w.token.isPunctuation '}' = false := by cases w <;> rfl
  have hname : ∃ text, w.token.kind = .name text := by cases w <;> exact ⟨_, rfl⟩
  obtain ⟨text, hname⟩ := hname
  rw [readMembers]
  simp [hbrace, hname, ModifierWord.modifier?_token]

/-- What stands before a member waits for it. -/
theorem readMembers_lead (eof : Nat) (unclosed : SyntaxError) (l : Lead) (rest : List Token) :
    readMembers eof unclosed {} (l.tokens ++ rest) =
      readMembers eof unclosed ⟨l.doc?.map Doc.text, l.modifiers.map ModifierWord.modifier⟩
        rest := by
  have hmodifiers : ∀ (ws : List ModifierWord) (pending : Pending),
      readMembers eof unclosed pending (ws.map ModifierWord.token ++ rest) =
        readMembers eof unclosed
          { pending with modifiers := pending.modifiers ++ ws.map ModifierWord.modifier } rest := by
    intro ws
    induction ws with
    | nil => simp
    | cons w ws ih =>
      intro pending
      simp [readMembers_modifier, ih]
  cases hd : l.doc? with
  | none => simpa [Lead.tokens, hd] using hmodifiers l.modifiers {}
  | some d =>
    simpa [Lead.tokens, hd, readMembers_doc] using hmodifiers l.modifiers ⟨some d.text, []⟩

/-- With one visibility at most, the visibility of the modifiers is that one. -/
theorem visibilityOf_lead (l : Lead) :
    visibilityOf (l.modifiers.map ModifierWord.modifier) = l.visibility := by
  have hcontains : ∀ v, (l.modifiers.map ModifierWord.modifier).contains (.visible v) =
      (l.modifiers.filterMap ModifierWord.visibility?).contains v := by
    intro v
    rw [Bool.eq_iff_iff, List.contains_iff_mem, List.contains_iff_mem, List.mem_map,
      List.mem_filterMap]
    refine exists_congr fun w => and_congr_right fun _ => ?_
    cases w <;> simp [ModifierWord.modifier, ModifierWord.visibility?]
  have hone := l.oneVisibility
  rw [visibilityOf, hcontains, hcontains, Lead.visibility]
  match hvs : l.modifiers.filterMap ModifierWord.visibility? with
  | [] => rfl
  | [v] => cases v <;> rfl
  | _ :: _ :: _ => simp [hvs] at hone

theorem contains_isStatic (ws : List ModifierWord) :
    (ws.map ModifierWord.modifier).contains .isStatic = ws.any ModifierWord.staticWord := by
  induction ws with
  | nil => rfl
  | cons w ws ih =>
    cases w <;> simp_all [ModifierWord.modifier, ModifierWord.staticWord]

section
variable {eof : Nat} {unclosed : SyntaxError} {pending : Pending} {ts rest : List Token}

/-- What a token does that neither closes the class nor waits for a member. -/
theorem readMembers_item {t : Token} (hbrace : t.isPunctuation '}' = false)
    (hdoc : ∀ doc, t.kind ≠ .docComment doc) (hm : t.modifier? = none) :
    readMembers eof unclosed pending (t :: ts) =
      if t.isName "const" then
        (readConstants eof ts).bind fun (constants, rest) =>
          (readMembers eof unclosed {} rest).map fun (ms, rest) =>
            ({ ms with constants := constants ++ ms.constants }, rest)
      else if t.isName "function" then
        (readMethod eof pending ts).bind fun (m, rest) =>
          (readMembers eof unclosed {} rest).map fun (ms, rest) =>
            ({ ms with methods := m :: ms.methods }, rest)
      else if t.isName "use" then (skipUse eof ts).bind (readMembers eof unclosed {})
      else (skipStatement eof (t :: ts)).bind (readMembers eof unclosed {}) := by
  rw [readMembers, dif_neg (by simp [hbrace]), hm]
  split
  · exact absurd ‹t.kind = _› (hdoc _)
  · cases ‹none = some _›
  · split_ifs
    all_goals (split <;> rename_i h <;> rw [h] <;> rfl)

theorem readMembers_const (k : Keyword "const") {constants : List ConstantDecl}
    (h : readConstants eof ts = .ok (constants, rest)) :
    readMembers eof unclosed pending (k.token :: ts) =
      (readMembers eof unclosed {} rest).map fun (ms, rest) =>
        ({ ms with constants := constants ++ ms.constants }, rest) := by
  rw [readMembers_item (by simp) (by simp [Keyword.token]) (modifier?_keyword k), h]
  simp [Text.sameLetters, Except.bind]

theorem readMembers_function (k : Keyword "function") {m : MethodDecl}
    (h : readMethod eof pending ts = .ok (m, rest)) :
    readMembers eof unclosed pending (k.token :: ts) =
      (readMembers eof unclosed {} rest).map fun (ms, rest) =>
        ({ ms with methods := m :: ms.methods }, rest) := by
  rw [readMembers_item (by simp) (by simp [Keyword.token]) (modifier?_keyword k), h]
  simp [Text.sameLetters, Except.bind]

theorem readMembers_use (k : Keyword "use") (h : skipUse eof ts = .ok rest) :
    readMembers eof unclosed pending (k.token :: ts) = readMembers eof unclosed {} rest := by
  rw [readMembers_item (by simp) (by simp [Keyword.token]) (modifier?_keyword k), h]
  simp [Text.sameLetters, Except.bind]

theorem readMembers_statement {t : Token} (ht : startsMember t = false)
    (hbrace : t.isPunctuation '}' = false) (h : skipStatement eof (t :: ts) = .ok rest) :
    readMembers eof unclosed pending (t :: ts) = readMembers eof unclosed {} rest := by
  simp only [startsMember, Bool.or_eq_false_iff, List.any_eq_false, Bool.not_eq_true] at ht
  obtain ⟨hdoc, hwords⟩ := ht
  have hdoc : ∀ doc, t.kind ≠ .docComment doc := fun doc hk => by simp [hk] at hdoc
  have hm : t.modifier? = none := by
    refine modifier?_eq_none fun w hw => hwords w.1 ?_
    simp only [Modifier.table, List.mem_cons, List.not_mem_nil, or_false] at hw
    rcases hw with rfl | rfl | rfl | rfl | rfl | rfl | rfl | rfl <;> simp
  rw [readMembers_item hbrace hdoc hm, h]
  simp [hwords, Except.bind]

end

/-- What stands before the semicolon of a property. -/
theorem Property.nested (p : Property) : Nested (fun t => t.isPunctuation ';' = false)
    (p.type ++ ⟨.variable p.name, p.line⟩ :: (p.value?.map Initializer.tokens).getD []) := by
  refine p.type_nested.append (.plain rfl rfl rfl ?_)
  cases p.value? with
  | none => exact .nil
  | some i => exact .plain rfl rfl (by simp) i.nested

/-- A property is stepped over, whatever it starts with. -/
theorem readMembers_property (eof : Nat) (unclosed : SyntaxError) (pending : Pending) (p : Property)
    (rest : List Token) : readMembers eof unclosed pending (p.tokens ++ rest) =
      readMembers eof unclosed {} rest := by
  have hskip := skipStatement_nested p.nested (fun _ h => h) eof p.stop rest
  have hnested := p.nested
  have htokens : p.tokens ++ rest = (p.type ++ ⟨.variable p.name, p.line⟩ ::
      (p.value?.map Initializer.tokens).getD []) ++ p.stop.token :: rest := by
    simp [Property.tokens]
  rw [htokens]
  cases htype : p.type with
  | nil =>
    rw [htype] at hskip hnested
    exact readMembers_statement rfl rfl hskip
  | cons t type =>
    rw [htype] at hskip hnested
    have hbrace := Token.isPunctuation_of_closes? hnested.closes?_head .brace
    exact readMembers_statement (p.type_head t (by simp [htype])) hbrace hskip

/-- **A member is read as what it declares**, and nothing waits for the next one. -/
theorem readMembers_member (eof : Nat) (unclosed : SyntaxError) (m : Member) (rest : List Token) :
    readMembers eof unclosed {} (m.tokens ++ rest) =
      (readMembers eof unclosed {} rest).map fun (ms, rest) =>
        ({ constants := m.constants ++ ms.constants
           methods := m.method?.toList ++ ms.methods }, rest) := by
  obtain ⟨lead, item⟩ := m
  rw [Member.tokens, List.append_assoc, readMembers_lead]
  cases item with
  | constants s =>
    have h := readConstants_tokens s.type_parts eof s.constants s.stop rest
    simp only [Item.tokens, ConstantStatement.tokens, List.cons_append, List.append_assoc,
      List.nil_append]
    rw [readMembers_const s.keyword h]
    rfl
  | method f =>
    have h := readMethod_tokens eof
      ⟨lead.doc?.map Doc.text, lead.modifiers.map ModifierWord.modifier⟩ f rest
    rw [visibilityOf_lead, contains_isStatic] at h
    simp only [Item.tokens, Function.tokens, List.cons_append, List.append_assoc]
    rw [readMembers_function f.keyword h]
    rfl
  | property p =>
    rw [Item.tokens, readMembers_property]
    cases readMembers eof unclosed {} rest <;> rfl
  | traits u =>
    have h := skipUse_tokens eof u.traits u.body rest
    simp only [Item.tokens, TraitUse.tokens, List.cons_append, List.append_assoc]
    rw [readMembers_use u.keyword h]
    cases readMembers eof unclosed {} rest <;> rfl

/-- The members of a class are read in order, up to its closing brace. -/
theorem readMembers_tokens (eof : Nat) (unclosed : SyntaxError) (members : List Member)
    (closing : Mark '}') (rest : List Token) :
    readMembers eof unclosed {}
        (members.flatMap Member.tokens ++ closing.token :: rest) =
      .ok ({ constants := members.flatMap Member.constants
             methods := members.filterMap Member.method? }, rest) := by
  induction members with
  | nil => simp [readMembers]
  | cons m members ih =>
    rw [List.flatMap_cons, List.append_assoc, readMembers_member, ih]
    cases hm : m.method? <;> simp [Except.map, hm]

/-! ## Classes -/

section
variable {eof : Nat} {name : String}

theorem readHead_interface (i : Interface) (rest : List Token) :
    readHead eof name true (i.token :: rest) =
      (readHead eof name true rest).map fun (head, rest) =>
        ({ head with interfaces := i.text :: head.interfaces }, rest) := by
  rw [readHead, if_neg (by simp), if_neg (by simp [i.notExtends]),
    if_neg (by simp [i.notImplements])]
  rfl

theorem readHead_comma (comma : Mark ',') (implementing : Bool) (rest : List Token) :
    readHead eof name implementing (comma.token :: rest) =
      readHead eof name implementing rest := by
  rw [readHead, if_neg (by simp), if_neg (by simp), if_neg (by simp)]
  simp

theorem readHead_interfaces (names : Listing Interface) (rest : List Token) :
    readHead eof name true (names.tokens (fun n => [n.token]) ++ rest) =
      (readHead eof name true rest).map fun (head, rest) =>
        ({ head with interfaces := names.items.map (fun n => n.text) ++ head.interfaces },
          rest) := by
  obtain ⟨i, more⟩ := names
  induction more generalizing i with
  | nil => simp [Listing.tokens, Listing.items, readHead_interface]
  | cons m more ih =>
    obtain ⟨comma, j⟩ := m
    have ih := ih j
    simp [Listing.tokens, Listing.items, readHead_interface, readHead_comma] at ih ⊢
    rw [ih]
    cases readHead eof name true rest <;> rfl

/-- The head of a class is read up to its brace. -/
theorem readHead_tokens (c : Class) (rest : List Token) :
    readHead eof name false (c.head ++ rest) =
      .ok (⟨c.decl.parent?, c.decl.interfaces⟩, rest) := by
  have hbrace : ∀ implementing, readHead eof name implementing (c.opening.token :: rest) =
      .ok ({}, rest) := fun implementing => by
    rw [readHead, if_pos (by simp)]
    simp
  have himplements : ∀ (k : Keyword "implements") (ts : List Token),
      readHead eof name false (k.token :: ts) = readHead eof name true ts := fun k ts => by
    rw [readHead, if_neg (by simp), if_neg (by simp [Text.sameLetters]),
      if_pos (by simp [Text.sameLetters])]
    simp
  have hextends : ∀ (k : Keyword "extends") (n : Name) (ts : List Token),
      readHead eof name false (k.token :: n.token :: ts) =
        (readHead eof name false ts).map fun (head, rest) =>
          ({ head with parent? := head.parent?.or (some n.text) }, rest) := fun k n ts => by
    rw [readHead, if_neg (by simp), if_pos (by simp [Text.sameLetters]), expectName_name]
    simp
  have hinterfaces := @readHead_interfaces eof name
  cases hp : c.parent? with
  | none =>
    cases hi : c.interfaces? with
    | none => simp [Class.head, Class.decl, hp, hi, hbrace]
    | some i => simp [Class.head, Class.decl, hp, hi, himplements, hinterfaces, hbrace, Except.map]
  | some parent =>
    cases hi : c.interfaces? with
    | none => simp [Class.head, Class.decl, hp, hi, hextends, hbrace, Except.map]
    | some i =>
      simp [Class.head, Class.decl, hp, hi, hextends, himplements, hinterfaces, hbrace, Except.map]

end

theorem readClass_tokens (eof : Nat) (isAbstract : Bool) (c : Class) (rest : List Token) :
    readClass eof isAbstract c.keyword.line (c.name.token ::
        (c.head ++ (c.members.flatMap Member.tokens ++ c.closing.token :: rest))) =
      .ok ({ c.decl with isAbstract }, rest) := by
  rw [readClass, expectName_name]
  simp only [readHead_tokens, readMembers_tokens]
  rfl

/-! ## Files -/

/-- Whether the next token starts a declaration: nothing stands before it, or a semicolon. -/
def Fresh (before : List Token) : Prop := ∀ t ∈ before.head?, t.isPunctuation ';' = true

theorem Fresh.selectsMember {before : List Token} (h : Fresh before) :
    before.head?.any Token.selectsMember = false := by
  cases before with
  | nil => rfl
  | cons t before =>
    have ht := eq_of_beq (h t rfl)
    simp [Token.selectsMember, ht]

theorem Fresh.isName {before : List Token} (h : Fresh before) (word : String) :
    before.head?.any (·.isName word) = false := by
  cases before with
  | nil => rfl
  | cons t before =>
    have ht := eq_of_beq (h t rfl)
    simp [Token.isName, ht]

section
variable {eof : Nat} {before ts rest : List Token} {t : Token}

theorem readDeclarations_tail (hb : before.head?.any Token.selectsMember = false)
    (hf : t.isName "function" = true) :
    readDeclarations eof before (t :: ts) =
      (readFunction eof ts).bind fun (_, rest) => readDeclarations eof [] rest := by
  rw [readDeclarations.eq_def]
  simp only [hb, hf, Bool.false_eq_true, if_false, if_true]
  split <;> rename_i h <;> rw [h] <;> rfl

/-- What a word does that a name follows. -/
theorem readDeclarations_named (hb : before.head?.any Token.selectsMember = false)
    (hf : t.isName "function" = false) {next : Token} {name : String}
    (hn : next.name? = some name) :
    readDeclarations eof before (t :: next :: ts) =
      if t.isName "namespace" then
        (readDeclarations eof [next, t] ts).map
          (.nameSpace (String.ofList (name.toList.dropWhile (· == '\\'))) :: ·)
      else if t.isName "class" then
        (readClass eof (isAbstractAfter before) t.line (next :: ts)).bind fun (c, rest) =>
          (readDeclarations eof [] rest).map (.classDecl c :: ·)
      else if t.opensOther then
        (skipToBlock eof (next :: ts)).bind (readDeclarations eof [])
      else readDeclarations eof (t :: before) (next :: ts) := by
  rw [readDeclarations.eq_def]
  simp only [hb, hf, hn, Bool.false_eq_true, if_false]
  split_ifs
  · rfl
  · split <;> rename_i h <;> rw [h] <;> rfl
  · split <;> rename_i h <;> rw [h] <;> rfl
  · rfl

/-- A token is stepped over unless it is a word that declares, with a name behind it. -/
theorem readDeclarations_skip (hb : before.head?.any Token.selectsMember = false)
    (hf : t.isName "function" = false)
    (hn : (∀ next ∈ ts.head?, next.name? = none) ∨
      (t.isName "namespace" = false ∧ t.isName "class" = false ∧ t.opensOther = false)) :
    readDeclarations eof before (t :: ts) = readDeclarations eof (t :: before) ts := by
  cases ts with
  | nil =>
    rw [readDeclarations.eq_def]
    simp [hb, hf, readDeclarations]
  | cons next rest =>
    cases hname : next.name? with
    | none =>
      rw [readDeclarations.eq_def]
      simp [hb, hf, hname]
    | some name =>
      obtain ⟨hns, hc, ho⟩ := hn.resolve_left fun h => by simp [h next rfl] at hname
      rw [readDeclarations_named hb hf hname]
      simp [hns, hc, ho]

theorem readDeclarations_function (hb : before.head?.any Token.selectsMember = false)
    (k : Keyword "function") {body? : Option (List Token)}
    (h : readFunction eof ts = .ok (body?, rest)) :
    readDeclarations eof before (k.token :: ts) = readDeclarations eof [] rest := by
  rw [readDeclarations_tail hb (by simp [Text.sameLetters]), h]
  rfl

theorem readDeclarations_class (hb : before.head?.any Token.selectsMember = false)
    (k : Keyword "class") (n : Name) {c : ClassDecl}
    (h : readClass eof (isAbstractAfter before) k.token.line (n.token :: ts) = .ok (c, rest)) :
    readDeclarations eof before (k.token :: n.token :: ts) =
      (readDeclarations eof [] rest).map (.classDecl c :: ·) := by
  rw [readDeclarations_named hb (by simp [Text.sameLetters]) n.name?_token,
    if_neg (by simp [Text.sameLetters]), if_pos (by simp [Text.sameLetters]), h]
  rfl

theorem readDeclarations_other (hb : before.head?.any Token.selectsMember = false)
    (w : OtherWord) (n : Name) (h : skipToBlock eof (n.token :: ts) = .ok rest) :
    readDeclarations eof before (w.token :: n.token :: ts) = readDeclarations eof [] rest := by
  have hother : w.token.opensOther = true := by
    cases w <;> simp [OtherWord.token, Token.opensOther, Text.sameLetters]
  have hwords : ∀ word ∈ ["function", "namespace", "class"], w.token.isName word = false := by
    cases w <;> simp [OtherWord.token, Text.sameLetters]
  rw [readDeclarations_named hb (hwords _ (by simp)) n.name?_token,
    if_neg (by simp [hwords]), if_neg (by simp [hwords]), if_pos hother, h]
  rfl

/-- The block of another declaration is stepped over. -/
theorem skipToBlock_tokens (o : OtherDeclaration) (rest : List Token) :
    skipToBlock eof
      (o.name.token :: (o.head ++ o.opening.token :: (o.body ++ o.closing.token :: rest))) =
        .ok rest := by
  have hblock := readBlock_nested (o := o.opening.token) (c := o.closing.token) (b := .brace) rfl
    rfl o.body_nested eof rest
  have hhead : ∀ ts : List Token, (∀ t ∈ ts, t.isPunctuation '{' = false) →
      skipToBlock eof (ts ++ o.opening.token :: (o.body ++ o.closing.token :: rest)) =
        .ok rest := by
    intro ts hts
    induction ts with
    | nil => simp [skipToBlock, hblock, Except.map]
    | cons t ts ih =>
      simp only [List.cons_append, skipToBlock, hts t (by simp), Bool.false_eq_true, if_false]
      exact ih fun u hu => hts u (by simp [hu])
  simpa [skipToBlock] using hhead o.head o.head_plain

/-- The modifiers of a class stand before its word, the last one first. -/
theorem isAbstractAfter_modifiers (hb : Fresh before) (ms : List ClassModifier)
    (hlen : ms.length ≤ 2) :
    isAbstractAfter ((ms.map ClassModifier.token).reverse ++ before) =
      ms.any ClassModifier.abstractWord := by
  have hbefore : isAbstractAfter before = false := by
    cases before with
    | nil => rfl
    | cons t before =>
      have hword := fun word => hb.isName word
      simp at hword
      simp [isAbstractAfter, hword]
  rcases ms with _ | ⟨m, _ | ⟨n, _ | ⟨o, ms⟩⟩⟩
  · simpa using hbefore
  · have := hb.isName "abstract"
    cases m <;> simp [isAbstractAfter, ClassModifier.token, ClassModifier.abstractWord,
      Text.sameLetters, this]
  · cases m <;> cases n <;> simp [isAbstractAfter, ClassModifier.token, ClassModifier.abstractWord,
      Text.sameLetters]
  · simp at hlen

theorem readDeclarations_modifiers (hb : Fresh before) (ms : List ClassModifier)
    (k : Keyword "class") :
    readDeclarations eof before (ms.map ClassModifier.token ++ k.token :: ts) =
      readDeclarations eof ((ms.map ClassModifier.token).reverse ++ before)
        (k.token :: ts) := by
  have hmodifier : ∀ m : ClassModifier, m.token.selectsMember = false ∧
      m.token.opensOther = false ∧
      ∀ word ∈ ["function", "namespace", "class"], m.token.isName word = false := by
    intro m
    cases m <;> simp [ClassModifier.token, Token.opensOther, Text.sameLetters]
  have hskip : ∀ (ms : List ClassModifier) (before : List Token),
      before.head?.any Token.selectsMember = false →
      readDeclarations eof before (ms.map ClassModifier.token ++ k.token :: ts) =
        readDeclarations eof ((ms.map ClassModifier.token).reverse ++ before) (k.token :: ts) := by
    intro ms
    induction ms with
    | nil => simp
    | cons m ms ih =>
      intro before hb
      obtain ⟨hs, ho, hw⟩ := hmodifier m
      rw [List.map_cons, List.cons_append, readDeclarations_skip hb (hw _ (by simp))
        (.inr ⟨hw _ (by simp), hw _ (by simp), ho⟩), ih _ (by simpa using hs)]
      simp
  exact hskip ms before hb.selectsMember

/-- **A declaration at the top level is read as what it declares**, and the next one starts as
    freshly as this one did. -/
theorem readDeclarations_item (hb : Fresh before) (item : TopLevel) (rest : List Token) :
    ∃ before', Fresh before' ∧ readDeclarations eof before (item.tokens ++ rest) =
      (readDeclarations eof before' rest).map (item.class?.toList.map .classDecl ++ ·) := by
  have hid : ∀ r : Except SyntaxError (List Declaration), r.map ([] ++ ·) = r := by
    rintro (_ | _) <;> rfl
  have hnil : Fresh [] := by simp [Fresh]
  cases item with
  | classes c =>
    refine ⟨[], hnil, ?_⟩
    have hselects : ((c.modifiers.map ClassModifier.token).reverse ++ before).head?.any
        Token.selectsMember = false := by
      cases hm : (c.modifiers.map ClassModifier.token).reverse with
      | nil => exact hb.selectsMember
      | cons t ts =>
        have ht : t ∈ c.modifiers.map ClassModifier.token := by
          rw [← List.mem_reverse, hm]; exact List.mem_cons_self
        obtain ⟨m, -, rfl⟩ := List.mem_map.1 ht
        cases m <;> rfl
    have hclass := readClass_tokens eof (c.modifiers.any ClassModifier.abstractWord) c rest
    rw [← isAbstractAfter_modifiers hb c.modifiers c.atMostTwo] at hclass
    simp only [TopLevel.tokens, Class.tokens, List.append_assoc, List.cons_append, List.nil_append]
    rw [readDeclarations_modifiers hb, readDeclarations_class hselects c.keyword c.name hclass,
      isAbstractAfter_modifiers hb c.modifiers c.atMostTwo]
    rfl
  | other o =>
    refine ⟨[], hnil, ?_⟩
    have hblock := @skipToBlock_tokens eof o rest
    simp only [TopLevel.tokens, OtherDeclaration.tokens, List.append_assoc, List.cons_append,
      List.nil_append]
    rw [readDeclarations_other hb.selectsMember o.word o.name hblock]
    exact (hid _).symm
  | function f =>
    refine ⟨[], hnil, ?_⟩
    have hbefore : ∀ t ∈ (f.reference?.map Mark.token).toList ++ [f.name.token],
        t.isPunctuation '(' = false := by
      cases f.reference? <;> simp
    have hfunction := readFunction_tail eof f _ rest hbefore
    rw [List.append_assoc, List.singleton_append] at hfunction
    simp only [TopLevel.tokens, Function.tokens, List.append_assoc, List.cons_append]
    rw [readDeclarations_function hb.selectsMember f.keyword hfunction]
    exact (hid _).symm
  | imports i =>
    refine ⟨i.stop.token :: i.name.token :: i.keyword.token :: before, by simp [Fresh], ?_⟩
    simp only [TopLevel.tokens, Import.tokens, List.cons_append, List.nil_append]
    rw [readDeclarations_skip hb.selectsMember (by simp [Text.sameLetters])
        (.inr (by simp [Token.opensOther, Text.sameLetters])),
      readDeclarations_skip (by simp) (by simp [i.notFunction]) (.inl (by simp)),
      readDeclarations_skip (by simp) (by simp) (.inr (by simp [Token.opensOther]))]
    exact (hid _).symm

/-- Declarations are read in order. -/
theorem readDeclarations_items (hb : Fresh before) (items : List TopLevel) :
    readDeclarations eof before (items.flatMap TopLevel.tokens) =
      .ok ((items.filterMap TopLevel.class?).map .classDecl) := by
  induction items generalizing before with
  | nil => simp [readDeclarations]
  | cons item items ih =>
    obtain ⟨before', hb', hitem⟩ := @readDeclarations_item eof before hb item
      (items.flatMap TopLevel.tokens)
    rw [List.flatMap_cons, hitem, ih hb']
    cases hc : item.class? <;> simp [Except.map, hc]

/-- The namespace that a statement declares, without a backslash in front. -/
theorem readDeclarations_nameSpace (n : NamespaceStatement) (rest : List Token) :
    readDeclarations eof [] (n.tokens ++ rest) =
      (readDeclarations eof [n.stop.token, n.name.token, n.keyword.token] rest).map
        (.nameSpace (String.ofList (n.name.text.toList.dropWhile (· == '\\'))) :: ·) := by
  simp only [NamespaceStatement.tokens, List.cons_append, List.nil_append]
  rw [readDeclarations_named (by simp) (by simp [Text.sameLetters]) n.name.name?_token,
    if_pos (by simp [Text.sameLetters]),
    readDeclarations_skip (by simp) (by simp) (.inr (by simp [Token.opensOther]))]

theorem readDeclarations_namespace (n : NamespaceStatement) (items : List TopLevel) :
    readDeclarations eof [] (n.tokens ++ items.flatMap TopLevel.tokens) =
      .ok (.nameSpace (String.ofList (n.name.text.toList.dropWhile (· == '\\'))) ::
        (items.filterMap TopLevel.class?).map .classDecl) := by
  rw [readDeclarations_nameSpace, readDeclarations_items (by simp [Fresh])]
  rfl

end

theorem ofDeclarations_append (nameSpaces : List String) (classes : List ClassDecl) :
    ClassFile.ofDeclarations (nameSpaces.map .nameSpace ++ classes.map .classDecl) =
      ⟨nameSpaces.getLast?, classes⟩ := by
  have hnames : nameSpaces.filterMap some ++ classes.filterMap (fun _ => none) = nameSpaces := by
    rw [List.filterMap_some, List.filterMap_eq_nil_iff.2 fun _ _ => rfl, List.append_nil]
  have hclasses : nameSpaces.filterMap (fun _ => none) ++ classes.filterMap some = classes := by
    rw [List.filterMap_some, List.filterMap_eq_nil_iff.2 fun _ _ => rfl, List.nil_append]
  rw [ClassFile.ofDeclarations, ClassFile.mk.injEq]
  simp only [List.filterMap_append, List.filterMap_map]
  exact ⟨congrArg List.getLast? hnames, hclasses⟩

theorem ofTokens_tokens (f : File) : ClassFile.ofTokens f.tokens = .ok f.classFile := by
  obtain ⟨nameSpace?, items⟩ := f
  rw [ClassFile.ofTokens]
  cases nameSpace? with
  | none =>
    have hnil : Fresh [] := by simp [Fresh]
    simp only [File.tokens, Option.map_none, Option.getD_none, List.nil_append,
      readDeclarations_items hnil]
    exact congrArg Except.ok (ofDeclarations_append [] _)
  | some n =>
    simp only [File.tokens, Option.map_some, Option.getD_some, readDeclarations_namespace]
    exact congrArg Except.ok (ofDeclarations_append [_] _)

/-- **Reading undoes printing.** Whatever a class file consists of, reading its tokens succeeds and
    gives its namespace and its classes: each with its parent, its interfaces, its constants and
    its methods, in the order of the file, and with their lines. -/
theorem File.parse_print (f : File) : ClassFile.ofTokens f.tokens = .ok f.classFile :=
  ofTokens_tokens f

end PhpSharp.Php.Written
