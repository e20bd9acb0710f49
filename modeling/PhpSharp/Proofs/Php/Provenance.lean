/-
  Where the tokens of a class file come from.

  * `tokenize_named`: a name among the tokens of a source is made of name characters;
  * `ReadsMethods`: methods are read from tokens one behind the other, for every reader leaves the
    end of what it was given (`…_suffix`); so are those of a file (`ofTokens_methods`);
  * `ofTokens_method`: the name of a method is among the tokens, and its body is a well-nested run
    of them in braces.
-/
import PhpSharp.Php.ClassFile.Reader
import PhpSharp.Proofs.Php.Nesting

namespace PhpSharp.Php

/-! ## Names -/

/-- A token that is no name, or one of name characters. -/
def Token.Named (t : Token) : Prop :=
  ∀ text, t.name? = some text → text.toList.all isNameChar = true

/-- A lexeme whose token is no name, or one of name characters. -/
def Lexeme.Named (l : Lexeme) : Prop :=
  ∀ text, l.token? = some (.name text) → text.toList.all isNameChar = true

namespace Lexeme

variable {c : Char} {cs rest : List Char} {l : Lexeme}

theorem named_run {p : Char → Bool} {token : String → TokenKind}
    (ht : ∀ s text, token s ≠ .name text) (h : run p token cs = .ok (l, rest)) : l.Named := by
  cases h
  intro text he
  exact absurd (Option.some.inj he) (ht _ _)

theorem named_punctuation (h : punctuation c cs = .ok (l, rest)) : l.Named := by
  cases h
  intro text he
  cases he

theorem named_afterQuestion (h : afterQuestion cs = .ok (l, rest)) : l.Named := by
  unfold afterQuestion at h
  split at h <;> (cases h; intro text he; cases he)

theorem named_afterHash (h : afterHash cs = .ok (l, rest)) : l.Named := by
  unfold afterHash at h
  split at h
  · obtain ⟨_, _, he⟩ := map_eq_ok h
    cases he
    intro text he
    cases he
  · cases h
    intro text he
    cases he

theorem named_afterSlash (h : afterSlash cs = .ok (l, rest)) : l.Named := by
  unfold afterSlash at h
  split at h
  · cases h
    intro text he
    cases he
  · split at h
    · cases h
    · cases h
      intro text he
      dsimp only at he
      split at he <;> cases he
  · exact named_punctuation h

theorem named_quoted {quote : Char} {split : List Char → Option (List Char × List Char)}
    {value : List Char → List Char} (h : quoted quote split value cs = .ok (l, rest)) :
    l.Named := by
  unfold quoted at h
  split at h
  · cases h
  · cases h
    intro text he
    cases he

theorem named_afterLess (h : afterLess cs = .ok (l, rest)) : l.Named := by
  unfold afterLess at h
  split at h
  · split at h
    · cases h
    · cases h
      intro text he
      cases he
  · exact named_punctuation h

theorem named_afterDollar (h : afterDollar cs = .ok (l, rest)) : l.Named := by
  unfold afterDollar at h
  split at h
  · obtain ⟨⟨l', _⟩, hr, he⟩ := map_eq_ok h
    cases he
    intro text ht
    exact named_run (fun _ _ he => by cases he) hr text ht
  · exact named_punctuation h

theorem named_operator {first second : Char} {token : TokenKind}
    (ht : ∀ text, token ≠ .name text) (h : operator first second token cs = .ok (l, rest)) :
    l.Named := by
  unfold operator at h
  split at h
  · cases h
    intro text he
    exact absurd (Option.some.inj he) (ht _)
  · exact named_punctuation h

theorem named_blank (h : ofLength 1 none cs = .ok (l, rest)) : l.Named := by
  cases h
  intro text he
  cases he

theorem named_name (h : run isNameChar .name cs = .ok (l, rest)) : l.Named := by
  cases h
  intro text he
  cases he
  rw [String.toList_ofList]
  exact List.all_takeWhile

theorem named_ite {p : Prop} [Decidable p] {x y : Reading}
    (hx : x = .ok (l, rest) → l.Named) (hy : y = .ok (l, rest) → l.Named) :
    (if p then x else y) = .ok (l, rest) → l.Named := by
  intro h
  split at h
  · exact hx h
  · exact hy h

/-- **Names are made of name characters.** -/
theorem named_next : next c cs = .ok (l, rest) → l.Named := by
  unfold next
  refine named_ite named_blank <| named_ite named_afterQuestion <| named_ite named_afterHash <|
    named_ite named_afterSlash <| named_ite named_quoted <| named_ite named_quoted <|
    named_ite named_quoted <| named_ite named_afterLess <| named_ite named_afterDollar <|
    named_ite (named_run ?_) <| named_ite named_name <| named_ite (named_operator ?_) <|
    named_ite (named_operator ?_) <| named_ite (named_operator ?_) named_punctuation
  · exact fun _ _ he => by cases he
  · exact fun _ he => by cases he
  · exact fun _ he => by cases he
  · exact fun _ he => by cases he

end Lexeme

theorem tokensFrom_named {line : Nat} {done : List Token} {cs : List Char} {ts : List Token}
    (hd : ∀ t ∈ done, t.Named) (h : tokensFrom line done cs = .ok ts) : ∀ t ∈ ts, t.Named := by
  fun_induction tokensFrom line done cs with
  | case1 =>
    cases h
    exact fun t ht => hd t (List.mem_reverse.1 ht)
  | case2 => cases h
  | case3 line done c cs lexeme rest hnext read ih =>
    refine ih (fun t ht => ?_) h
    rcases List.mem_append.1 ht with ht | ht
    · obtain ⟨kind, hk, rfl⟩ := List.mem_map.1 ht
      intro text he
      refine Lexeme.named_next hnext text ?_
      have hkind : kind = .name text := by
        unfold Token.name? at he
        split at he
        · cases he
          assumption
        · cases he
      rw [← hkind]
      exact Option.mem_toList.1 hk
    · exact hd t ht

/-- **The names among the tokens of a source** are made of name characters. -/
theorem tokenize_named {source : String} {ts : List Token} (h : tokenize source = .ok ts) :
    ∀ t ∈ ts, t.Named :=
  tokensFrom_named (fun _ ht => absurd ht List.not_mem_nil) h

/-! ## Readers -/

section
variable {eof : Nat} {ts rest : List Token}

theorem readBlock_suffix {body : List Token} (h : readBlock eof ts = .ok (body, rest)) :
    rest <:+ ts := by
  match ts with
  | [] => cases h
  | t :: ts =>
    rw [readBlock] at h
    split at h
    · exact (closeBlock_suffix h).trans (List.suffix_cons _ _)
    · cases h

theorem readFunctionBody_suffix {body? : Option (List Token)}
    (h : readFunctionBody eof ts = .ok (body?, rest)) : rest <:+ ts := by
  fun_induction readFunctionBody eof ts with
  | case1 => cases h
  | case2 =>
    obtain ⟨⟨body, r⟩, hb, he⟩ := map_eq_ok h
    cases he
    exact readBlock_suffix hb
  | case3 =>
    cases h
    exact List.suffix_cons _ _
  | case4 => cases h
  | case5 _ _ _ _ _ _ _ hb ih => exact (ih h).trans (readBlock_suffix hb)
  | case6 _ _ _ _ _ ih => exact (ih h).trans (List.suffix_cons _ _)

/-- The body of a function is the block behind a brace. -/
theorem readFunctionBody_block {body : List Token}
    (h : readFunctionBody eof ts = .ok (some body, rest)) :
    ∃ t us, t :: us <:+ ts ∧ t.isPunctuation '{' = true ∧
      readBlock eof (t :: us) = .ok (body, rest) := by
  fun_induction readFunctionBody eof ts with
  | case1 => cases h
  | case2 t ts hbrace =>
    obtain ⟨⟨body, r⟩, hb, he⟩ := map_eq_ok h
    cases he
    exact ⟨t, ts, List.suffix_rfl, hbrace, hb⟩
  | case3 => cases h
  | case4 => cases h
  | case5 _ _ _ _ _ _ _ hb ih =>
    obtain ⟨t, us, hus, hblock⟩ := ih h
    exact ⟨t, us, hus.trans (readBlock_suffix hb), hblock⟩
  | case6 _ _ _ _ _ ih =>
    obtain ⟨t, us, hus, hblock⟩ := ih h
    exact ⟨t, us, hus.trans (List.suffix_cons _ _), hblock⟩

/-- A function's body is read behind its parameters. -/
theorem readFunction_tail {body? : Option (List Token)}
    (h : readFunction eof ts = .ok (body?, rest)) :
    ∃ us, us <:+ ts ∧ readFunctionBody eof us = .ok (body?, rest) := by
  have hd := List.dropWhile_suffix (fun t : Token => !t.isPunctuation '(') (l := ts)
  unfold readFunction at h
  split at h
  · exact ⟨[], List.nil_suffix, h⟩
  · rename_i ht
    rw [ht] at hd
    split at h
    · cases h
    · rename_i hb
      exact ⟨_, (readBlock_suffix hb).trans hd, h⟩

theorem readFunction_suffix {body? : Option (List Token)}
    (h : readFunction eof ts = .ok (body?, rest)) : rest <:+ ts := by
  obtain ⟨us, hus, hbody⟩ := readFunction_tail h
  exact (readFunctionBody_suffix hbody).trans hus

theorem expectName_suffix {role : NameRole} {name : String × Nat}
    (h : expectName eof role ts = .ok (name, rest)) : rest <:+ ts := by
  match ts with
  | [] => cases h
  | t :: ts =>
    rw [expectName] at h
    split at h
    · cases h
      exact List.suffix_cons _ _
    · cases h

theorem dropReference_suffix (ts : List Token) : dropReference ts <:+ ts := by
  unfold dropReference
  split
  · exact List.drop_suffix 1 ts
  · exact List.suffix_rfl

/-- A method is read from its name and from the function behind it. -/
theorem readMethod_parts {pending : Pending} {m : MethodDecl}
    (h : readMethod eof pending ts = .ok (m, rest)) :
    ∃ after, expectName eof .ofMethod (dropReference ts) = .ok ((m.name, m.line), after) ∧
      readFunction eof after = .ok (m.body?, rest) := by
  unfold readMethod at h
  split at h
  · cases h
  · rename_i hn
    obtain ⟨⟨body?, r⟩, hf, he⟩ := map_eq_ok h
    cases he
    exact ⟨_, hn, hf⟩

theorem readMethod_suffix {pending : Pending} {m : MethodDecl}
    (h : readMethod eof pending ts = .ok (m, rest)) : rest <:+ ts := by
  obtain ⟨after, hn, hf⟩ := readMethod_parts h
  exact (readFunction_suffix hf).trans ((expectName_suffix hn).trans (dropReference_suffix ts))

/-- The name of a method is that of a token. -/
theorem readMethod_name {pending : Pending} {m : MethodDecl}
    (h : readMethod eof pending ts = .ok (m, rest)) : ∃ t ∈ ts, t.name? = some m.name := by
  obtain ⟨after, hn, -⟩ := readMethod_parts h
  have hsub := (dropReference_suffix ts).subset
  cases hd : dropReference ts with
  | nil =>
    rw [hd] at hn
    cases hn
  | cons t us =>
    rw [hd] at hn hsub
    rw [expectName] at hn
    split at hn
    · rename_i hname
      simp only [Except.ok.injEq, Prod.mk.injEq] at hn
      exact ⟨t, hsub List.mem_cons_self, hn.1.1 ▸ hname⟩
    · cases hn

/-- The body of a method is a well-nested run in braces. -/
theorem readMethod_body {pending : Pending} {m : MethodDecl} {body : List Token}
    (h : readMethod eof pending ts = .ok (m, rest)) (hbody : m.body? = some body) :
    ∃ opening closing, opening :: body ++ closing :: rest <:+ ts ∧
      opening.isPunctuation '{' = true ∧ closing.isPunctuation '}' = true ∧ WellNested body := by
  obtain ⟨after, hn, hf⟩ := readMethod_parts h
  rw [hbody] at hf
  obtain ⟨us, hus, hfunction⟩ := readFunction_tail hf
  obtain ⟨t, us, hblock, hbrace, hread⟩ := readFunctionBody_block hfunction
  obtain ⟨o, c, b, hsplit, ho, hc, hnested⟩ := readBlock_eq_ok_iff.1 hread
  obtain rfl : t = o := (List.cons.inj hsplit).1
  obtain rfl : b = .brace := by
    rw [Token.opens?, Token.punctuation?, eq_of_beq hbrace] at ho
    cases ho
    rfl
  refine ⟨t, c, ?_, hbrace, ?_, hnested⟩
  · rw [List.cons_append, ← hsplit]
    exact (hblock.trans hus).trans ((expectName_suffix hn).trans (dropReference_suffix ts))
  · rw [Token.isPunctuation, Token.kind_of_closes? hc]
    rfl

theorem readConstantName_suffix {last? : Option (String × Nat)} {name : String × Nat}
    (h : readConstantName eof last? ts = .ok (name, rest)) : rest <:+ ts := by
  induction ts generalizing last? with
  | nil => cases last? <;> cases h
  | cons t ts ih =>
    unfold readConstantName at h
    split at h
    · split at h
      · cases h
      · cases h
        exact List.suffix_cons _ _
    split at h
    · exact (ih h).trans (List.suffix_cons _ _)
    split at h
    · exact (ih h).trans (List.suffix_cons _ _)
    · cases h

theorem readConstantValue_suffix {unterminated : SyntaxError} {depth : Nat}
    {value : List Token × Bool}
    (h : readConstantValue unterminated depth ts = .ok (value, rest)) : rest <:+ ts := by
  induction ts generalizing depth value with
  | nil => cases h
  | cons t ts ih =>
    rw [readConstantValue] at h
    split at h
    · cases h
      exact List.suffix_cons _ _
    · dsimp only at h
      generalize (if t.opens?.isSome then _ else _ : Nat) = depth' at h
      obtain ⟨⟨v, r⟩, hv, he⟩ := map_eq_ok h
      cases he
      exact (ih hv).trans (List.suffix_cons _ _)

theorem readConstants_suffix {constants : List ConstantDecl}
    (h : readConstants eof ts = .ok (constants, rest)) : rest <:+ ts := by
  have hstep : ∀ {ts afterName rest : List Token} {name : String × Nat} {value : List Token × Bool}
      {unterminated : SyntaxError}, readConstantName eof none ts = .ok (name, afterName) →
      readConstantValue unterminated 0 afterName = .ok (value, rest) → rest <:+ ts :=
    fun hn hv => (readConstantValue_suffix hv).trans (readConstantName_suffix hn)
  fun_induction readConstants eof ts generalizing constants with
  | case1 => cases h
  | case2 => cases h
  | case3 => cases h
  | case4 =>
    rename_i ih
    obtain ⟨⟨_, r⟩, hr, he⟩ := map_eq_ok h
    cases he
    exact (ih hr).trans (hstep ‹readConstantName _ _ _ = _› ‹readConstantValue _ _ _ = _›)
  | case5 =>
    cases h
    exact hstep ‹readConstantName _ _ _ = _› ‹readConstantValue _ _ _ = _›

theorem skipStatement_suffix (h : skipStatement eof ts = .ok rest) : rest <:+ ts := by
  fun_induction skipStatement eof ts with
  | case1 => cases h; exact List.suffix_rfl
  | case2 => cases h; exact List.suffix_cons _ _
  | case3 => cases h
  | case4 _ _ _ _ _ _ hb ih => exact (ih h).trans (readBlock_suffix hb)
  | case5 => cases h; exact List.suffix_rfl
  | case6 _ _ _ _ _ ih => exact (ih h).trans (List.suffix_cons _ _)

theorem skipUse_suffix (h : skipUse eof ts = .ok rest) : rest <:+ ts := by
  induction ts with
  | nil => cases h; exact List.suffix_rfl
  | cons t ts ih =>
    rw [skipUse] at h
    split at h
    · cases h
      exact List.suffix_cons _ _
    split at h
    · obtain ⟨⟨_, r⟩, hb, rfl⟩ := map_eq_ok h
      exact readBlock_suffix hb
    · exact (ih h).trans (List.suffix_cons _ _)

theorem readHead_suffix {name : String} {implementing : Bool} {head : ClassHead}
    (h : readHead eof name implementing ts = .ok (head, rest)) : rest <:+ ts := by
  fun_induction readHead eof name implementing ts generalizing head with
  | case1 => cases h
  | case2 => cases h; exact List.suffix_cons _ _
  | case3 => cases h
  | case4 _ _ _ _ _ _ _ _ hn ih =>
    obtain ⟨⟨_, r⟩, hr, he⟩ := map_eq_ok h
    cases he
    exact (ih hr).trans ((expectName_suffix hn).trans (List.suffix_cons _ _))
  | case5 _ _ _ _ _ _ ih => exact (ih h).trans (List.suffix_cons _ _)
  | case6 =>
    rename_i ih
    obtain ⟨⟨_, r⟩, hr, he⟩ := map_eq_ok h
    cases he
    exact (ih hr).trans (List.suffix_cons _ _)
  | case7 =>
    rename_i ih
    exact (ih h).trans (List.suffix_cons _ _)

theorem skipToBlock_suffix (h : skipToBlock eof ts = .ok rest) : rest <:+ ts := by
  induction ts with
  | nil => cases h
  | cons t ts ih =>
    rw [skipToBlock] at h
    split at h
    · obtain ⟨⟨_, r⟩, hb, rfl⟩ := map_eq_ok h
      exact readBlock_suffix hb
    · exact (ih h).trans (List.suffix_cons _ _)

/-! ## Methods -/

/-- The methods are read from the tokens one behind the other, and `rest` is left behind them. -/
inductive ReadsMethods : List Token → List MethodDecl → List Token → Prop
  | nil {ts rest : List Token} : rest <:+ ts → ReadsMethods ts [] rest
  | cons {ts us after rest : List Token} {eof : Nat} {pending m ms} : us <:+ ts →
      readMethod eof pending us = .ok (m, after) → ReadsMethods after ms rest →
      ReadsMethods ts (m :: ms) rest

section
variable {ms ms' : List MethodDecl}

theorem ReadsMethods.mono {ts' : List Token} (h : ReadsMethods ts ms rest) (hs : ts <:+ ts') :
    ReadsMethods ts' ms rest := by
  cases h with
  | nil hr => exact .nil (hr.trans hs)
  | cons hu hm hms => exact .cons (hu.trans hs) hm hms

theorem ReadsMethods.rest_suffix (h : ReadsMethods ts ms rest) : rest <:+ ts := by
  induction h with
  | nil hr => exact hr
  | cons hu hm _ ih => exact (ih.trans (readMethod_suffix hm)).trans hu

theorem ReadsMethods.append {after : List Token} (h : ReadsMethods ts ms after)
    (h' : ReadsMethods after ms' rest) : ReadsMethods ts (ms ++ ms') rest := by
  induction h with
  | nil hr => exact h'.mono hr
  | cons hu hm _ ih => exact .cons hu hm (ih h')

theorem ReadsMethods.of_mem (h : ReadsMethods ts ms rest) {m : MethodDecl} (hm : m ∈ ms) :
    ∃ eof pending us after, us <:+ ts ∧ readMethod eof pending us = .ok (m, after) := by
  induction h with
  | nil => cases hm
  | cons hu hread hms ih =>
    rcases List.mem_cons.1 hm with rfl | hm
    · exact ⟨_, _, _, _, hu, hread⟩
    · obtain ⟨eof, pending, us, after, hus, hread'⟩ := ih hm
      exact ⟨eof, pending, us, after, (hus.trans (readMethod_suffix hread)).trans hu, hread'⟩

end

theorem readMembers_methods {unclosed : SyntaxError} {pending : Pending} {members : Members}
    (h : readMembers eof unclosed pending ts = .ok (members, rest)) :
    ReadsMethods ts members.methods rest := by
  have htail : ∀ {t : Token} {ts : List Token}, ts <:+ t :: ts := fun {t ts} =>
    List.suffix_cons t ts
  fun_induction readMembers eof unclosed pending ts generalizing members with
  | case1 => cases h
  | case2 =>
    cases h
    exact .nil htail
  | case3 =>
    rename_i ih
    exact (ih h).mono htail
  | case4 =>
    rename_i ih
    exact (ih h).mono htail
  | case5 => cases h
  | case6 =>
    rename_i ih
    obtain ⟨⟨ms, r⟩, hr, he⟩ := map_eq_ok h
    cases he
    exact (ih hr).mono ((readConstants_suffix ‹_›).trans htail)
  | case7 => cases h
  | case8 =>
    rename_i ih
    obtain ⟨⟨ms, r⟩, hr, he⟩ := map_eq_ok h
    cases he
    exact .cons htail ‹_› (ih hr)
  | case9 => cases h
  | case10 =>
    rename_i ih
    exact (ih h).mono ((skipUse_suffix ‹_›).trans htail)
  | case11 => cases h
  | case12 =>
    rename_i ih
    exact (ih h).mono (skipStatement_suffix ‹_›)

theorem readClass_methods {isAbstract : Bool} {line : Nat} {c : ClassDecl}
    (h : readClass eof isAbstract line ts = .ok (c, rest)) : ReadsMethods ts c.methods rest := by
  unfold readClass at h
  split at h
  · cases h
  · rename_i hn
    split at h
    · cases h
    · rename_i hh
      obtain ⟨⟨members, r⟩, hm, he⟩ := map_eq_ok h
      cases he
      exact (readMembers_methods hm).mono ((readHead_suffix hh).trans (expectName_suffix hn))

/-- The methods of a declaration, in order. -/
def Declaration.methods : Declaration → List MethodDecl
  | .nameSpace _ => []
  | .classDecl c => c.methods

/-- **The methods of a file** are read from its tokens, one behind the other. -/
theorem readDeclarations_methods {before : List Token} {ds : List Declaration}
    (h : readDeclarations eof before ts = .ok ds) :
    ReadsMethods ts (ds.flatMap Declaration.methods) [] := by
  have htail : ∀ {t : Token} {ts : List Token}, ts <:+ t :: ts := fun {t ts} =>
    List.suffix_cons t ts
  fun_induction readDeclarations eof before ts generalizing ds with
  | case1 => cases h; exact .nil List.nil_suffix
  | case2 => rename_i ih; exact (ih h).mono htail
  | case3 => cases h
  | case4 =>
    rename_i ih
    exact (ih h).mono ((readFunction_suffix ‹_›).trans htail)
  | case5 => cases h; exact .nil List.nil_suffix
  | case6 => rename_i ih; exact (ih h).mono htail
  | case7 =>
    rename_i ih
    obtain ⟨ds', hr, rfl⟩ := map_eq_ok h
    exact (ih hr).mono (htail.trans htail)
  | case8 =>
    split at h
    · cases h
    · rename_i hok
      cases ‹readClass _ _ _ _ = .error _›.symm.trans hok
  | case9 =>
    rename_i c _ hc ih
    split at h
    · rename_i he
      cases hc.symm.trans he
    · rename_i hc'
      obtain ⟨ds', hr, rfl⟩ := map_eq_ok h
      obtain ⟨rfl, rfl⟩ := Prod.mk.inj (Except.ok.inj (hc.symm.trans hc'))
      exact ((readClass_methods hc).append (ih hr)).mono htail
  | case10 =>
    split at h
    · cases h
    · rename_i hok
      cases ‹skipToBlock _ _ = .error _›.symm.trans hok
  | case11 =>
    rename_i hrest ih
    split at h
    · rename_i he
      cases hrest.symm.trans he
    · rename_i hrest'
      obtain rfl := Except.ok.inj (hrest.symm.trans hrest')
      exact (ih h).mono ((skipToBlock_suffix hrest).trans htail)
  | case12 => rename_i ih; exact (ih h).mono htail

theorem methods_ofDeclarations (ds : List Declaration) :
    (ClassFile.ofDeclarations ds).classes.flatMap ClassDecl.methods =
      ds.flatMap Declaration.methods := by
  induction ds with
  | nil => rfl
  | cons d ds ih =>
    cases d with
    | nameSpace name => exact ih
    | classDecl c => exact congrArg (c.methods ++ ·) ih

theorem ofTokens_methods {file : ClassFile} (h : ClassFile.ofTokens ts = .ok file) :
    ReadsMethods ts (file.classes.flatMap ClassDecl.methods) [] := by
  obtain ⟨ds, hds, rfl⟩ := map_eq_ok h
  rw [methods_ofDeclarations]
  exact readDeclarations_methods hds

/-- **A method of a file:** its name is among the tokens, and its body a well-nested run of them
    in braces. -/
theorem ofTokens_method {file : ClassFile} (h : ClassFile.ofTokens ts = .ok file) {c : ClassDecl}
    (hc : c ∈ file.classes) {m : MethodDecl} (hm : m ∈ c.methods) :
    (∃ t ∈ ts, t.name? = some m.name) ∧ ∀ body ∈ m.body?, ∃ front opening closing behind,
      ts = front ++ opening :: body ++ closing :: behind ∧ opening.isPunctuation '{' = true ∧
        closing.isPunctuation '}' = true ∧ WellNested body := by
  obtain ⟨eof, pending, us, after, hus, hread⟩ :=
    (ofTokens_methods h).of_mem (List.mem_flatMap.2 ⟨c, hc, hm⟩)
  constructor
  · obtain ⟨t, ht, hname⟩ := readMethod_name hread
    exact ⟨t, hus.subset ht, hname⟩
  · intro body hbody
    obtain ⟨opening, closing, hrun, ho, hc, hnested⟩ := readMethod_body hread hbody
    obtain ⟨front, hfront⟩ := hrun.trans hus
    exact ⟨front, opening, closing, after, by simp [← hfront], ho, hc, hnested⟩

theorem ofSource_eq_ok {source : String} {file : ClassFile}
    (h : ClassFile.ofSource source = .ok file) :
    ∃ ts, tokenize source = .ok ts ∧ ClassFile.ofTokens ts = .ok file := by
  unfold ClassFile.ofSource at h
  split at h
  · cases h
  · rename_i ts hts
    exact ⟨ts, hts, h⟩

/-- **The bodies of a source's methods** are tokens of the source. -/
theorem ofSource_bodies {source : String} {file : ClassFile}
    (h : ClassFile.ofSource source = .ok file) :
    ∃ ts, tokenize source = .ok ts ∧
      ∀ c ∈ file.classes, ∀ m ∈ c.methods, ∀ body ∈ m.body?, body ⊆ ts := by
  obtain ⟨ts, hts, hfile⟩ := ofSource_eq_ok h
  refine ⟨ts, hts, fun c hc m hm body hbody => ?_⟩
  obtain ⟨front, opening, closing, behind, rfl, -⟩ := (ofTokens_method hfile hc hm).2 body hbody
  intro t ht
  simp [ht]

end

end PhpSharp.Php
