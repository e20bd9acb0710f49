/-
  Files as the runs of tokens where documentation comments document nothing, and the tokens around
  these runs.

  * `MemberPart`, `ClassPart`, `TopPart`: the parts of a class and of a file;
  * `Outline.Commented`: comments are inserted into the runs of a file;
  * `exists_outline`: every file that is read has an outline, and whatever comments are inserted,
    it is read as what the outline declares then, or is malformed;
  * `Outline.exists_commented`: no head, no value and no body is without its run.
-/
import PhpSharp.Proofs.Php.DocComments

namespace PhpSharp.Php

/-! ## Members -/

/-- The method with comments in its body. -/
inductive MethodDecl.Commented : MethodDecl → MethodDecl → Prop
  | mk {m body?'} : Option.Rel Php.Commented m.body? body?' →
      Commented m { m with body? := body?' }

/-- A part of a class. -/
inductive MemberPart
  /-- Tokens that declare nothing of their own -/
  | other (t : Token) (ts : List Token)
  /-- `const …;` -/
  | constants (word : Token) (isConst : word.isName "const" = true) (parts : List ConstantPart)
  /-- `function …`, where the body stands between two runs of tokens -/
  | method (word : Token) (front : List Token) (m : MethodDecl) (back : List Token)

namespace MemberPart

def tokens : MemberPart → List Token
  | other t ts => t :: ts
  | constants word _ parts => word :: parts.flatMap ConstantPart.tokens
  | method word front m back => word :: (front ++ (m.body?.getD [] ++ back))

/-- What stands in front of `=`, from the word `const` or the last comma on. -/
def heads : MemberPart → List (List Token)
  | constants _ _ parts => parts.map ConstantPart.head
  | _ => []

def constantDecls : MemberPart → List ConstantDecl
  | constants _ _ parts => parts.map ConstantPart.decl
  | _ => []

def methodDecl? : MemberPart → Option MethodDecl
  | method _ _ m _ => some m
  | _ => none

inductive Commented : MemberPart → MemberPart → Prop
  | other {t ts} : Commented (.other t ts) (.other t ts)
  | constants {word isConst parts parts'} : List.Forall₂ ConstantPart.Commented parts parts' →
      Commented (.constants word isConst parts) (.constants word isConst parts')
  | method {word front m m' back} : m.Commented m' →
      Commented (.method word front m back) (.method word front m' back)

end MemberPart

/-- The members that the parts of a class declare. -/
def Members.ofParts (parts : List MemberPart) : Members where
  constants := parts.flatMap MemberPart.constantDecls
  methods := parts.filterMap MemberPart.methodDecl?

theorem memberTokens_cons (part : MemberPart) (parts : List MemberPart) (rest : List Token) :
    (part :: parts).flatMap MemberPart.tokens ++ rest =
      part.tokens ++ (parts.flatMap MemberPart.tokens ++ rest) := by
  rw [List.flatMap_cons, List.append_assoc]

/-- No comment is inserted in front of a part. -/
theorem head?_memberParts {parts parts' : List MemberPart}
    (h : List.Forall₂ MemberPart.Commented parts parts') (close : Token) (rest rest' : List Token) :
    (parts'.flatMap MemberPart.tokens ++ close :: rest').head? =
      (parts.flatMap MemberPart.tokens ++ close :: rest).head? := by
  cases h with
  | nil => rfl
  | cons hpart => cases hpart <;> rfl

/-- Comments change no number of heads. -/
theorem length_heads {parts parts' : List MemberPart}
    (h : List.Forall₂ MemberPart.Commented parts parts') :
    (parts'.flatMap MemberPart.heads).length = (parts.flatMap MemberPart.heads).length := by
  induction h with
  | nil => rfl
  | cons hpart _ ih =>
    rw [List.flatMap_cons, List.flatMap_cons, List.length_append, List.length_append, ih]
    cases hpart with
    | constants hparts => simp only [MemberPart.heads, List.length_map, hparts.length_eq]
    | _ => rfl

/-- The members of a class, with comments in values, heads and bodies. -/
theorem readMembers_commented {eof : Nat} {unclosed : SyntaxError} {pending : Pending}
    {ts rest : List Token} {members : Members}
    (h : readMembers eof unclosed pending ts = .ok (members, rest)) :
    ∃ parts close, ts = parts.flatMap MemberPart.tokens ++ close :: rest ∧
      members = .ofParts parts ∧
      ∀ parts', List.Forall₂ MemberPart.Commented parts parts' → ∀ e unclosed' rest',
        Verdict (parts.flatMap MemberPart.heads) (parts'.flatMap MemberPart.heads)
          (Members.ofParts parts', rest')
          (readMembers e unclosed' pending
            (parts'.flatMap MemberPart.tokens ++ close :: rest')) := by
  -- one case for each kind of member, and one for its reader failing
  fun_induction readMembers eof unclosed pending ts generalizing members with
  | case1 => cases h
  | case2 pending t ts hclose =>
    cases h
    refine ⟨[], t, rfl, rfl, ?_⟩
    rintro _ ⟨⟩ e unclosed' rest'
    refine .of_ok ?_
    rw [List.flatMap_nil, List.nil_append, readMembers, dif_pos hclose]
    rfl
  | case3 pending t ts hclose doc hdoc ih =>
    obtain ⟨parts, close, rfl, rfl, hread⟩ := ih h
    refine ⟨.other t [] :: parts, close, rfl, rfl, ?_⟩
    rintro _ (_ | ⟨⟨⟩, hrest⟩) e unclosed' rest'
    have hstep : ∀ us, readMembers e unclosed' pending (t :: us) =
        readMembers e unclosed' { pending with doc? := some doc } us := fun us => by
      rw [readMembers, dif_neg hclose]
      simp only [hdoc]
    exact (hstep _).symm ▸ hread _ hrest e unclosed' rest'
  | case4 pending t ts hclose m hm hdoc ih =>
    obtain ⟨parts, close, rfl, rfl, hread⟩ := ih h
    refine ⟨.other t [] :: parts, close, rfl, rfl, ?_⟩
    rintro _ (_ | ⟨⟨⟩, hrest⟩) e unclosed' rest'
    have hstep : ∀ us, readMembers e unclosed' pending (t :: us) =
        readMembers e unclosed' { pending with modifiers := pending.modifiers ++ [m] } us := by
      intro us
      rw [readMembers, dif_neg hclose]
      split
      · exact absurd ‹t.kind = _› (hdoc _)
      · rename_i m' hm' _
        cases hm.symm.trans hm'
        rfl
      · rename_i hm' _
        cases hm.symm.trans hm'
    exact (hstep _).symm ▸ hread _ hrest e unclosed' rest'
  | case5 => cases h
  | case6 pending t ts hclose hm hconst constants after hconstants hdoc ih =>
    obtain ⟨⟨ms, r⟩, hr, he⟩ := map_eq_ok h
    cases he
    obtain ⟨statement, rfl, rfl, hstatement⟩ := readConstants_commented hconstants
    obtain ⟨parts, close, rfl, rfl, hread⟩ := ih hr
    refine ⟨.constants t hconst statement :: parts, close, by simp [MemberPart.tokens], rfl, ?_⟩
    rintro _ (_ | ⟨_ | hparts | _, hrest⟩) e unclosed' rest'
    rw [memberTokens_cons, MemberPart.tokens, List.cons_append,
      Written.readMembers_item (by simpa using hclose) hdoc hm, if_pos hconst]
    exact (hstatement _ hparts e _).bind ((hread _ hrest e unclosed' rest').map _)
      (by simp only [List.length_map, hparts.length_eq])
  | case7 => cases h
  | case8 pending t ts hclose hm hconst hfunction m after hmethod hdoc ih =>
    obtain ⟨⟨ms, r⟩, hr, he⟩ := map_eq_ok h
    cases he
    obtain ⟨front, back, rfl, hbody⟩ := readMethod_commented hmethod
    obtain ⟨parts, close, rfl, rfl, hread⟩ := ih hr
    refine ⟨.method t front m back :: parts, close, by simp [MemberPart.tokens], rfl, ?_⟩
    rintro _ (_ | ⟨_ | _ | ⟨⟨hrel⟩⟩, hrest⟩) e unclosed' rest'
    rw [memberTokens_cons, MemberPart.tokens, List.cons_append,
      Written.readMembers_item (by simpa using hclose) hdoc hm, if_neg hconst, if_pos hfunction]
    simp only [List.append_assoc, hbody _ hrel e, Except.bind]
    exact (hread _ hrest e unclosed' rest').map _
  | case9 => cases h
  | case10 pending t ts hclose hm hconst hfunction huse after hskip hdoc ih =>
    obtain ⟨parts, close, rfl, rfl, hread⟩ := ih h
    obtain ⟨taken, rfl, htaken⟩ := skipUse_local hskip (by simp)
    refine ⟨.other t taken :: parts, close, by simp [MemberPart.tokens], rfl, ?_⟩
    rintro _ (_ | ⟨⟨⟩, hrest⟩) e unclosed' rest'
    rw [memberTokens_cons, MemberPart.tokens, List.cons_append,
      Written.readMembers_item (by simpa using hclose) hdoc hm, if_neg hconst, if_neg hfunction,
      if_pos huse, htaken e _]
    exact hread _ hrest e unclosed' rest'
  | case11 => cases h
  | case12 pending t ts hclose hm hconst hfunction huse after hskip hdoc ih =>
    have hshort := skipStatement_length (by simpa using hclose) hskip
    obtain ⟨parts, close, rfl, rfl, hread⟩ := ih h
    obtain ⟨taken, hts, htaken⟩ := skipStatement_local hskip (by simp)
    -- a statement that does not start with a brace is not empty
    obtain ⟨taken, rfl⟩ : ∃ taken', taken = t :: taken' := by
      cases taken with
      | nil =>
        rw [List.nil_append] at hts
        rw [hts] at hshort
        exact absurd hshort (Nat.lt_irrefl _)
      | cons u taken => exact ⟨taken, by rw [List.cons_append] at hts; rw [(List.cons.inj hts).1]⟩
    obtain rfl := (List.cons.inj hts).2
    refine ⟨.other t taken :: parts, close, by simp [MemberPart.tokens], rfl, ?_⟩
    rintro _ (_ | ⟨⟨⟩, hrest⟩) e unclosed' rest'
    have hnext := htaken e _ (head?_memberParts hrest close rest rest')
    rw [List.cons_append] at hnext
    rw [memberTokens_cons, MemberPart.tokens, List.cons_append,
      Written.readMembers_item (by simpa using hclose) hdoc hm, if_neg hconst, if_neg hfunction,
      if_neg huse, hnext]
    exact hread _ hrest e unclosed' rest'

/-! ## Classes -/

/-- The class with these members. -/
def ClassDecl.withMembers (c : ClassDecl) (members : Members) : ClassDecl :=
  { c with constants := members.constants, methods := members.methods }

/-- A class: its word, its head from the name to the brace, what it declares apart from its
    members, these, and the closing brace. -/
structure ClassPart where
  word : Token
  front : List Token
  decl : ClassDecl
  members : List MemberPart
  close : Token

def ClassPart.tokens (p : ClassPart) : List Token :=
  p.word :: (p.front ++ (p.members.flatMap MemberPart.tokens ++ [p.close]))

/-- What a class declares. -/
def ClassPart.classDecl (p : ClassPart) : ClassDecl := p.decl.withMembers (.ofParts p.members)

/-- The class, with comments in values, heads and bodies. -/
theorem readClass_commented {eof line : Nat} {isAbstract : Bool} {ts rest : List Token}
    {c : ClassDecl} (h : readClass eof isAbstract line ts = .ok (c, rest)) :
    ∃ front members close, ts = front ++ (members.flatMap MemberPart.tokens ++ close :: rest) ∧
      front.head? = ts.head? ∧ c = c.withMembers (.ofParts members) ∧
      ∀ members', List.Forall₂ MemberPart.Commented members members' → ∀ e rest',
        Verdict (members.flatMap MemberPart.heads) (members'.flatMap MemberPart.heads)
          (c.withMembers (.ofParts members'), rest') (readClass e isAbstract line
            (front ++ (members'.flatMap MemberPart.tokens ++ close :: rest'))) := by
  unfold readClass at h
  split at h
  · cases h
  · rename_i hn
    split at h
    · cases h
    · rename_i hh
      obtain ⟨⟨_, r⟩, hm, he⟩ := map_eq_ok h
      cases he
      obtain ⟨t, rfl, hname, ht⟩ := expectName_eq_ok hn
      obtain ⟨head, rfl, hhead⟩ := isLocal_readHead _ false hh
      obtain ⟨members, close, rfl, rfl, hmembers⟩ := readMembers_commented hm
      refine ⟨t :: head, members, close, rfl, rfl, rfl, fun members' hrel e rest' => ?_⟩
      rw [readClass]
      simp only [List.cons_append, ht e, hhead e]
      exact (hmembers members' hrel e _ rest').map _

/-- The class with comments in the values of its constants and in the bodies of its methods. -/
structure ClassDecl.Commented (c c' : ClassDecl) : Prop where
  constants : List.Forall₂ ConstantDecl.Commented c.constants c'.constants
  methods : List.Forall₂ MethodDecl.Commented c.methods c'.methods
  same : c' = c.withMembers ⟨c'.constants, c'.methods⟩

theorem ClassDecl.withMembers_commented (c : ClassDecl) {parts parts' : List MemberPart}
    (h : List.Forall₂ MemberPart.Commented parts parts') :
    (c.withMembers (.ofParts parts)).Commented (c.withMembers (.ofParts parts')) where
  constants := by
    refine List.rel_flatMap h fun part part' hpart => ?_
    cases hpart with
    | constants hparts => exact List.rel_map (fun _ _ ⟨_, hdecl⟩ => hdecl) hparts
    | _ => exact .nil
  methods := by
    refine List.rel_filterMap (fun part part' hpart => ?_) h
    cases hpart with
    | method hm => exact .some hm
    | _ => exact .none
  same := rfl

/-! ## Files -/

/-- What is stepped over up to a block, with comments in that. -/
theorem skipToBlock_commented {eof : Nat} {ts rest : List Token}
    (h : skipToBlock eof ts = .ok rest) :
    ∃ front body close, ts = front ++ (body ++ close :: rest) ∧ front.head? = ts.head? ∧
      ∀ body', Php.Commented body body' → ∀ e rest',
        skipToBlock e (front ++ (body' ++ close :: rest')) = .ok rest' := by
  induction ts with
  | nil => cases h
  | cons t ts ih =>
    rw [skipToBlock] at h
    split at h
    · rename_i hopen
      obtain ⟨⟨body, r⟩, hb, rfl⟩ := map_eq_ok h
      obtain ⟨close, rfl, hread⟩ := readBlock_commented hb
      refine ⟨[t], body, close, rfl, rfl, fun body' hbody e rest' => ?_⟩
      rw [List.singleton_append, skipToBlock, if_pos hopen, hread body' hbody]
      rfl
    · rename_i hopen
      obtain ⟨front, body, close, rfl, -, hread⟩ := ih h
      refine ⟨t :: front, body, close, rfl, rfl, fun body' hbody e rest' => ?_⟩
      rw [List.cons_append, skipToBlock, if_neg hopen, hread body' hbody]

/-- A part of a file. -/
inductive TopPart
  /-- Tokens that declare at most a namespace -/
  | other (t : Token) (ts : List Token) (nameSpace? : Option String)
  /-- What is stepped over as a whole, with its body between two runs of tokens: a function, an
      interface, a trait or an enumeration -/
  | skipped (t : Token) (front body back : List Token)
  | ofClass (p : ClassPart)

namespace TopPart

def tokens : TopPart → List Token
  | other t ts _ => t :: ts
  | skipped t front body back => t :: (front ++ (body ++ back))
  | ofClass p => p.tokens

def heads : TopPart → List (List Token)
  | ofClass p => p.members.flatMap MemberPart.heads
  | _ => []

def declaration? : TopPart → Option Declaration
  | other _ _ nameSpace? => nameSpace?.map .nameSpace
  | skipped _ _ _ _ => none
  | ofClass p => some (.classDecl p.classDecl)

/-- The part with comments. -/
inductive Commented : TopPart → TopPart → Prop
  | other {t ts nameSpace?} : Commented (.other t ts nameSpace?) (.other t ts nameSpace?)
  | skipped {t front body body' back} : Php.Commented body body' →
      Commented (.skipped t front body back) (.skipped t front body' back)
  | ofClass {word front decl members members' close} :
      List.Forall₂ MemberPart.Commented members members' →
      Commented (.ofClass ⟨word, front, decl, members, close⟩)
        (.ofClass ⟨word, front, decl, members', close⟩)

end TopPart

/-- A file as the runs where comments may be inserted, and the tokens around them. -/
abbrev Outline := List TopPart

namespace Outline

def tokens (o : Outline) : List Token := o.flatMap TopPart.tokens

/-- What stands in front of `=`, from the word `const` or the last comma on. -/
def heads (o : Outline) : List (List Token) := o.flatMap TopPart.heads

def declarations (o : Outline) : List Declaration := o.filterMap TopPart.declaration?

/-- What the file declares. -/
def classFile (o : Outline) : ClassFile := .ofDeclarations o.declarations

/-- The file with documentation comments in its statements of constants and in its bodies. -/
def Commented (o o' : Outline) : Prop := List.Forall₂ TopPart.Commented o o'

theorem head?_tokens {o o' : Outline} (h : o.Commented o') : o'.tokens.head? = o.tokens.head? := by
  cases h with
  | nil => rfl
  | cons hpart => cases hpart <;> rfl

end Outline

/-- The tokens have an outline that makes these declarations, and with comments it makes its own. -/
def HasOutline (before ts : List Token) (ds : List Declaration) : Prop :=
  ∃ o : Outline, ts = o.tokens ∧ ds = o.declarations ∧ ∀ o', o.Commented o' → ∀ eof,
    Verdict o.heads o'.heads o'.declarations (readDeclarations eof before o'.tokens)

namespace HasOutline

variable {before : List Token} {ds : List Declaration}

theorem nil (before : List Token) : HasOutline before [] [] := by
  refine ⟨[], rfl, rfl, ?_⟩
  rintro _ ⟨⟩ eof
  exact .of_ok (by rw [Outline.tokens, List.flatMap_nil, readDeclarations]; rfl)

/-- In front of an outline, a step that makes no class. It may have looked at the next token. -/
theorem step {after rest : List Token} (taken : List Token) (nameSpace? : Option String)
    (hstep : Step before taken rest.head? (nameSpace?.map .nameSpace) after) (hne : taken ≠ [])
    (h : HasOutline after rest ds) :
    HasOutline before (taken ++ rest) ((nameSpace?.map Declaration.nameSpace).toList ++ ds) := by
  obtain ⟨o, rfl, rfl, ho⟩ := h
  obtain ⟨t, taken, rfl⟩ := List.exists_cons_of_ne_nil hne
  refine ⟨.other t taken nameSpace? :: o, rfl, ?_, ?_⟩
  · cases nameSpace? <;> rfl
  rintro _ (_ | ⟨_ | _ | _, hrest⟩) eof
  rename_i o'
  have hverdict := (ho o' hrest eof).map ((nameSpace?.map Declaration.nameSpace).toList ++ ·)
  rw [← hstep.goesOn eof _ fun _ => Outline.head?_tokens hrest] at hverdict
  cases nameSpace? <;> exact hverdict

/-- In front of an outline, a token that is stepped over for what comes next. -/
theorem word {t : Token} {rest : List Token} (hb : before.head?.any Token.selectsMember = false)
    (hf : t.isName "function" = false)
    (hs : (∀ next ∈ rest.head?, next.name? = none) ∨ (t.isName "namespace" = false ∧
      t.isName "class" = false ∧ t.opensOther = false))
    (h : HasOutline (t :: before) rest ds) : HasOutline before (t :: rest) ds :=
  step [t] none (.skip (fun _ _ hhead =>
    Written.readDeclarations_skip hb hf (by rwa [hhead])) fun _ => readDeclarations_one hf)
    (List.cons_ne_nil t []) h

/-- In front of an outline, what is stepped over with its body. -/
theorem skipped {t : Token} {front body rest : List Token} (back : List Token)
    (hgoes : ∀ body', Commented body body' → ∀ eof us,
      readDeclarations eof before (t :: (front ++ (body' ++ (back ++ us)))) =
        readDeclarations eof [] us)
    (h : HasOutline [] rest ds) :
    HasOutline before (t :: (front ++ (body ++ (back ++ rest)))) ds := by
  obtain ⟨o, rfl, rfl, ho⟩ := h
  have htokens : ∀ body (o : Outline), Outline.tokens (.skipped t front body back :: o) =
      t :: (front ++ (body ++ (back ++ o.tokens))) := fun body o => by
    simp [Outline.tokens, TopPart.tokens]
  refine ⟨.skipped t front body back :: o, (htokens body o).symm, rfl, ?_⟩
  rintro _ (_ | ⟨_ | hbody | _, hrest⟩) eof
  rename_i o' body'
  rw [htokens, hgoes body' hbody]
  exact ho o' hrest eof

/-- In front of an outline, a class. -/
theorem classDecl {name : String} {word next : Token} {ts rest : List Token} {eof : Nat}
    {c : ClassDecl} (hb : before.head?.any Token.selectsMember = false)
    (hf : word.isName "function" = false) (hn : next.name? = some name)
    (hns : word.isName "namespace" = false) (hword : word.isName "class" = true)
    (hc : readClass eof (isAbstractAfter before) word.line (next :: ts) = .ok (c, rest))
    (h : HasOutline [] rest ds) : HasOutline before (word :: next :: ts) (.classDecl c :: ds) := by
  obtain ⟨o, rfl, rfl, ho⟩ := h
  obtain ⟨front, members, close, hts, hhead, hmembers, hread⟩ := readClass_commented hc
  obtain ⟨front, rfl⟩ := List.head?_eq_some_iff.1 hhead
  have htokens : ∀ members (o : Outline),
      Outline.tokens (.ofClass ⟨word, next :: front, c, members, close⟩ :: o) = word :: next ::
        (front ++ (members.flatMap MemberPart.tokens ++ close :: o.tokens)) := fun members o => by
    simp [Outline.tokens, TopPart.tokens, ClassPart.tokens]
  refine ⟨.ofClass ⟨word, next :: front, c, members, close⟩ :: o, ?_, ?_, ?_⟩
  · rw [hts, htokens, List.cons_append]
  · rw [hmembers]
    rfl
  rintro _ (_ | ⟨_ | _ | hrel, hrest⟩) eof
  rename_i o' members'
  rw [htokens, Written.readDeclarations_named hb hf hn, if_neg (by simp [hns]), if_pos hword]
  exact (hread _ hrel eof _).bind ((ho o' hrest eof).map _) (length_heads hrel)

end HasOutline

/-- Every run of declarations that is read has an outline. -/
theorem hasOutline {eof : Nat} {before ts : List Token} {ds : List Declaration}
    (h : readDeclarations eof before ts = .ok ds) : HasOutline before ts ds := by
  -- one case for each step of the top level, and one for a reader failing
  fun_induction readDeclarations eof before ts generalizing ds with
  | case1 before =>
    cases h
    exact .nil before
  | case2 before t ts hb ih =>
    have hmember : ∀ e us, readDeclarations e before (t :: us) =
        readDeclarations e (t :: before) us := fun e us => by
      rw [readDeclarations.eq_def]
      exact if_pos hb
    exact .step [t] none (.skip (fun e us _ => hmember e us) fun e => by
      rw [hmember, readDeclarations]) (List.cons_ne_nil t []) (ih h)
  | case3 => cases h
  | case4 before t ts hb hf body? rest hr ih =>
    obtain ⟨front, back, rfl, hread⟩ := readFunction_commented hr
    have hgoes : ∀ body?', Option.Rel Commented body? body?' → ∀ e us,
        readDeclarations e before (t :: (front ++ (body?'.getD [] ++ (back ++ us)))) =
          readDeclarations e [] us := fun body?' hbody e us => by
      rw [Written.readDeclarations_tail (by simpa using hb) hf, hread body?' hbody]
      rfl
    cases body? with
    | some body => exact .skipped back (fun body' hbody => hgoes (some body') (.some hbody)) (ih h)
    | none =>
      obtain ⟨taken, hts, hne, hstep⟩ := exists_step_function (by simpa using hb) hf hr
      rw [hts]
      exact .step taken none hstep hne (ih h)
  | case5 before t hb hf =>
    cases h
    exact .word (by simpa using hb) (by simpa using hf) (.inl (by simp)) (.nil (t :: before))
  | case6 before t hb hf next rest hn ih =>
    exact .word (by simpa using hb) (by simpa using hf) (.inl (by simpa using hn)) (ih h)
  | case7 before t hb hf next rest name hn hns ih =>
    obtain ⟨ds, hds, rfl⟩ := map_eq_ok h
    exact .step [t, next] (some _) (.nameSpace (by simpa using hb) (by simpa using hf) hn hns)
      (List.cons_ne_nil t [next]) (ih hds)
  | case8 before t hb hf next rest name hn hns hc e hr =>
    split at h
    · cases h
    · rename_i hr'
      cases hr.symm.trans hr'
  | case9 before t hb hf next ts name hn hns hc c rest hr ih =>
    split at h
    · cases h
    rename_i hr'
    cases hr.symm.trans hr'
    obtain ⟨ds, hds, rfl⟩ := map_eq_ok h
    exact .classDecl (by simpa using hb) (by simpa using hf) hn (by simpa using hns) hc hr (ih hds)
  | case10 before t hb hf next rest name hn hns hc ho e hr =>
    split at h
    · cases h
    · rename_i hr'
      cases hr.symm.trans hr'
  | case11 before t hb hf next ts name hn hns hc ho rest hr ih =>
    split at h
    · cases h
    rename_i hr'
    cases hr.symm.trans hr'
    obtain ⟨front, body, close, hts, hhead, hread⟩ := skipToBlock_commented hr
    obtain ⟨front, rfl⟩ := List.head?_eq_some_iff.1 hhead
    rw [hts]
    refine .skipped [close] (fun body' hbody e us => ?_) (ih h)
    have hskip := hread body' hbody e us
    rw [List.cons_append] at hskip
    rw [List.cons_append, Written.readDeclarations_named (by simpa using hb) (by simpa using hf) hn,
      if_neg hns, if_neg hc, if_pos ho, List.singleton_append, hskip]
    rfl
  | case12 before t hb hf next rest name hn hns hc ho ih =>
    exact .word (by simpa using hb) (by simpa using hf) (.inr (by simp_all)) (ih h)

/-! ## What an outline declares -/

/-- The namespace that a part declares. -/
def TopPart.nameSpace? : TopPart → Option String
  | other _ _ nameSpace? => nameSpace?
  | _ => none

/-- The class that a part declares. -/
def TopPart.class? : TopPart → Option ClassDecl
  | ofClass p => some p.classDecl
  | _ => none

theorem Outline.classFile_eq (o : Outline) : o.classFile =
    ⟨(o.filterMap TopPart.nameSpace?).getLast?, o.filterMap TopPart.class?⟩ := by
  rw [classFile, ClassFile.ofDeclarations, declarations, List.filterMap_filterMap,
    List.filterMap_filterMap]
  congr
  · funext part
    cases part with
    | other t ts nameSpace? => cases nameSpace? <;> rfl
    | _ => rfl
  · funext part
    cases part with
    | other t ts nameSpace? => cases nameSpace? <;> rfl
    | _ => rfl

namespace Outline.Commented

variable {o o' : Outline} (h : o.Commented o')
include h

/-- Comments change no namespace. -/
theorem nameSpace? : o'.classFile.nameSpace? = o.classFile.nameSpace? := by
  rw [classFile_eq, classFile_eq]
  refine congrArg List.getLast? ?_
  induction h with
  | nil => rfl
  | cons hpart _ ih =>
    rw [List.filterMap_cons, List.filterMap_cons, ih]
    cases hpart <;> rfl

/-- The classes are the same ones, with the comments in them. -/
theorem classes :
    List.Forall₂ ClassDecl.Commented o.classFile.classes o'.classFile.classes := by
  rw [classFile_eq, classFile_eq]
  refine List.rel_filterMap (fun part part' hpart => ?_) h
  cases hpart with
  | other | skipped => exact .none
  | ofClass hmembers => exact .some (ClassDecl.withMembers_commented _ hmembers)

end Outline.Commented

theorem length_memberHeads (parts : List MemberPart) :
    (parts.flatMap MemberPart.heads).length = (Members.ofParts parts).constants.length := by
  refine (List.length_flatMap ..).trans (Eq.trans ?_ (List.length_flatMap ..).symm)
  refine congrArg List.sum (List.map_congr_left fun part _ => ?_)
  cases part <;> simp [MemberPart.heads, MemberPart.constantDecls]

/-- There is one head for each constant. -/
theorem Outline.length_heads (o : Outline) :
    o.heads.length = (o.classFile.classes.flatMap ClassDecl.constants).length := by
  rw [classFile_eq]
  induction o with
  | nil => rfl
  | cons part o ih =>
    cases part with
    | other | skipped => exact ih
    | ofClass p =>
      refine (List.length_append ..).trans (Eq.trans ?_ (List.length_append ..).symm)
      exact congrArg₂ (· + ·) (length_memberHeads p.members) ih

/-! ## All insertions -/

theorem forall₂_append_left {α β : Type} {R : α → β → Prop} {as as' : List α} {bs : List β}
    (h : List.Forall₂ R (as ++ as') bs) :
    ∃ bs₁ bs₂, bs = bs₁ ++ bs₂ ∧ List.Forall₂ R as bs₁ ∧ List.Forall₂ R as' bs₂ := by
  induction as generalizing bs with
  | nil => exact ⟨[], bs, rfl, .nil, h⟩
  | cons a as ih =>
    cases h with
    | cons hab h =>
      obtain ⟨bs₁, bs₂, rfl, h₁, h₂⟩ := ih h
      exact ⟨_ :: bs₁, bs₂, rfl, .cons hab h₁, h₂⟩

/-- Comments may be inserted into each head and into each value of a statement. -/
theorem exists_commented_constants {parts : List ConstantPart} {heads : List (List Token)}
    {decls : List ConstantDecl} (hh : List.Forall₂ Commented (parts.map ConstantPart.head) heads)
    (hd : List.Forall₂ ConstantDecl.Commented (parts.map ConstantPart.decl) decls) :
    ∃ parts', List.Forall₂ ConstantPart.Commented parts parts' ∧
      parts'.map ConstantPart.head = heads ∧ parts'.map ConstantPart.decl = decls := by
  induction parts generalizing heads decls with
  | nil =>
    cases hh
    cases hd
    exact ⟨[], .nil, rfl, rfl⟩
  | cons part parts ih =>
    obtain ⟨head, heads, hhead, hheads, rfl⟩ := List.forall₂_cons_left_iff.1 hh
    obtain ⟨decl, decls, hdecl, hdecls, rfl⟩ := List.forall₂_cons_left_iff.1 hd
    obtain ⟨parts', hparts, rfl, rfl⟩ := ih hheads hdecls
    exact ⟨⟨head, part.equals, part.isEquals, decl, part.stop⟩ :: parts',
      .cons ⟨hhead, hdecl⟩ hparts, rfl, rfl⟩

/-- Comments may be inserted into each head, each value and each body of a class. -/
theorem exists_commented_members {parts : List MemberPart} {heads : List (List Token)}
    (hh : List.Forall₂ Commented (parts.flatMap MemberPart.heads) heads) (members : Members)
    (hd : List.Forall₂ ConstantDecl.Commented (Members.ofParts parts).constants members.constants)
    (hm : List.Forall₂ MethodDecl.Commented (Members.ofParts parts).methods members.methods) :
    ∃ parts', List.Forall₂ MemberPart.Commented parts parts' ∧
      parts'.flatMap MemberPart.heads = heads ∧ Members.ofParts parts' = members := by
  obtain ⟨decls, methods⟩ := members
  induction parts generalizing heads decls methods with
  | nil =>
    cases hh
    cases hd
    cases hm
    exact ⟨[], .nil, rfl, rfl⟩
  | cons part parts ih =>
    cases part with
    | other t ts =>
      obtain ⟨parts', hparts, rfl, hmembers⟩ := ih hh decls methods hd hm
      exact ⟨.other t ts :: parts', .cons .other hparts, rfl, hmembers⟩
    | constants word isConst statement =>
      obtain ⟨heads₁, heads₂, rfl, hh₁, hh₂⟩ := forall₂_append_left hh
      obtain ⟨decls₁, decls₂, rfl, hd₁, hd₂⟩ := forall₂_append_left hd
      obtain ⟨statement', hstatement, rfl, rfl⟩ := exists_commented_constants hh₁ hd₁
      obtain ⟨parts', hparts, rfl, hmembers⟩ := ih hh₂ decls₂ methods hd₂ hm
      obtain ⟨rfl, rfl⟩ := Members.mk.inj hmembers
      exact ⟨.constants word isConst statement' :: parts', .cons (.constants hstatement) hparts,
        rfl, rfl⟩
    | method word front m back =>
      obtain ⟨m', methods, hmethod, hmethods, rfl⟩ := List.forall₂_cons_left_iff.1 hm
      obtain ⟨parts', hparts, rfl, hmembers⟩ := ih hh decls methods hd hmethods
      obtain ⟨rfl, rfl⟩ := Members.mk.inj hmembers
      exact ⟨.method word front m' back :: parts', .cons (.method hmethod) hparts, rfl, rfl⟩

/-- **Comments may be inserted into each head, each value and each body of a file.** -/
theorem Outline.exists_commented {o : Outline} {heads : List (List Token)}
    {classes : List ClassDecl} (hh : List.Forall₂ Php.Commented o.heads heads)
    (hc : List.Forall₂ ClassDecl.Commented o.classFile.classes classes) :
    ∃ o', o.Commented o' ∧ o'.heads = heads ∧ o'.classFile.classes = classes := by
  simp only [classFile_eq] at hc ⊢
  induction o generalizing heads classes with
  | nil =>
    cases hh
    cases hc
    exact ⟨[], .nil, rfl, rfl⟩
  | cons part o ih =>
    cases part with
    | other t ts nameSpace? =>
      obtain ⟨o', ho, rfl, rfl⟩ := ih hh hc
      exact ⟨.other t ts nameSpace? :: o', .cons .other ho, rfl, rfl⟩
    | skipped t front body back =>
      obtain ⟨o', ho, rfl, rfl⟩ := ih hh hc
      exact ⟨.skipped t front body back :: o', .cons (.skipped (.refl body)) ho, rfl, rfl⟩
    | ofClass p =>
      obtain ⟨heads₁, heads₂, rfl, hh₁, hh₂⟩ := forall₂_append_left hh
      obtain ⟨c, classes, hclass, hclasses, rfl⟩ := List.forall₂_cons_left_iff.1 hc
      obtain ⟨members', hmembers, rfl, hdecl⟩ :=
        exists_commented_members hh₁ ⟨c.constants, c.methods⟩ hclass.constants hclass.methods
      obtain ⟨o', ho, rfl, rfl⟩ := ih hh₂ hclasses
      refine ⟨.ofClass { p with members := members' } :: o', .cons (.ofClass hmembers) ho, rfl, ?_⟩
      refine congrArg (· :: _) ?_
      rw [hclass.same, ← hdecl]
      rfl

/-- The outline is that of a file, and leaves out no place for comments: there is a head for each
    constant, and comments may be inserted into any heads, values and bodies. -/
structure Outline.Describes (o : Outline) (ts : List Token) (f : ClassFile) : Prop where
  tokens : o.tokens = ts
  classFile : o.classFile = f
  heads : o.heads.length = (f.classes.flatMap ClassDecl.constants).length
  commented : ∀ {heads classes}, List.Forall₂ Php.Commented o.heads heads →
    List.Forall₂ ClassDecl.Commented f.classes classes →
    ∃ o', o.Commented o' ∧ o'.heads = heads ∧ o'.classFile.classes = classes

/-- **Every file that is read has an outline.** With a comment in front of an equals sign the file
    is refused, and otherwise it is read as what its outline declares then. -/
theorem exists_outline {ts : List Token} {f : ClassFile} (h : ClassFile.ofTokens ts = .ok f) :
    ∃ o : Outline, o.Describes ts f ∧ ∀ o', o.Commented o' →
      Verdict o.heads o'.heads o'.classFile (ClassFile.ofTokens o'.tokens) := by
  obtain ⟨ds, hds, rfl⟩ := map_eq_ok h
  obtain ⟨o, rfl, rfl, ho⟩ := hasOutline hds
  exact ⟨o, ⟨rfl, rfl, o.length_heads, Outline.exists_commented⟩,
    fun o' hcommented => (ho o' hcommented _).map _⟩

end PhpSharp.Php
