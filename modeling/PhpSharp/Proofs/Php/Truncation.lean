/-
  Files that are cut off.

  What a reader takes does not depend on what stands behind it: where it finds an end, it finds the
  same end whatever follows (`IsLocal`). The top level of a file is read in steps that are local
  but for one token of lookahead (`Step`). So a file that is cut inside a class is refused, and one
  that is read although it is cut makes the first of the classes that the whole file makes
  (`ofTokens_truncated`).
-/
import PhpSharp.Proofs.Php.RoundTrip

namespace PhpSharp.Php

/-! ## Local readers -/

section
variable {ε α : Type} {read : ε → List Token → Parsed α}

/-- Before any tokens the reader takes exactly these, and what it gives is `v`. -/
def Takes (read : ε → List Token → Parsed α) (taken : List Token) (v : α) : Prop :=
  ∀ e rest, read e (taken ++ rest) = .ok (v, rest)

/-- Where the reader comes to an end, it has not looked any further. -/
def IsLocal (read : ε → List Token → Parsed α) : Prop :=
  ∀ {e ts v rest}, read e ts = .ok (v, rest) → ∃ taken, ts = taken ++ rest ∧ Takes read taken v

/-- A local reader that comes to an end in a part of what it takes has all of it. -/
theorem Takes.of_prefix {taken p rest : List Token} {v w : α} {e : ε} (h : Takes read taken v)
    (hl : IsLocal read) (hp : p <+: taken) (hr : read e p = .ok (w, rest)) :
    p = taken ∧ rest = [] ∧ w = v := by
  obtain ⟨q, rfl, hq⟩ := hl hr
  obtain ⟨s, rfl⟩ := hp
  have hall := h e []
  rw [List.append_nil, List.append_assoc, hq e (rest ++ s)] at hall
  obtain ⟨rfl, hnil⟩ := Prod.mk.inj (Except.ok.inj hall)
  obtain ⟨rfl, rfl⟩ := List.append_eq_nil_iff.1 hnil
  exact ⟨(List.append_nil _).symm, rfl, rfl⟩

end

theorem isLocal_closeBlock (inner : Bracket) (outer : List Bracket) :
    IsLocal fun unclosed => closeBlock unclosed inner outer := by
  intro unclosed ts body rest h
  dsimp only at h
  induction ts generalizing inner outer body with
  | nil => cases h
  | cons t ts ih =>
    unfold closeBlock at h
    split at h
    · rename_i b _ ho
      obtain ⟨body, hb, rfl⟩ := Parsed.push_eq_ok h
      obtain ⟨taken, rfl, ht⟩ := ih _ _ hb
      exact ⟨t :: taken, rfl, fun e rest => by
        simp [closeBlock, ho, ht e rest, Parsed.push, Except.map]⟩
    · rename_i ho hc
      obtain ⟨body, hb, rfl⟩ := Parsed.push_eq_ok h
      obtain ⟨taken, rfl, ht⟩ := ih _ _ hb
      exact ⟨t :: taken, rfl, fun e rest => by
        simp [closeBlock, ho, hc, ht e rest, Parsed.push, Except.map]⟩
    · rename_i b ho hc
      split at h
      · cases h
      rename_i hb
      split at h
      · cases h
        exact ⟨[t], rfl, fun e rest => by simp [closeBlock, ho, hc, hb]⟩
      · obtain ⟨body, hbody, rfl⟩ := Parsed.push_eq_ok h
        obtain ⟨taken, rfl, ht⟩ := ih _ _ hbody
        exact ⟨t :: taken, rfl, fun e rest => by
          simp [closeBlock, ho, hc, hb, ht e rest, Parsed.push, Except.map]⟩

/-- A block takes its opening bracket and the tokens up to its closing one. -/
theorem takes_readBlock {eof : Nat} {t : Token} {ts body rest : List Token}
    (h : readBlock eof (t :: ts) = .ok (body, rest)) :
    ∃ taken, ts = taken ++ rest ∧ Takes readBlock (t :: taken) body := by
  rw [readBlock] at h
  split at h
  · rename_i b ho
    obtain ⟨taken, rfl, ht⟩ := isLocal_closeBlock b [] h
    exact ⟨taken, rfl, fun e rest => by simp [readBlock, ho, ht _ rest]⟩
  · cases h

theorem isLocal_readConstantName (last? : Option (String × Nat)) :
    IsLocal fun eof => readConstantName eof last? := by
  intro eof ts name rest h
  dsimp only at h
  induction ts generalizing last? with
  | nil => cases last? <;> cases h
  | cons t ts ih =>
    unfold readConstantName at h
    split at h
    · rename_i heq
      split at h
      · cases h
      · cases h
        exact ⟨[t], rfl, fun e rest => by simp [readConstantName, heq]⟩
    rename_i heq
    split at h
    · rename_i name hname
      obtain ⟨taken, rfl, ht⟩ := ih _ h
      exact ⟨t :: taken, rfl, fun e rest => by simp [readConstantName, heq, hname, ht e rest]⟩
    rename_i hname
    split at h
    · rename_i htype
      obtain ⟨taken, rfl, ht⟩ := ih _ h
      refine ⟨t :: taken, rfl, fun e rest => ?_⟩
      simp only [List.cons_append, readConstantName, heq, hname, htype, if_true]
      exact ht e rest
    · cases h

theorem isLocal_readConstantValue (depth : Nat) :
    IsLocal fun unterminated => readConstantValue unterminated depth := by
  intro unterminated ts value rest h
  dsimp only at h
  induction ts generalizing depth value with
  | nil => cases h
  | cons t ts ih =>
    rw [readConstantValue] at h
    split at h
    · rename_i hstop
      cases h
      exact ⟨[t], rfl, fun e rest => if_pos hstop⟩
    · rename_i hstop
      obtain ⟨⟨v, r⟩, hv, he⟩ := map_eq_ok h
      cases he
      obtain ⟨taken, rfl, ht⟩ := ih _ hv
      refine ⟨t :: taken, rfl, fun e rest => ?_⟩
      show readConstantValue e depth (t :: (taken ++ rest)) = _
      rw [readConstantValue, if_neg hstop]
      simp only [ht e rest]
      rfl

theorem isLocal_readConstants : IsLocal readConstants := by
  intro eof ts constants rest h
  fun_induction readConstants eof ts generalizing constants with
  | case1 => cases h
  | case2 => cases h
  | case3 => cases h
  | case4 ts name line afterName hn value rest' hne hv ih =>
    obtain ⟨⟨_, r⟩, hr, he⟩ := map_eq_ok h
    cases he
    obtain ⟨named, rfl, hnamed⟩ := isLocal_readConstantName none hn
    obtain ⟨valued, rfl, hvalued⟩ := isLocal_readConstantValue 0 hv
    obtain ⟨taken, rfl, ht⟩ := ih hr
    refine ⟨named ++ (valued ++ taken), by simp, fun e rest => ?_⟩
    rw [List.append_assoc, List.append_assoc,
      Written.readConstants_step (hnamed e _) (hvalued _ _) hne, ht e rest]
    rfl
  | case5 ts name line afterName hn value more rest hv hne hmore =>
    cases h
    obtain ⟨named, rfl, hnamed⟩ := isLocal_readConstantName none hn
    obtain ⟨valued, rfl, hvalued⟩ := isLocal_readConstantValue 0 hv
    refine ⟨named ++ valued, by simp, fun e rest => ?_⟩
    rw [List.append_assoc, Written.readConstants_step (hnamed e _) (hvalued _ _) hne, if_neg hmore]

theorem readFunctionBody_parentheses {eof : Nat} {t : Token} {ts body rest : List Token}
    (hbrace : t.isPunctuation '{' = false) (hstop : t.isPunctuation ';' = false)
    (hopen : t.isPunctuation '(' = true) (h : readBlock eof (t :: ts) = .ok (body, rest)) :
    readFunctionBody eof (t :: ts) = readFunctionBody eof rest := by
  rw [readFunctionBody]
  simp only [hbrace, hstop, hopen, Bool.false_eq_true, if_false, if_true]
  split
  · rename_i h'
    cases h.symm.trans h'
  · rename_i h'
    cases h.symm.trans h'
    rfl

theorem isLocal_readFunctionBody : IsLocal readFunctionBody := by
  intro eof ts body? rest h
  fun_induction readFunctionBody eof ts with
  | case1 => cases h
  | case2 t ts hbrace =>
    obtain ⟨⟨body, r⟩, hb, he⟩ := map_eq_ok h
    cases he
    obtain ⟨taken, rfl, ht⟩ := takes_readBlock hb
    refine ⟨t :: taken, rfl, fun e rest => ?_⟩
    rw [List.cons_append, readFunctionBody, if_pos hbrace, ← List.cons_append, ht e rest]
    rfl
  | case3 t ts hbrace hstop =>
    cases h
    refine ⟨[t], rfl, fun e rest => ?_⟩
    rw [List.singleton_append, readFunctionBody, if_neg hbrace, if_pos hstop]
  | case4 => cases h
  | case5 t ts hbrace hstop hopen _ after hb ih =>
    obtain ⟨block, rfl, hblock⟩ := takes_readBlock hb
    obtain ⟨taken, rfl, ht⟩ := ih h
    refine ⟨t :: (block ++ taken), by simp, fun e rest => ?_⟩
    have hb := hblock e (taken ++ rest)
    rw [List.cons_append, ← List.append_assoc] at hb
    rw [List.cons_append,
      readFunctionBody_parentheses (by simpa using hbrace) (by simpa using hstop) hopen hb,
      ht e rest]
  | case6 t ts hbrace hstop hopen ih =>
    obtain ⟨taken, rfl, ht⟩ := ih h
    refine ⟨t :: taken, rfl, fun e rest => ?_⟩
    rw [List.cons_append, Written.readFunctionBody_step (by simp_all), ht e rest]

theorem readFunction_parameters {eof : Nat} {before ts parameters rest : List Token} {t : Token}
    (hbefore : ∀ t ∈ before, t.isPunctuation '(' = false) (hopen : t.isPunctuation '(' = true)
    (h : readBlock eof (t :: ts) = .ok (parameters, rest)) :
    readFunction eof (before ++ t :: ts) = readFunctionBody eof rest := by
  rw [readFunction, List.dropWhile_append_of_pos (by simpa using hbefore),
    List.dropWhile_cons_of_neg (by simp [hopen])]
  simp only [h]

/-- In front of its body a function is stepped over, whatever its body is. -/
theorem readFunction_eq_ok {eof : Nat} {ts rest : List Token} {body? : Option (List Token)}
    (h : readFunction eof ts = .ok (body?, rest)) :
    ∃ front after, ts = front ++ after ∧ readFunctionBody eof after = .ok (body?, rest) ∧
      ∀ e after', readFunction e (front ++ after') = readFunctionBody e after' := by
  obtain ⟨before, hbefore, hsplit⟩ : ∃ before : List Token,
      (∀ t ∈ before, t.isPunctuation '(' = false) ∧
        ts = before ++ ts.dropWhile fun t => !t.isPunctuation '(' := by
    refine ⟨_, fun t ht => ?_, List.takeWhile_append_dropWhile.symm⟩
    simpa using List.all_eq_true.1 List.all_takeWhile t ht
  have hhead := List.head?_dropWhile_not (fun t : Token => !t.isPunctuation '(') ts
  unfold readFunction at h
  split at h
  · rw [readFunctionBody] at h
    cases h
  · rename_i t after ht
    rw [ht] at hsplit hhead
    split at h
    · cases h
    · rename_i hb
      obtain ⟨block, rfl, hblock⟩ := takes_readBlock hb
      refine ⟨before ++ t :: block, _, by simp [hsplit], h, fun e after' => ?_⟩
      have hb := hblock e after'
      rw [List.cons_append] at hb
      rw [List.append_assoc, List.cons_append,
        readFunction_parameters hbefore (by simpa using hhead) hb]

theorem isLocal_readFunction : IsLocal readFunction := by
  intro eof ts body? rest h
  obtain ⟨front, after, rfl, hbody, hfront⟩ := readFunction_eq_ok h
  obtain ⟨taken, rfl, ht⟩ := isLocal_readFunctionBody hbody
  refine ⟨front ++ taken, (List.append_assoc ..).symm, fun e rest => ?_⟩
  rw [List.append_assoc, hfront, ht e rest]

theorem expectName_eq_ok {eof : Nat} {role : NameRole} {ts rest : List Token} {name : String × Nat}
    (h : expectName eof role ts = .ok (name, rest)) :
    ∃ t, ts = t :: rest ∧ t.name? = some name.1 ∧
      ∀ e rest, expectName e role (t :: rest) = .ok (name, rest) := by
  cases ts with
  | nil => cases h
  | cons t ts =>
    rw [expectName] at h
    split at h
    · rename_i hname
      cases h
      exact ⟨t, rfl, hname, fun e rest => by simp [expectName, hname]⟩
    · cases h

theorem Token.isPunctuation_of_name? {t : Token} {text : String} (h : t.name? = some text)
    (c : Char) : t.isPunctuation c = false := by
  unfold Token.name? at h
  split at h
  · rename_i hkind
    simp [Token.isPunctuation, hkind]
  · cases h

/-- A reference is nothing or an ampersand, whatever follows the name behind it. -/
theorem exists_dropReference {ts rest : List Token} {t : Token}
    (hplain : t.isPunctuation '&' = false) (h : dropReference ts = t :: rest) :
    ∃ reference, ts = reference ++ t :: rest ∧
      ∀ rest, dropReference (reference ++ t :: rest) = t :: rest := by
  cases ts with
  | nil => cases h
  | cons u ts =>
    by_cases hu : u.isPunctuation '&' = true
    · have htail : ts = t :: rest := by simpa [dropReference, hu] using h
      exact ⟨[u], by simp [htail], fun rest => by simp [dropReference, hu]⟩
    · have hall : u :: ts = t :: rest := by simpa [dropReference, hu] using h
      exact ⟨[], by simp [hall], fun rest => by simp [dropReference, hplain]⟩

/-! ## Members -/

theorem isLocal_readMethod (pending : Pending) : IsLocal fun eof => readMethod eof pending := by
  intro eof ts m rest h
  dsimp only [readMethod] at h
  split at h
  · cases h
  · rename_i hn
    obtain ⟨⟨body?, r⟩, hf, he⟩ := map_eq_ok h
    cases he
    obtain ⟨t, hts, hname, ht⟩ := expectName_eq_ok hn
    obtain ⟨taken, rfl, htaken⟩ := isLocal_readFunction hf
    obtain ⟨reference, rfl, hdrop⟩ :=
      exists_dropReference (Token.isPunctuation_of_name? hname _) hts
    refine ⟨reference ++ t :: taken, by simp, fun e rest => ?_⟩
    rw [List.append_assoc, List.cons_append]
    simp only [readMethod, hdrop, ht e, htaken e rest]
    rfl

/-- A statement that ends before something ends in the same place before all that starts alike. -/
theorem skipStatement_local {eof : Nat} {ts rest : List Token}
    (h : skipStatement eof ts = .ok rest) (hne : rest ≠ []) :
    ∃ taken, ts = taken ++ rest ∧
      ∀ e rest', rest'.head? = rest.head? → skipStatement e (taken ++ rest') = .ok rest' := by
  fun_induction skipStatement eof ts with
  | case1 =>
    cases h
    exact absurd rfl hne
  | case2 t ts hstop =>
    cases h
    refine ⟨[t], rfl, fun e rest' _ => ?_⟩
    rw [List.singleton_append, skipStatement, if_pos hstop]
  | case3 => cases h
  | case4 t ts hstop hopen _ after hb ih =>
    obtain ⟨block, rfl, hblock⟩ := takes_readBlock hb
    obtain ⟨taken, rfl, ht⟩ := ih h
    refine ⟨t :: (block ++ taken), by simp, fun e rest' hhead => ?_⟩
    have hb := hblock e (taken ++ rest')
    rw [List.cons_append, ← List.append_assoc] at hb
    rw [List.cons_append, skipStatement, if_neg hstop, if_pos hopen]
    split
    · rename_i hb'
      cases hb.symm.trans hb'
    · rename_i hb'
      cases hb.symm.trans hb'
      exact ht e rest' hhead
  | case5 t ts hstop hopen hclose =>
    cases h
    refine ⟨[], rfl, fun e rest' hhead => ?_⟩
    obtain ⟨rest', rfl⟩ := List.head?_eq_some_iff.1 hhead
    rw [List.nil_append, skipStatement, if_neg hstop, if_neg hopen, if_pos hclose]
  | case6 t ts hstop hopen hclose ih =>
    obtain ⟨taken, rfl, ht⟩ := ih h
    refine ⟨t :: taken, rfl, fun e rest' hhead => ?_⟩
    rw [List.cons_append, skipStatement, if_neg hstop, if_neg hopen, if_neg hclose,
      ht e rest' hhead]

theorem skipUse_local {eof : Nat} {ts rest : List Token} (h : skipUse eof ts = .ok rest)
    (hne : rest ≠ []) :
    ∃ taken, ts = taken ++ rest ∧ ∀ e rest', skipUse e (taken ++ rest') = .ok rest' := by
  induction ts with
  | nil =>
    cases h
    exact absurd rfl hne
  | cons t ts ih =>
    rw [skipUse] at h
    split at h
    · rename_i hstop
      cases h
      exact ⟨[t], rfl, fun e rest' => by simp [skipUse, hstop]⟩
    rename_i hstop
    split at h
    · rename_i hopen
      obtain ⟨⟨_, r⟩, hb, rfl⟩ := map_eq_ok h
      obtain ⟨block, rfl, hblock⟩ := takes_readBlock hb
      refine ⟨t :: block, rfl, fun e rest' => ?_⟩
      rw [List.cons_append, skipUse, if_neg hstop, if_pos hopen, ← List.cons_append, hblock e rest']
      rfl
    · rename_i hopen
      obtain ⟨taken, rfl, ht⟩ := ih h
      refine ⟨t :: taken, rfl, fun e rest' => ?_⟩
      rw [List.cons_append, skipUse, if_neg hstop, if_neg hopen, ht e rest']

/-- The members of a class take the tokens up to the brace that closes it. -/
theorem takes_readMembers {eof : Nat} {unclosed : SyntaxError} {pending : Pending}
    {ts rest : List Token} {members : Members}
    (h : readMembers eof unclosed pending ts = .ok (members, rest)) :
    ∃ taken close, ts = taken ++ close :: rest ∧ close.isPunctuation '}' = true ∧
      ∀ e unclosed' rest', readMembers e unclosed' pending (taken ++ close :: rest') =
        .ok (members, rest') := by
  -- one case for each kind of member, and one for its reader failing
  fun_induction readMembers eof unclosed pending ts generalizing members with
  | case1 => cases h
  | case2 pending t ts hclose =>
    cases h
    refine ⟨[], t, rfl, hclose, fun e unclosed' rest' => ?_⟩
    rw [List.nil_append, readMembers, dif_pos hclose]
  | case3 pending t ts hclose doc hdoc ih =>
    obtain ⟨taken, close, rfl, hc, ht⟩ := ih h
    refine ⟨t :: taken, close, rfl, hc, fun e unclosed' rest' => ?_⟩
    rw [List.cons_append, readMembers, dif_neg hclose]
    simp only [hdoc, ht e unclosed' rest']
  | case4 pending t ts hclose m hm hdoc ih =>
    obtain ⟨taken, close, rfl, hc, ht⟩ := ih h
    refine ⟨t :: taken, close, rfl, hc, fun e unclosed' rest' => ?_⟩
    rw [List.cons_append, readMembers, dif_neg hclose]
    split
    · exact absurd ‹t.kind = _› (hdoc _)
    · rename_i m' hm' _
      cases hm.symm.trans hm'
      exact ht e unclosed' rest'
    · rename_i hm' _
      cases hm.symm.trans hm'
  | case5 => cases h
  | case6 pending t ts hclose hm hconst constants after hread hdoc ih =>
    obtain ⟨⟨ms, r⟩, hr, he⟩ := map_eq_ok h
    cases he
    obtain ⟨member, rfl, hmember⟩ := isLocal_readConstants hread
    obtain ⟨taken, close, rfl, hc, ht⟩ := ih hr
    refine ⟨t :: (member ++ taken), close, by simp, hc, fun e unclosed' rest' => ?_⟩
    rw [List.cons_append, List.append_assoc,
      Written.readMembers_item (by simpa using hclose) hdoc hm, if_pos hconst, hmember e _]
    simp only [Except.bind, ht e unclosed' rest']
    rfl
  | case7 => cases h
  | case8 pending t ts hclose hm hconst hfunction m after hread hdoc ih =>
    obtain ⟨⟨ms, r⟩, hr, he⟩ := map_eq_ok h
    cases he
    obtain ⟨member, rfl, hmember⟩ := isLocal_readMethod pending hread
    obtain ⟨taken, close, rfl, hc, ht⟩ := ih hr
    refine ⟨t :: (member ++ taken), close, by simp, hc, fun e unclosed' rest' => ?_⟩
    rw [List.cons_append, List.append_assoc,
      Written.readMembers_item (by simpa using hclose) hdoc hm, if_neg hconst, if_pos hfunction]
    simp only [hmember e, Except.bind, ht e unclosed' rest']
    rfl
  | case9 => cases h
  | case10 pending t ts hclose hm hconst hfunction huse after hread hdoc ih =>
    obtain ⟨taken, close, rfl, hc, ht⟩ := ih h
    obtain ⟨member, rfl, hmember⟩ := skipUse_local hread (by simp)
    refine ⟨t :: (member ++ taken), close, by simp, hc, fun e unclosed' rest' => ?_⟩
    rw [List.cons_append, List.append_assoc,
      Written.readMembers_item (by simpa using hclose) hdoc hm, if_neg hconst, if_neg hfunction,
      if_pos huse, hmember e _]
    exact ht e unclosed' rest'
  | case11 => cases h
  | case12 pending t ts hclose hm hconst hfunction huse after hread hdoc ih =>
    have hshort := skipStatement_length (by simpa using hclose) hread
    obtain ⟨taken, close, rfl, hc, ht⟩ := ih h
    obtain ⟨member, hts, hmember⟩ := skipStatement_local hread (by simp)
    -- a statement that does not start with a brace is not empty
    obtain ⟨member, rfl⟩ : ∃ member', member = t :: member' := by
      cases member with
      | nil =>
        rw [List.nil_append] at hts
        rw [hts] at hshort
        exact absurd hshort (Nat.lt_irrefl _)
      | cons u member => exact ⟨member, by rw [List.cons_append] at hts; rw [(List.cons.inj hts).1]⟩
    obtain rfl := (List.cons.inj hts).2
    refine ⟨t :: (member ++ taken), close, by simp, hc, fun e unclosed' rest' => ?_⟩
    have hskip := hmember e (taken ++ close :: rest') (by cases taken <;> rfl)
    rw [List.cons_append] at hskip
    rw [List.cons_append, List.append_assoc,
      Written.readMembers_item (by simpa using hclose) hdoc hm, if_neg hconst, if_neg hfunction,
      if_neg huse, hskip]
    exact ht e unclosed' rest'

/-! ## Classes -/

theorem readHead_extends {eof : Nat} {name : String} {implementing : Bool}
    {parent : String × Nat} {t : Token} {ts rest : List Token}
    (hopen : ¬t.isPunctuation '{' = true) (hextends : t.isName "extends" = true)
    (hn : expectName eof .ofParent ts = .ok (parent, rest)) :
    readHead eof name implementing (t :: ts) =
      (readHead eof name false rest).map fun (head, rest) =>
        ({ head with parent? := head.parent?.or (some parent.1) }, rest) := by
  rw [readHead.eq_def]
  simp only [if_neg hopen, if_pos hextends]
  split
  · rename_i hn'
    cases hn.symm.trans hn'
  · rename_i hn'
    cases hn.symm.trans hn'
    rfl

theorem isLocal_readHead (name : String) (implementing : Bool) :
    IsLocal fun eof => readHead eof name implementing := by
  intro eof ts head rest h
  dsimp only at h
  fun_induction readHead eof name implementing ts generalizing head with
  | case1 => cases h
  | case2 implementing t ts hopen =>
    cases h
    refine ⟨[t], rfl, fun e rest => ?_⟩
    show readHead e name implementing (t :: rest) = _
    rw [readHead.eq_def]
    exact if_pos hopen
  | case3 => cases h
  | case4 implementing t ts hopen hextends parent _ after hn ih =>
    obtain ⟨⟨_, r⟩, hr, he⟩ := map_eq_ok h
    cases he
    obtain ⟨n, rfl, -, hname⟩ := expectName_eq_ok hn
    obtain ⟨taken, rfl, ht⟩ := ih hr
    refine ⟨t :: n :: taken, rfl, fun e rest => ?_⟩
    have htail : readHead e name false (taken ++ rest) = _ := ht e rest
    simp only [List.cons_append]
    rw [readHead_extends hopen hextends (hname e _), htail]
    rfl
  | case5 implementing t ts hopen hextends himplements ih =>
    obtain ⟨taken, rfl, ht⟩ := ih h
    refine ⟨t :: taken, rfl, fun e rest => ?_⟩
    show readHead e name implementing (t :: (taken ++ rest)) = _
    rw [readHead.eq_def]
    simp only [if_neg hopen, if_neg hextends, if_pos himplements]
    exact ht e rest
  | case6 t ts hopen hextends himplements interface hname ih =>
    obtain ⟨⟨_, r⟩, hr, he⟩ := map_eq_ok h
    cases he
    obtain ⟨taken, rfl, ht⟩ := ih hr
    refine ⟨t :: taken, rfl, fun e rest => ?_⟩
    show readHead e name true (t :: (taken ++ rest)) = _
    rw [readHead.eq_def]
    simp only [if_neg hopen, if_neg hextends, if_neg himplements, hname, ht e rest]
    rfl
  | case7 implementing t ts hopen hextends himplements hother ih =>
    obtain ⟨taken, rfl, ht⟩ := ih h
    refine ⟨t :: taken, rfl, fun e rest => ?_⟩
    show readHead e name implementing (t :: (taken ++ rest)) = _
    rw [readHead.eq_def]
    simp only [if_neg hopen, if_neg hextends, if_neg himplements]
    exact ht e rest

/-- The tokens of a class from its word to the brace that closes it. -/
def IsDeclaration (ts : List Token) (c : ClassDecl) : Prop :=
  ∃ word name body close, ts = word :: name :: (body ++ [close]) ∧
    word.isName "class" = true ∧ word.line = c.line ∧ name.name? = some c.name ∧
    close.isPunctuation '}' = true

/-- A class takes its name and the tokens up to the brace that closes it. -/
theorem takes_readClass {eof line : Nat} {isAbstract : Bool} {ts rest : List Token} {c : ClassDecl}
    (h : readClass eof isAbstract line ts = .ok (c, rest)) :
    ∃ name body close, ts = name :: (body ++ close :: rest) ∧ c.line = line ∧
      name.name? = some c.name ∧ close.isPunctuation '}' = true ∧
      Takes (fun eof => readClass eof isAbstract line) (name :: (body ++ [close])) c := by
  unfold readClass at h
  split at h
  · cases h
  · rename_i hn
    split at h
    · cases h
    · rename_i hh
      obtain ⟨⟨members, r⟩, hm, he⟩ := map_eq_ok h
      cases he
      obtain ⟨t, rfl, hname, ht⟩ := expectName_eq_ok hn
      obtain ⟨head, rfl, hhead⟩ := isLocal_readHead _ false hh
      obtain ⟨body, close, rfl, hclose, hbody⟩ := takes_readMembers hm
      refine ⟨t, head ++ body, close, by simp, rfl, hname, hclose, fun e rest => ?_⟩
      simp only [List.cons_append, List.append_assoc, List.nil_append, readClass, ht e, hhead e,
        hbody e]
      rfl

theorem isLocal_readClass (isAbstract : Bool) (line : Nat) :
    IsLocal fun eof => readClass eof isAbstract line := by
  intro eof ts c rest h
  obtain ⟨name, body, close, rfl, -, -, -, ht⟩ := takes_readClass h
  exact ⟨name :: (body ++ [close]), by simp, ht⟩

/-! ## The top level -/

/-- The block that is stepped over, as a reader that gives nothing. -/
def readToBlock (eof : Nat) (ts : List Token) : Parsed Unit :=
  (skipToBlock eof ts).map fun rest => ((), rest)

theorem isLocal_readToBlock : IsLocal readToBlock := by
  intro eof ts _ rest h
  obtain ⟨_, hskip, he⟩ := map_eq_ok h
  cases he
  clear h
  induction ts with
  | nil => cases hskip
  | cons t ts ih =>
    rw [skipToBlock] at hskip
    split at hskip
    · rename_i hopen
      obtain ⟨⟨_, r⟩, hb, rfl⟩ := map_eq_ok hskip
      obtain ⟨block, rfl, hblock⟩ := takes_readBlock hb
      refine ⟨t :: block, rfl, fun e rest => ?_⟩
      rw [List.cons_append, readToBlock, skipToBlock, if_pos hopen, ← List.cons_append,
        hblock e rest]
      rfl
    · rename_i hopen
      obtain ⟨taken, rfl, ht⟩ := ih hskip
      refine ⟨t :: taken, rfl, fun e rest => ?_⟩
      rw [List.cons_append, readToBlock, skipToBlock, if_neg hopen]
      exact ht e rest

/-- One step of the top level: it takes these tokens, may make a declaration and goes on after
    `after`. A step that makes none may have looked at the next token, `next?`. -/
structure Step (before taken : List Token) (next? : Option Token) (made : Option Declaration)
    (after : List Token) : Prop where
  goesOn : ∀ eof rest, (made = none → rest.head? = next?) →
    readDeclarations eof before (taken ++ rest) =
      (readDeclarations eof after rest).map (made.toList ++ ·)
  /-- A part of the tokens makes nothing else -/
  cut : ∀ eof p ds, p <+: taken → readDeclarations eof before p = .ok ds → ds <+: made.toList
  /-- A class is all there or not there at all, and refused if it is cut behind its name -/
  whole : ∀ c, made = some (.classDecl c) → IsDeclaration taken c ∧
    (∀ eof, readDeclarations eof before (taken.take 1) = .ok []) ∧
    ∀ eof n, 1 < n → n < taken.length → ∃ e, readDeclarations eof before (taken.take n) = .error e

section
variable {before : List Token} {t next : Token}

theorem readDeclarations_one {eof : Nat} (hf : t.isName "function" = false) :
    readDeclarations eof before [t] = .ok [] := by
  rw [readDeclarations.eq_def]
  simp only [hf]
  split
  · simp [readDeclarations]
  · rfl

theorem map_nothing (x : Except SyntaxError (List Declaration)) :
    x.map ((none : Option Declaration).toList ++ ·) = x := by
  cases x <;> rfl

theorem prefix_singleton {p : List Token} (h : p <+: [t]) : p = [] ∨ p = [t] := by
  obtain ⟨s, hs⟩ := h
  cases p with
  | nil => exact .inl rfl
  | cons u p => simp_all

theorem Step.skip {next? : Option Token}
    (h : ∀ eof rest, rest.head? = next? →
      readDeclarations eof before (t :: rest) = readDeclarations eof (t :: before) rest)
    (hone : ∀ eof, readDeclarations eof before [t] = .ok []) :
    Step before [t] next? none (t :: before) where
  goesOn eof rest hhead := by
    rw [List.singleton_append, h eof rest (hhead rfl)]
    cases readDeclarations eof (t :: before) rest <;> rfl
  cut eof p ds hp hds := by
    rcases prefix_singleton hp with rfl | rfl
    · rw [readDeclarations] at hds
      cases hds
      exact List.nil_prefix
    · cases (hone eof).symm.trans hds
      exact List.nil_prefix
  whole c hc := by cases hc

/-- A step that leaves what it takes to a local reader. -/
theorem Step.of_reader {α : Type} {read : Nat → List Token → Parsed α} {body : List Token} {v : α}
    {next? : Option Token} (hl : IsLocal read) (ht : Takes read (next :: body) v)
    (made : α → Option Declaration)
    (hread : ∀ eof ts, readDeclarations eof before (t :: next :: ts) =
      (read eof (next :: ts)).bind fun (v, rest) =>
        (readDeclarations eof [] rest).map ((made v).toList ++ ·))
    (hone : ∀ eof ds, readDeclarations eof before [t] = .ok ds → ds = [])
    (hwhole : ∀ c, made v = some (.classDecl c) → IsDeclaration (t :: next :: body) c ∧
      ∀ eof, readDeclarations eof before [t] = .ok []) :
    Step before (t :: next :: body) next? (made v) [] where
  goesOn eof rest _ := by
    have hv := ht eof rest
    rw [List.cons_append] at hv
    rw [List.cons_append, List.cons_append, hread, hv]
    rfl
  cut eof p ds hp hds := by
    rcases List.prefix_cons_iff.1 hp with rfl | ⟨p, rfl, hp'⟩
    · rw [readDeclarations] at hds
      cases hds
      exact List.nil_prefix
    rcases List.prefix_cons_iff.1 hp' with rfl | ⟨q, rfl, -⟩
    · rw [hone eof ds hds]
      exact List.nil_prefix
    rw [hread] at hds
    -- the reader is local: if it ends in a part of what it takes, the part is all of it
    cases hr : read eof (next :: q) with
    | error e =>
      rw [hr] at hds
      cases hds
    | ok r =>
      obtain ⟨-, hrest, hv⟩ := ht.of_prefix hl hp' hr
      rw [hr] at hds
      simp only [Except.bind, hrest, hv, readDeclarations] at hds
      cases hds
      simp
  whole c hc := by
    obtain ⟨hdeclaration, hword⟩ := hwhole c hc
    refine ⟨hdeclaration, hword, fun eof n hn hlen => ?_⟩
    obtain ⟨n, rfl⟩ : ∃ m, n = m + 2 := ⟨n - 2, by omega⟩
    have hlen : n < body.length := by simpa using hlen
    rw [List.take_succ_cons, List.take_succ_cons, hread]
    cases hr : read eof (next :: body.take n) with
    | error e => exact ⟨e, rfl⟩
    | ok r =>
      have hp : next :: body.take n <+: next :: body :=
        List.prefix_cons_iff.2 (.inr ⟨_, rfl, List.take_prefix n body⟩)
      have hall := congrArg List.length (ht.of_prefix hl hp hr).1
      simp at hall
      omega

theorem Step.nameSpace {name : String} {next? : Option Token}
    (hb : before.head?.any Token.selectsMember = false) (hf : t.isName "function" = false)
    (hn : next.name? = some name) (hns : t.isName "namespace" = true) :
    Step before [t, next] next?
      (some (.nameSpace (String.ofList (name.toList.dropWhile (· == '\\'))))) [next, t] where
  goesOn eof rest _ := by
    rw [List.cons_append, List.singleton_append, Written.readDeclarations_named hb hf hn,
      if_pos hns]
    rfl
  cut eof p ds hp hds := by
    rcases List.prefix_cons_iff.1 hp with rfl | ⟨p, rfl, hp'⟩
    · rw [readDeclarations] at hds
      cases hds
      exact List.nil_prefix
    rcases prefix_singleton hp' with rfl | rfl
    · cases (readDeclarations_one hf).symm.trans hds
      exact List.nil_prefix
    · rw [Written.readDeclarations_named hb hf hn, if_pos hns, readDeclarations] at hds
      cases hds
      exact List.prefix_rfl
  whole c hc := by cases hc

theorem exists_step_function {eof : Nat} {ts rest : List Token} {body? : Option (List Token)}
    (hb : before.head?.any Token.selectsMember = false) (hf : t.isName "function" = true)
    (h : readFunction eof ts = .ok (body?, rest)) :
    ∃ taken, t :: ts = taken ++ rest ∧ taken ≠ [] ∧ Step before taken rest.head? none [] := by
  have hnil : ∀ e, ∃ fault, readFunction e [] = .error fault := fun e =>
    ⟨_, by rw [readFunction, List.dropWhile_nil, readFunctionBody]⟩
  obtain ⟨taken, rfl, ht⟩ := isLocal_readFunction h
  cases taken with
  | nil =>
    obtain ⟨fault, he⟩ := hnil eof
    cases he.symm.trans (ht eof [])
  | cons next body =>
    refine ⟨t :: next :: body, rfl, by simp, ?_⟩
    refine .of_reader isLocal_readFunction ht (fun _ => none) (fun e ts => ?_) (fun e ds hds => ?_)
      (fun c hc => by cases hc)
    · simp only [Written.readDeclarations_tail hb hf, map_nothing]
    · obtain ⟨fault, he⟩ := hnil e
      rw [Written.readDeclarations_tail hb hf, he] at hds
      cases hds

theorem exists_step_other {eof : Nat} {name : String} {ts rest : List Token}
    (hb : before.head?.any Token.selectsMember = false) (hf : t.isName "function" = false)
    (hn : next.name? = some name) (hns : t.isName "namespace" = false)
    (hc : t.isName "class" = false) (ho : t.opensOther = true)
    (h : readToBlock eof (next :: ts) = .ok ((), rest)) :
    ∃ taken, t :: next :: ts = taken ++ rest ∧ taken ≠ [] ∧
      Step before taken rest.head? none [] := by
  obtain ⟨taken, hts, ht⟩ := isLocal_readToBlock h
  cases taken with
  | nil => cases ht eof []
  | cons next' body =>
    obtain ⟨rfl, rfl⟩ := List.cons.inj hts
    refine ⟨t :: next :: body, rfl, by simp, ?_⟩
    refine .of_reader isLocal_readToBlock ht (fun _ => none) (fun e ts => ?_) (fun e ds hds => ?_)
      (fun c hc => by cases hc)
    · rw [Written.readDeclarations_named hb hf hn, if_neg (by simp [hns]), if_neg (by simp [hc]),
        if_pos ho, readToBlock]
      cases skipToBlock e (next :: ts) with
      | error e => rfl
      | ok rest => exact (map_nothing _).symm
    · cases (readDeclarations_one hf).symm.trans hds
      rfl

/-- A class is made of what its reader takes. -/
theorem exists_step_class {eof : Nat} {name : String} {ts rest : List Token} {c : ClassDecl}
    (hb : before.head?.any Token.selectsMember = false) (hf : t.isName "function" = false)
    (hn : next.name? = some name) (hns : t.isName "namespace" = false)
    (hc : t.isName "class" = true)
    (h : readClass eof (isAbstractAfter before) t.line (next :: ts) = .ok (c, rest)) :
    ∃ taken, t :: next :: ts = taken ++ rest ∧ taken ≠ [] ∧
      Step before taken rest.head? (some (.classDecl c)) [] := by
  obtain ⟨next', body, close, hts, hline, hname, hclose, ht⟩ := takes_readClass h
  obtain ⟨rfl, rfl⟩ := List.cons.inj hts
  refine ⟨t :: next :: (body ++ [close]), by simp, by simp, ?_⟩
  refine .of_reader (isLocal_readClass _ _) ht (fun c => some (.classDecl c)) (fun e ts => ?_)
    (fun e ds hds => ?_) (fun c' hc' => ?_)
  · rw [Written.readDeclarations_named hb hf hn, if_neg (by simp [hns]), if_pos hc]
    rfl
  · cases (readDeclarations_one hf).symm.trans hds
    rfl
  · cases hc'
    exact ⟨⟨t, next, body, close, rfl, hc, hline.symm, hname, hclose⟩,
      fun e => readDeclarations_one hf⟩

/-- The top level is read step by step. -/
theorem exists_step {eof : Nat} {ts : List Token} {ds : List Declaration}
    (h : readDeclarations eof before (t :: ts) = .ok ds) :
    ∃ taken rest made after, t :: ts = taken ++ rest ∧ taken ≠ [] ∧
      Step before taken rest.head? made after := by
  cases hb : before.head?.any Token.selectsMember with
  | true =>
    have hmember : ∀ e rest, readDeclarations e before (t :: rest) =
        readDeclarations e (t :: before) rest := fun e rest => by
      rw [readDeclarations.eq_def]
      exact if_pos hb
    exact ⟨[t], ts, none, t :: before, rfl, by simp,
      .skip (fun e rest _ => hmember e rest) fun e => by rw [hmember, readDeclarations]⟩
  | false =>
  cases hf : t.isName "function" with
  | true =>
    rw [Written.readDeclarations_tail hb hf] at h
    cases hr : readFunction eof ts with
    | error e =>
      rw [hr] at h
      cases h
    | ok r =>
      obtain ⟨taken, hstep⟩ := exists_step_function hb hf hr
      exact ⟨taken, r.2, none, [], hstep⟩
  | false =>
  -- a word is stepped over for what comes next, which is why a step holds before that alone
  have hskip : ((∀ next ∈ ts.head?, next.name? = none) ∨ (t.isName "namespace" = false ∧
      t.isName "class" = false ∧ t.opensOther = false)) → ∃ taken rest made after,
      t :: ts = taken ++ rest ∧ taken ≠ [] ∧ Step before taken rest.head? made after := fun hs =>
    ⟨[t], ts, none, t :: before, rfl, by simp, .skip (fun e rest hhead =>
      Written.readDeclarations_skip hb hf (by rwa [hhead])) fun e => readDeclarations_one hf⟩
  cases ts with
  | nil => exact hskip (.inl (by simp))
  | cons next ts =>
  cases hn : next.name? with
  | none => exact hskip (.inl (by simpa using hn))
  | some name =>
  rw [Written.readDeclarations_named hb hf hn] at h
  split at h
  · rename_i hns
    exact ⟨[t, next], ts, _, [next, t], rfl, by simp, .nameSpace hb hf hn hns⟩
  rename_i hns
  split at h
  · rename_i hc
    cases hr : readClass eof (isAbstractAfter before) t.line (next :: ts) with
    | error e =>
      rw [hr] at h
      cases h
    | ok r =>
      obtain ⟨taken, hstep⟩ := exists_step_class hb hf hn (by simpa using hns) hc hr
      exact ⟨taken, r.2, _, [], hstep⟩
  rename_i hc
  split at h
  · rename_i ho
    cases hr : skipToBlock eof (next :: ts) with
    | error e =>
      rw [hr] at h
      cases h
    | ok rest =>
      obtain ⟨taken, hstep⟩ := exists_step_other hb hf hn (by simpa using hns) (by simpa using hc)
        ho (by rw [readToBlock, hr]; rfl)
      exact ⟨taken, rest, none, [], hstep⟩
  · exact hskip (.inr (by simp_all))

end

/-! ## Files that are cut off -/

theorem head?_of_prefix {p ts : List Token} (h : p <+: ts) (hne : p ≠ []) : p.head? = ts.head? := by
  obtain ⟨s, rfl⟩ := h
  cases p with
  | nil => exact absurd rfl hne
  | cons t p => rfl

/-- **A part of a file makes the first declarations of the file.** -/
theorem readDeclarations_initial {eof eof' : Nat} {before ts p : List Token}
    {ds ds' : List Declaration} (h : readDeclarations eof before ts = .ok ds) (hp : p <+: ts)
    (h' : readDeclarations eof' before p = .ok ds') : ds' <+: ds := by
  induction hn : ts.length using Nat.strongRecOn generalizing before ts p ds ds' with
  | ind n ih =>
  subst hn
  cases ts with
  | nil =>
    obtain rfl := List.prefix_nil.1 hp
    rw [readDeclarations] at h h'
    cases h'
    exact List.nil_prefix
  | cons t ts =>
  obtain ⟨taken, rest, made, after, hts, hne, hstep⟩ := exists_step h
  rw [hts] at h hp ih
  rw [hstep.goesOn eof rest fun _ => rfl] at h
  obtain ⟨ds, hrest, rfl⟩ := map_eq_ok h
  -- the cut is in what the step takes, or behind it
  rcases List.prefix_or_prefix_of_prefix hp (List.prefix_append taken rest) with htaken | ⟨q, rfl⟩
  · exact (hstep.cut eof' p ds' htaken h').trans (List.prefix_append _ _)
  have hq := (List.prefix_append_right_inj taken).1 hp
  by_cases hnil : q = []
  · rw [hnil, List.append_nil] at h'
    exact (hstep.cut eof' taken ds' List.prefix_rfl h').trans (List.prefix_append _ _)
  rw [hstep.goesOn eof' q fun _ => head?_of_prefix hq hnil] at h'
  obtain ⟨ds', hq', rfl⟩ := map_eq_ok h'
  have hlen : rest.length < (taken ++ rest).length := by
    have := List.length_pos_iff.2 hne
    rw [List.length_append]
    omega
  exact (List.prefix_append_right_inj _).2 (ih _ hlen hrest hq hq' rfl)

/-- Where a class stands: the tokens in front of it make `made`, also with the word of the class;
    with a cut behind its name and before its closing brace they are refused, and with the whole
    declaration they make the class too. -/
structure Stands (before : List Token) (made : List Declaration) (c : ClassDecl)
    (front declaration : List Token) : Prop where
  isDeclaration : IsDeclaration declaration c
  word : ∀ eof, readDeclarations eof before (front ++ declaration.take 1) = .ok made
  inside : ∀ eof n, 1 < n → n < declaration.length →
    ∃ e, readDeclarations eof before (front ++ declaration.take n) = .error e
  whole : ∀ eof, readDeclarations eof before (front ++ declaration) = .ok (made ++ [.classDecl c])

theorem IsDeclaration.length_pos {ts : List Token} {c : ClassDecl} (h : IsDeclaration ts c) :
    0 < ts.length := by
  obtain ⟨word, name, body, close, rfl, -⟩ := h
  simp

theorem Stands.after_step {before after taken rest front declaration : List Token}
    {made : Option Declaration} {ds : List Declaration} {c : ClassDecl}
    (hstep : Step before taken rest.head? made after) (h : Stands after ds c front declaration)
    (hp : front ++ declaration <+: rest) :
    Stands before (made.toList ++ ds) c (taken ++ front) declaration := by
  have hpos := h.isDeclaration.length_pos
  have hgoes : ∀ e n, 0 < n →
      readDeclarations e before (taken ++ front ++ declaration.take n) =
        (readDeclarations e after (front ++ declaration.take n)).map (made.toList ++ ·) := by
    intro e n hn
    rw [List.append_assoc]
    refine hstep.goesOn e _ fun _ => head?_of_prefix ?_ (List.ne_nil_of_length_pos ?_)
    · exact ((List.prefix_append_right_inj front).2 (List.take_prefix n declaration)).trans hp
    · rw [List.length_append, List.length_take]
      omega
  refine ⟨h.isDeclaration, fun e => ?_, fun e n h1 hlt => ?_, fun e => ?_⟩
  · rw [hgoes e 1 (by decide), h.word e]
    rfl
  · obtain ⟨fault, hfault⟩ := h.inside e n h1 hlt
    exact ⟨fault, by rw [hgoes e n (by omega), hfault]; rfl⟩
  · have hall := hgoes e declaration.length hpos
    rw [List.take_length, h.whole e] at hall
    rw [hall, List.append_assoc]
    rfl

/-- **Every class that a file makes stands somewhere in it.** -/
theorem exists_stands {eof : Nat} {before ts : List Token} {ds₁ ds₂ : List Declaration}
    {c : ClassDecl} (h : readDeclarations eof before ts = .ok (ds₁ ++ .classDecl c :: ds₂)) :
    ∃ front declaration, front ++ declaration <+: ts ∧ Stands before ds₁ c front declaration := by
  induction hn : ts.length using Nat.strongRecOn generalizing before ts ds₁ with
  | ind n ih =>
  subst hn
  cases ts with
  | nil =>
    rw [readDeclarations] at h
    simp at h
  | cons t ts =>
  obtain ⟨taken, rest, made, after, hts, hne, hstep⟩ := exists_step h
  rw [hts] at h ih ⊢
  rw [hstep.goesOn eof rest fun _ => rfl] at h
  obtain ⟨ds, hrest, hds⟩ := map_eq_ok h
  have hlater : ∀ ds₁', ds = ds₁' ++ .classDecl c :: ds₂ → ds₁ = made.toList ++ ds₁' →
      ∃ front declaration, front ++ declaration <+: taken ++ rest ∧
        Stands before ds₁ c front declaration := by
    rintro ds₁' rfl rfl
    have hlen : rest.length < (taken ++ rest).length := by
      have := List.length_pos_iff.2 hne
      rw [List.length_append]
      omega
    obtain ⟨front, declaration, hp, hstands⟩ := ih _ hlen hrest rfl
    refine ⟨taken ++ front, declaration, ?_, hstands.after_step hstep hp⟩
    rw [List.append_assoc]
    exact (List.prefix_append_right_inj taken).2 hp
  cases made with
  | none => exact hlater ds₁ hds rfl
  | some d =>
    cases ds₁ with
    | nil =>
      obtain ⟨rfl, rfl⟩ := List.cons.inj hds
      obtain ⟨hd, hword, hcut⟩ := hstep.whole c rfl
      refine ⟨[], taken, List.prefix_append taken rest, hd, hword, hcut, fun e => ?_⟩
      have hall := hstep.goesOn e [] (fun hd => by cases hd)
      rwa [List.append_nil, readDeclarations] at hall
    | cons d' ds₁ =>
      obtain ⟨rfl, rfl⟩ := List.cons.inj hds
      exact hlater ds₁ rfl rfl

theorem classes_ofDeclarations_append (ds ds' : List Declaration) :
    (ClassFile.ofDeclarations (ds ++ ds')).classes =
      (ClassFile.ofDeclarations ds).classes ++ (ClassFile.ofDeclarations ds').classes :=
  List.filterMap_append

theorem exists_classDecl {ds : List Declaration} {i : Nat}
    (hi : i < (ClassFile.ofDeclarations ds).classes.length) :
    ∃ ds₁ ds₂, ds = ds₁ ++ .classDecl (ClassFile.ofDeclarations ds).classes[i] :: ds₂ ∧
      (ClassFile.ofDeclarations ds₁).classes = (ClassFile.ofDeclarations ds).classes.take i := by
  induction ds generalizing i with
  | nil => cases hi
  | cons d ds ih =>
    cases d with
    | nameSpace name =>
      obtain ⟨ds₁, ds₂, hds, hfirst⟩ := ih hi
      exact ⟨.nameSpace name :: ds₁, ds₂, congrArg (Declaration.nameSpace name :: ·) hds, hfirst⟩
    | classDecl c =>
      cases i with
      | zero => exact ⟨[], ds, rfl, rfl⟩
      | succ i =>
        obtain ⟨ds₁, ds₂, hds, hfirst⟩ := ih (Nat.lt_of_succ_lt_succ hi)
        exact ⟨.classDecl c :: ds₁, ds₂, congrArg (Declaration.classDecl c :: ·) hds,
          congrArg (c :: ·) hfirst⟩

/-- **A file that is cut off never gives half a class.** What a part of the file gives, if it is
    read at all, are the first classes of the file. Each class stands in one place: cut behind its
    word, the file gives the classes before it, cut behind its brace, it gives the class too, and
    with a cut between its name and its closing brace it is refused. -/
theorem ofTokens_truncated {ts : List Token} {f : ClassFile} (h : ClassFile.ofTokens ts = .ok f) :
    (∀ p f', p <+: ts → ClassFile.ofTokens p = .ok f' → f'.classes <+: f.classes) ∧
    ∀ i (hi : i < f.classes.length), ∃ front declaration behind,
      ts = front ++ declaration ++ behind ∧ IsDeclaration declaration f.classes[i] ∧
      (∃ f', ClassFile.ofTokens (front ++ declaration.take 1) = .ok f' ∧
        f'.classes = f.classes.take i) ∧
      (∀ n, 1 < n → n < declaration.length →
        ∃ e, ClassFile.ofTokens (front ++ declaration.take n) = .error e) ∧
      ∃ f', ClassFile.ofTokens (front ++ declaration) = .ok f' ∧
        f'.classes = f.classes.take (i + 1) := by
  obtain ⟨ds, hds, rfl⟩ := map_eq_ok h
  refine ⟨fun p f' hp hp' => ?_, fun i hi => ?_⟩
  · obtain ⟨ds', hds', rfl⟩ := map_eq_ok hp'
    exact (readDeclarations_initial hds hp hds').filterMap _
  · obtain ⟨ds₁, ds₂, hsplit, hfirst⟩ := exists_classDecl hi
    rw [hsplit] at hds
    obtain ⟨front, declaration, ⟨behind, rfl⟩, hstands⟩ := exists_stands hds
    have hwhole := hstands.whole (ClassFile.lastLine (front ++ declaration))
    refine ⟨front, declaration, behind, rfl, hstands.isDeclaration, ⟨_, ?_, hfirst⟩,
      fun n h1 hlt => ?_, ⟨_, congrArg (Except.map ClassFile.ofDeclarations) hwhole, ?_⟩⟩
    · rw [ClassFile.ofTokens, hstands.word]
      rfl
    · obtain ⟨e, he⟩ := hstands.inside (ClassFile.lastLine (front ++ declaration.take n)) n h1 hlt
      exact ⟨e, by rw [ClassFile.ofTokens, he]; rfl⟩
    · rw [classes_ofDeclarations_append, hfirst, List.take_succ_eq_append_getElem hi]
      rfl

/-- `final class Ad { public const int ID = 1; }`, a line for each of its three parts. -/
def adFile : Written.File where
  nameSpace? := none
  items := [.classes {
    modifiers := [.isFinal (.plain _ 1)]
    atMostTwo := by decide
    keyword := .plain _ 1
    name := ⟨"Ad", 1⟩
    parent? := none
    interfaces? := none
    opening := ⟨1⟩
    members := [{
      lead := ⟨none, [.visible .publicMember (.plain _ 2)], by decide⟩
      item := .constants {
        keyword := .plain _ 2
        type := [⟨.name "int", 2⟩]
        type_parts := by decide
        constants := {
          first := {
            name := ⟨"ID", 2⟩
            equals := ⟨2⟩
            value := [⟨.number "1", 2⟩]
            value_ne := by decide
            value_nested := .plain rfl rfl (by decide) .nil }
          more := [] }
        stop := ⟨2⟩ } }]
    closing := ⟨3⟩ }]

theorem ofTokens_truncated_ad :
    ClassFile.ofTokens adFile.tokens = .ok adFile.classFile ∧
      adFile.classFile.classes.map ClassDecl.name = ["Ad"] ∧
      (∀ p f', p <+: adFile.tokens → ClassFile.ofTokens p = .ok f' →
        f'.classes <+: adFile.classFile.classes) ∧
      ∃ front declaration behind, adFile.tokens = front ++ declaration ++ behind ∧
        ∀ n, 1 < n → n < declaration.length →
          ∃ e, ClassFile.ofTokens (front ++ declaration.take n) = .error e := by
  have hread := Written.ofTokens_tokens adFile
  obtain ⟨hinitial, hclasses⟩ := ofTokens_truncated hread
  obtain ⟨front, declaration, behind, hsplit, -, -, hcut, -⟩ := hclasses 0 (by decide)
  exact ⟨hread, rfl, hinitial, front, declaration, behind, hsplit, hcut⟩

end PhpSharp.Php
