/-
  Documentation comments in places where they document nothing: inside the statements that declare
  constants, and inside bodies.

  * `Commented`: such comments are inserted into a run of tokens;
  * `TakesBody`: a body becomes the same with the comments in it;
  * `Verdict`: what a statement becomes. A comment in a value becomes part of that, and one in
    front of the equals sign is a malformed constant.
-/
import Mathlib.Data.List.Forall2
import PhpSharp.Proofs.Php.Truncation

namespace PhpSharp.Php

/-! ## Inserted comments -/

/-- The token is a documentation comment. -/
def Token.IsComment (t : Token) : Prop := ∃ text, t.kind = .docComment text

/-- There is no documentation comment among the tokens. -/
def IsPlain (ts : List Token) : Prop := ∀ t ∈ ts, ¬t.IsComment

@[simp] theorem Token.isComment_mk {kind : TokenKind} {line : Nat} :
    (⟨kind, line⟩ : Token).IsComment ↔ ∃ text, kind = .docComment text := .rfl

@[simp] theorem isPlain_nil : IsPlain [] := fun _ ht => absurd ht List.not_mem_nil

@[simp] theorem isPlain_cons {t : Token} {ts : List Token} :
    IsPlain (t :: ts) ↔ ¬t.IsComment ∧ IsPlain ts := List.forall_mem_cons

@[simp] theorem isPlain_append {ts us : List Token} :
    IsPlain (ts ++ us) ↔ IsPlain ts ∧ IsPlain us := List.forall_mem_append

/-- Documentation comments are inserted into the tokens. -/
inductive Commented : List Token → List Token → Prop
  | nil : Commented [] []
  | keep {t ts us} : Commented ts us → Commented (t :: ts) (t :: us)
  | insert {t ts us} : t.IsComment → Commented ts us → Commented ts (t :: us)

theorem Commented.refl : (ts : List Token) → Commented ts ts
  | [] => .nil
  | _ :: ts => .keep (refl ts)

theorem Commented.nil_left {us : List Token} (h : Commented [] us) : ∀ u ∈ us, u.IsComment := by
  generalize hts : ([] : List Token) = ts at h
  induction h with
  | nil => exact fun u hu => absurd hu List.not_mem_nil
  | keep => cases hts
  | insert hc _ ih => exact List.forall_mem_cons.2 ⟨hc, ih hts⟩

/-- In front of each token stand the comments that were inserted there. -/
theorem Commented.cons_left {t : Token} {ts us : List Token} (h : Commented (t :: ts) us) :
    ∃ comments us', us = comments ++ t :: us' ∧ (∀ u ∈ comments, u.IsComment) ∧
      Commented ts us' := by
  generalize hts : t :: ts = ts' at h
  induction h with
  | nil => cases hts
  | keep h =>
    cases hts
    exact ⟨[], _, rfl, fun u hu => absurd hu List.not_mem_nil, h⟩
  | insert hc _ ih =>
    obtain ⟨comments, us', rfl, hcomments, h⟩ := ih hts
    exact ⟨_ :: comments, us', rfl, List.forall_mem_cons.2 ⟨hc, hcomments⟩, h⟩

/-- Without a comment nothing was inserted. -/
theorem Commented.eq_of_isPlain {ts us : List Token} (h : Commented ts us) (hus : IsPlain us) :
    us = ts := by
  induction h with
  | nil => rfl
  | keep _ ih => rw [ih (isPlain_cons.1 hus).2]
  | insert hc _ _ => exact absurd hc (isPlain_cons.1 hus).1

namespace Token.IsComment

variable {t : Token} (h : t.IsComment)
include h

theorem opens? : t.opens? = none := by
  obtain ⟨text, hk⟩ := h
  simp [Token.opens?, Token.punctuation?, hk]

theorem closes? : t.closes? = none := by
  obtain ⟨text, hk⟩ := h
  simp [Token.closes?, Token.punctuation?, hk]

theorem name? : t.name? = none := by
  obtain ⟨text, hk⟩ := h
  simp [Token.name?, hk]

theorem isPunctuation (c : Char) : t.isPunctuation c = false := by
  obtain ⟨text, hk⟩ := h
  simp [Token.isPunctuation, hk]

theorem isName (word : String) : t.isName word = false := by
  obtain ⟨text, hk⟩ := h
  simp [Token.isName, hk]

end Token.IsComment

/-! ## Blocks -/

theorem nested_comments {comments : List Token} (h : ∀ t ∈ comments, t.IsComment) {p : Token → Prop}
    (hp : ∀ t, t.IsComment → p t) : Nested p comments := by
  induction comments with
  | nil => exact .nil
  | cons t comments ih =>
    obtain ⟨ht, hrest⟩ := List.forall_mem_cons.1 h
    exact .plain ht.opens? ht.closes? (hp t ht) (ih hrest)

/-- What is read between brackets, with comments in it. -/
theorem closeBlock_commented {unclosed : SyntaxError} {inner : Bracket} {outer : List Bracket}
    {ts body rest : List Token} (h : closeBlock unclosed inner outer ts = .ok (body, rest)) :
    ∃ close, ts = body ++ close :: rest ∧ ∀ body', Commented body body' → ∀ e rest',
      closeBlock e inner outer (body' ++ close :: rest') = .ok (body', rest') := by
  have hcomments : ∀ {comments : List Token}, (∀ t ∈ comments, t.IsComment) → ∀ e inner outer rest,
      closeBlock e inner outer (comments ++ rest) =
        Parsed.prepend comments (closeBlock e inner outer rest) := fun h e inner outer rest =>
    closeBlock_nested (nested_comments h (p := fun _ => True) fun _ _ => trivial) e inner outer rest
  induction ts generalizing inner outer body with
  | nil => cases h
  | cons t ts ih =>
    -- the reader goes on inside other brackets, and what it reads there is put behind the token
    have hpush : ∀ inner' outer', (∀ e us, closeBlock e inner outer (t :: us) =
          Parsed.push t (closeBlock e inner' outer' us)) →
        ∃ close, t :: ts = body ++ close :: rest ∧ ∀ body', Commented body body' → ∀ e rest',
          closeBlock e inner outer (body' ++ close :: rest') = .ok (body', rest') := by
      intro inner' outer' hstep
      rw [hstep] at h
      obtain ⟨body, hb, rfl⟩ := Parsed.push_eq_ok h
      obtain ⟨close, rfl, hread⟩ := ih hb
      refine ⟨close, rfl, fun body' hbody e rest' => ?_⟩
      obtain ⟨comments, us, rfl, hc, hus⟩ := hbody.cons_left
      rw [List.append_assoc, hcomments hc, List.cons_append, hstep, hread us hus]
      rfl
    cases ho : t.opens? with
    | some b => exact hpush b (inner :: outer) fun e us => by simp only [closeBlock, ho]
    | none =>
    cases hc : t.closes? with
    | none => exact hpush inner outer fun e us => by simp only [closeBlock, ho, hc]
    | some b =>
      by_cases hb : b = inner
      · cases outer with
        | cons inner' outer' =>
          exact hpush inner' outer' fun e us => by simp [closeBlock, ho, hc, hb]
        | nil =>
          simp only [closeBlock, ho, hc, hb, ne_eq, not_true_eq_false, if_false] at h
          cases h
          refine ⟨t, rfl, fun body' hbody e rest' => ?_⟩
          rw [hcomments hbody.nil_left]
          simp [closeBlock, ho, hc, hb, Parsed.prepend, Except.map]
      · simp [closeBlock, ho, hc, hb] at h

theorem readBlock_commented {eof : Nat} {t : Token} {ts body rest : List Token}
    (h : readBlock eof (t :: ts) = .ok (body, rest)) :
    ∃ close, ts = body ++ close :: rest ∧ ∀ body', Commented body body' → ∀ e rest',
      readBlock e (t :: (body' ++ close :: rest')) = .ok (body', rest') := by
  rw [readBlock] at h
  cases ho : t.opens? with
  | none =>
    rw [ho] at h
    cases h
  | some b =>
    rw [ho] at h
    obtain ⟨close, rfl, hread⟩ := closeBlock_commented h
    exact ⟨close, rfl, fun body' hbody e rest' => by
      simp only [readBlock, ho, hread body' hbody]⟩

/-! ## Methods -/

/-- The reader takes these tokens around a body, and the body with whatever comments. -/
def TakesBody {α : Type} (read : Nat → List Token → Parsed α) (front back : List Token)
    (body? : Option (List Token)) (make : Option (List Token) → α) : Prop :=
  ∀ body?', Option.Rel Commented body? body?' → ∀ e rest,
    read e (front ++ (body?'.getD [] ++ (back ++ rest))) = .ok (make body?', rest)

theorem readFunctionBody_commented {eof : Nat} {ts rest : List Token}
    {body? : Option (List Token)} (h : readFunctionBody eof ts = .ok (body?, rest)) :
    ∃ front back, ts = front ++ (body?.getD [] ++ (back ++ rest)) ∧
      TakesBody readFunctionBody front back body? id := by
  fun_induction readFunctionBody eof ts with
  | case1 => cases h
  | case2 t ts hbrace =>
    obtain ⟨⟨body, r⟩, hb, he⟩ := map_eq_ok h
    cases he
    obtain ⟨close, rfl, hread⟩ := readBlock_commented hb
    refine ⟨[t], [close], by simp, ?_⟩
    rintro _ ⟨hbody⟩ e rest'
    rw [List.singleton_append, readFunctionBody, if_pos hbrace]
    exact congrArg (Except.map _) (hread _ hbody e rest')
  | case3 t ts hbrace hstop =>
    cases h
    refine ⟨[t], [], by simp, ?_⟩
    rintro _ ⟨⟩ e rest'
    rw [List.singleton_append, readFunctionBody, if_neg hbrace, if_pos hstop]
    rfl
  | case4 => cases h
  | case5 t ts hbrace hstop hopen _ after hb ih =>
    obtain ⟨block, rfl, hblock⟩ := takes_readBlock hb
    obtain ⟨front, back, rfl, hread⟩ := ih h
    refine ⟨t :: (block ++ front), back, by simp, fun body?' hbody e rest' => ?_⟩
    have hb := hblock e (front ++ (body?'.getD [] ++ (back ++ rest')))
    rw [List.cons_append, ← List.append_assoc] at hb
    rw [List.cons_append,
      readFunctionBody_parentheses (by simpa using hbrace) (by simpa using hstop) hopen hb,
      hread body?' hbody e rest']
  | case6 t ts hbrace hstop hopen ih =>
    obtain ⟨front, back, rfl, hread⟩ := ih h
    refine ⟨t :: front, back, rfl, fun body?' hbody e rest' => ?_⟩
    rw [List.cons_append, Written.readFunctionBody_step (by simp_all), hread body?' hbody e rest']

theorem readFunction_commented {eof : Nat} {ts rest : List Token} {body? : Option (List Token)}
    (h : readFunction eof ts = .ok (body?, rest)) :
    ∃ front back, ts = front ++ (body?.getD [] ++ (back ++ rest)) ∧
      TakesBody readFunction front back body? id := by
  obtain ⟨before, after, rfl, hbody, hbefore⟩ := readFunction_eq_ok h
  obtain ⟨front, back, rfl, hread⟩ := readFunctionBody_commented hbody
  refine ⟨before ++ front, back, (List.append_assoc ..).symm, fun body?' hrel e rest' => ?_⟩
  rw [List.append_assoc, hbefore, hread body?' hrel e rest']

theorem readMethod_commented {eof : Nat} {pending : Pending} {ts rest : List Token} {m : MethodDecl}
    (h : readMethod eof pending ts = .ok (m, rest)) :
    ∃ front back, ts = front ++ (m.body?.getD [] ++ (back ++ rest)) ∧
      TakesBody (fun eof => readMethod eof pending) front back m.body?
        fun body? => { m with body? := body? } := by
  rw [readMethod] at h
  split at h
  · cases h
  · rename_i hn
    obtain ⟨⟨body?, r⟩, hf, he⟩ := map_eq_ok h
    cases he
    obtain ⟨t, hts, hname, ht⟩ := expectName_eq_ok hn
    obtain ⟨front, back, rfl, hread⟩ := readFunction_commented hf
    obtain ⟨reference, rfl, hdrop⟩ :=
      exists_dropReference (Token.isPunctuation_of_name? hname _) hts
    refine ⟨reference ++ t :: front, back, by simp, fun body?' hbody e rest' => ?_⟩
    rw [List.append_assoc, List.cons_append]
    simp only [readMethod, hdrop, ht e, hread body?' hbody e rest']
    rfl

/-! ## Constants -/

theorem readConstantValue_comments {unterminated : SyntaxError} {depth : Nat}
    {ts value rest : List Token} {more : Bool}
    (h : readConstantValue unterminated depth ts = .ok ((value, more), rest))
    {comments : List Token} (hc : ∀ t ∈ comments, t.IsComment) :
    readConstantValue unterminated depth (comments ++ ts) =
      .ok ((comments ++ value, more), rest) := by
  induction comments with
  | nil => exact h
  | cons t comments ih =>
    obtain ⟨ht, hrest⟩ := List.forall_mem_cons.1 hc
    rw [List.cons_append, readConstantValue]
    simp [ht.isPunctuation, ht.opens?, ht.closes?, ih hrest, Except.map]

/-- What is read of a value, with comments in it. -/
theorem readConstantValue_commented {unterminated : SyntaxError} {depth : Nat}
    {ts value rest : List Token} {more : Bool}
    (h : readConstantValue unterminated depth ts = .ok ((value, more), rest)) :
    ∃ stop, ts = value ++ stop :: rest ∧ ∀ value', Commented value value' → ∀ e rest',
      readConstantValue e depth (value' ++ stop :: rest') = .ok ((value', more), rest') := by
  induction ts generalizing depth value with
  | nil => cases h
  | cons t ts ih =>
    rw [readConstantValue] at h
    split at h
    · rename_i hstop
      cases h
      refine ⟨t, rfl, fun value' hvalue e rest' => ?_⟩
      have hend : readConstantValue e depth (t :: rest') =
          .ok (([], t.isPunctuation ','), rest') := by
        rw [readConstantValue, if_pos hstop]
      rw [readConstantValue_comments hend hvalue.nil_left, List.append_nil]
    · rename_i hstop
      obtain ⟨⟨⟨v, r⟩, rest''⟩, hv, he⟩ := map_eq_ok h
      cases he
      obtain ⟨stop, rfl, hread⟩ := ih hv
      refine ⟨stop, rfl, fun value' hvalue e rest' => ?_⟩
      obtain ⟨comments, us, rfl, hc, hus⟩ := hvalue.cons_left
      rw [List.append_assoc, List.cons_append]
      refine readConstantValue_comments ?_ hc
      rw [readConstantValue, if_neg hstop]
      simp only [hread us hus]
      rfl

/-- What is read in front of a value. A comment in it is taken for a malformed name. -/
theorem readConstantName_commented {eof : Nat} {last? : Option (String × Nat)}
    {ts rest : List Token} {name : String × Nat}
    (h : readConstantName eof last? ts = .ok (name, rest)) :
    ∃ head equals, ts = head ++ equals :: rest ∧ equals.isPunctuation '=' = true ∧
      (∀ e rest', readConstantName e last? (head ++ equals :: rest') = .ok (name, rest')) ∧
      ∀ head', Commented head head' → head' ≠ head → ∀ e rest', ∃ line,
        readConstantName e last? (head' ++ equals :: rest') =
          .error ⟨line, .malformedConstant⟩ := by
  have hcomment : ∀ {u : Token}, u.IsComment → ∀ e last? us,
      readConstantName e last? (u :: us) = .error ⟨u.line, .malformedConstant⟩ := by
    intro u hu e last? us
    simp [readConstantName, hu.isPunctuation, hu.name?]
  induction ts generalizing last? with
  | nil => cases last? <;> cases h
  | cons t ts ih =>
    -- a token of the name or of the type is stepped over
    have hstep : ∀ next?, (∀ e us, readConstantName e last? (t :: us) =
          readConstantName e next? us) →
        ∃ head equals, t :: ts = head ++ equals :: rest ∧ equals.isPunctuation '=' = true ∧
          (∀ e rest', readConstantName e last? (head ++ equals :: rest') = .ok (name, rest')) ∧
          ∀ head', Commented head head' → head' ≠ head → ∀ e rest', ∃ line,
            readConstantName e last? (head' ++ equals :: rest') =
              .error ⟨line, .malformedConstant⟩ := by
      intro next? hstep
      rw [hstep] at h
      obtain ⟨head, equals, rfl, hequals, hread, hmalformed⟩ := ih h
      refine ⟨t :: head, equals, rfl, hequals, fun e rest' => ?_, fun head' hhead hne e rest' => ?_⟩
      · rw [List.cons_append, hstep, hread]
      · cases hhead with
        | keep hhead =>
          rw [List.cons_append, hstep]
          exact hmalformed _ hhead (fun he => hne (congrArg (t :: ·) he)) e rest'
        | insert hc _ => exact ⟨_, hcomment hc e last? _⟩
    cases hequals : t.isPunctuation '=' with
    | true =>
      simp only [readConstantName, hequals, if_true] at h
      cases last? with
      | none => cases h
      | some last =>
        cases h
        refine ⟨[], t, rfl, hequals, fun e rest' => by simp [readConstantName, hequals],
          fun head' hhead hne e rest' => ?_⟩
        cases head' with
        | nil => exact absurd rfl hne
        | cons u head' => exact ⟨_, hcomment (hhead.nil_left u List.mem_cons_self) e _ _⟩
    | false =>
    cases hname : t.name? with
    | some text =>
      refine hstep (some (text, t.line)) fun e us => ?_
      simp [readConstantName, hequals, hname]
    | none =>
      cases htype : t.isPunctuation '?' || t.isPunctuation '|' with
      | true =>
        refine hstep last? fun e us => ?_
        simp only [readConstantName, hequals, hname, htype, Bool.false_eq_true, if_false, if_true]
      | false => simp [readConstantName, hequals, hname, htype] at h

/-! ## Verdicts -/

/-- What comes of tokens with comments in them: the answer, unless a comment stands in a head, and
    otherwise a malformed constant. -/
def Verdict {α : Type} (heads heads' : List (List Token)) (answer : α)
    (result : Except SyntaxError α) : Prop :=
  (heads' = heads → result = .ok answer) ∧
    (heads' ≠ heads → ∃ line, result = .error ⟨line, .malformedConstant⟩)

namespace Verdict

variable {α β : Type} {heads heads' : List (List Token)} {answer : α}
  {result : Except SyntaxError α}

theorem of_ok (h : result = .ok answer) : Verdict [] [] answer result :=
  ⟨fun _ => h, fun hne => absurd rfl hne⟩

theorem map (h : Verdict heads heads' answer result) (f : α → β) :
    Verdict heads heads' (f answer) (result.map f) := by
  refine ⟨fun he => ?_, fun hne => ?_⟩
  · rw [h.1 he]
    rfl
  · obtain ⟨line, hline⟩ := h.2 hne
    exact ⟨line, by rw [hline]; rfl⟩

theorem cons {head head' : List Token} (hsame : head' = head → Verdict heads heads' answer result)
    (hother : head' ≠ head → ∃ line, result = .error ⟨line, .malformedConstant⟩) :
    Verdict (head :: heads) (head' :: heads') answer result := by
  refine ⟨fun he => ?_, fun hne => ?_⟩
  · obtain ⟨hhead, hheads⟩ := List.cons.inj he
    exact (hsame hhead).1 hheads
  · by_cases hhead : head' = head
    · exact (hsame hhead).2 fun hheads => hne (by rw [hhead, hheads])
    · exact hother hhead

/-- One reader after the other. -/
theorem bind (h : Verdict heads heads' answer result) {f : α → Except SyntaxError β} {answer' : β}
    {more more' : List (List Token)} (hf : Verdict more more' answer' (f answer))
    (hlength : heads'.length = heads.length) :
    Verdict (heads ++ more) (heads' ++ more') answer' (result.bind f) := by
  refine ⟨fun he => ?_, fun hne => ?_⟩
  · obtain ⟨hheads, hmore⟩ := List.append_inj he hlength
    rw [h.1 hheads]
    exact hf.1 hmore
  · by_cases hheads : heads' = heads
    · rw [h.1 hheads]
      exact hf.2 fun hmore => hne (by rw [hheads, hmore])
    · obtain ⟨line, hline⟩ := h.2 hheads
      exact ⟨line, by rw [hline]; rfl⟩

end Verdict

/-! ## Statements -/

/-- The constant with comments in its value. -/
inductive ConstantDecl.Commented : ConstantDecl → ConstantDecl → Prop
  | mk {name value value' line} : Php.Commented value value' →
      Commented ⟨name, value, line⟩ ⟨name, value', line⟩

/-- A constant in its statement: a head with its type and its name, the equals sign, the value, and
    the mark that ends it. -/
structure ConstantPart where
  head : List Token
  equals : Token
  isEquals : equals.isPunctuation '=' = true
  decl : ConstantDecl
  stop : Token

def ConstantPart.tokens (p : ConstantPart) : List Token :=
  p.head ++ p.equals :: (p.decl.value ++ [p.stop])

inductive ConstantPart.Commented : ConstantPart → ConstantPart → Prop
  | mk {head head' equals isEquals decl decl' stop} : Php.Commented head head' →
      decl.Commented decl' →
      Commented ⟨head, equals, isEquals, decl, stop⟩ ⟨head', equals, isEquals, decl', stop⟩

theorem Commented.ne_nil {ts us : List Token} (h : Commented ts us) (hne : ts ≠ []) : us ≠ [] := by
  cases h with
  | nil => exact absurd rfl hne
  | keep => exact List.cons_ne_nil _ _
  | insert => exact List.cons_ne_nil _ _

theorem readConstants_error {eof : Nat} {ts : List Token} {e : SyntaxError}
    (h : readConstantName eof none ts = .error e) : readConstants eof ts = .error e := by
  rw [readConstants]
  split
  · rename_i h'
    cases h.symm.trans h'
    rfl
  · rename_i h'
    cases h.symm.trans h'

/-- The constants of a statement, with comments in it. -/
theorem readConstants_commented {eof : Nat} {ts rest : List Token}
    {constants : List ConstantDecl} (h : readConstants eof ts = .ok (constants, rest)) :
    ∃ parts : List ConstantPart, ts = parts.flatMap ConstantPart.tokens ++ rest ∧
      constants = parts.map ConstantPart.decl ∧
      ∀ parts', List.Forall₂ ConstantPart.Commented parts parts' → ∀ e rest',
        Verdict (parts.map ConstantPart.head) (parts'.map ConstantPart.head)
          (parts'.map ConstantPart.decl, rest')
          (readConstants e (parts'.flatMap ConstantPart.tokens ++ rest')) := by
  fun_induction readConstants eof ts generalizing constants with
  | case1 => cases h
  | case2 => cases h
  | case3 => cases h
  | case4 ts name line afterName hn value after hne hv ih =>
    obtain ⟨⟨_, r⟩, hr, he⟩ := map_eq_ok h
    cases he
    obtain ⟨head, equals, rfl, hequals, hname, hmalformed⟩ := readConstantName_commented hn
    obtain ⟨stop, rfl, hvalue⟩ := readConstantValue_commented hv
    obtain ⟨parts, rfl, rfl, hparts⟩ := ih hr
    refine ⟨⟨head, equals, hequals, ⟨name, value, line⟩, stop⟩ :: parts, ?_, rfl, ?_⟩
    · simp [ConstantPart.tokens]
    rintro _ (_ | ⟨⟨hhead, ⟨hval⟩⟩, hrest⟩) e rest'
    rw [List.flatMap_cons]
    simp only [ConstantPart.tokens, List.append_assoc, List.cons_append, List.nil_append,
      List.map_cons]
    refine .cons (fun he => ?_) fun hne => ?_
    · rw [he, Written.readConstants_step (hname e _) (hvalue _ hval _ _) (hval.ne_nil hne),
        if_pos rfl]
      exact (hparts _ hrest e rest').map _
    · obtain ⟨line, hline⟩ := hmalformed _ hhead hne e _
      exact ⟨line, readConstants_error hline⟩
  | case5 ts name line afterName hn value more after hv hne hmore =>
    cases h
    obtain ⟨head, equals, rfl, hequals, hname, hmalformed⟩ := readConstantName_commented hn
    obtain ⟨stop, rfl, hvalue⟩ := readConstantValue_commented hv
    refine ⟨[⟨head, equals, hequals, ⟨name, value, line⟩, stop⟩], ?_, rfl, ?_⟩
    · simp [ConstantPart.tokens]
    rintro _ (_ | ⟨⟨hhead, ⟨hval⟩⟩, _ | _⟩) e rest'
    simp only [ConstantPart.tokens, List.flatMap_cons, List.flatMap_nil, List.append_assoc,
      List.cons_append, List.nil_append, List.map_cons, List.map_nil]
    refine .cons (fun he => ?_) fun hne => ?_
    · rw [he, Written.readConstants_step (hname e _) (hvalue _ hval _ _) (hval.ne_nil hne),
        if_neg hmore]
      exact .of_ok rfl
    · obtain ⟨line, hline⟩ := hmalformed _ hhead hne e _
      exact ⟨line, readConstants_error hline⟩

end PhpSharp.Php
