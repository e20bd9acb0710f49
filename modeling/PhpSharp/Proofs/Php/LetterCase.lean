/-
  Class files in another letter case.

  * `Token.Recased t u`: the tokens are the same but for the case of letters in names, and so for
    everything that is made of tokens;
  * `Rewording.lower` writes all names in small letters, and things that are equal then are the
    same but for letter case (`tokens_lower_iff` and what follows it);
  * `ofTokens_recased`: files are read without regard to the case of keywords.
-/
import Mathlib.Data.List.Forall2
import PhpSharp.Proofs.Php.Rewording
import PhpSharp.Proofs.Text.Letters

namespace PhpSharp.Php

/-! ## The same but for letter case -/

/-- **Two tokens without their places are the same but for the case of letters in names.** -/
inductive TokenKind.Recased : TokenKind → TokenKind → Prop
  /-- Names, and keywords among them: `class` and `CLASS` -/
  | name {s t : String} : Text.sameLetters s t = true → Recased (.name s) (.name t)
  /-- Anything, left as it is -/
  | same (kind : TokenKind) : Recased kind kind

/-- Two tokens on the same line that are the same but for letter case. -/
structure Token.Recased (t u : Token) : Prop where
  kind : t.kind.Recased u.kind
  line : t.line = u.line

/-- Two runs of tokens that match position by position. -/
abbrev Recased : List Token → List Token → Prop := List.Forall₂ Token.Recased

structure ConstantDecl.Recased (c d : ConstantDecl) : Prop where
  name : Text.sameLetters c.name d.name = true
  value : Php.Recased c.value d.value
  line : c.line = d.line

/-- Only the name and the body may differ, and only in letter case. -/
structure MethodDecl.Recased (m n : MethodDecl) : Prop where
  name : Text.sameLetters m.name n.name = true
  doc? : m.doc? = n.doc?
  visibility : m.visibility = n.visibility
  isStatic : m.isStatic = n.isStatic
  body? : Option.Rel Php.Recased m.body? n.body?
  line : m.line = n.line

/-- The members of the one match those of the other in order. -/
structure ClassDecl.Recased (c d : ClassDecl) : Prop where
  name : Text.sameLetters c.name d.name = true
  isAbstract : c.isAbstract = d.isAbstract
  parent? : Option.Rel (fun s t => Text.sameLetters s t = true) c.parent? d.parent?
  interfaces : List.Forall₂ (fun s t => Text.sameLetters s t = true) c.interfaces d.interfaces
  constants : List.Forall₂ ConstantDecl.Recased c.constants d.constants
  methods : List.Forall₂ MethodDecl.Recased c.methods d.methods
  line : c.line = d.line

structure ClassFile.Recased (f g : ClassFile) : Prop where
  nameSpace? : Option.Rel (fun s t => Text.sameLetters s t = true) f.nameSpace? g.nameSpace?
  classes : List.Forall₂ ClassDecl.Recased f.classes g.classes

/-- Two errors on the same line, in words that are the same but for letter case. -/
structure SyntaxError.Recased (e e' : SyntaxError) : Prop where
  line : e.line = e'.line
  message : Text.sameLetters e.fault.message e'.fault.message = true

/-- **Two answers are the same but for letter case:** both are files that are, or both are errors
    that are. -/
inductive ClassFile.AnswersRecased :
    Except SyntaxError ClassFile → Except SyntaxError ClassFile → Prop
  | ok {f g : ClassFile} : f.Recased g → AnswersRecased (.ok f) (.ok g)
  | error {e e' : SyntaxError} : e.Recased e' → AnswersRecased (.error e) (.error e')

/-! ## Small letters -/

section
variable {α β : Type} {f : α → β} {R : α → α → Prop}

theorem rel_of_map_eq (hR : ∀ a b, f a = f b → R a b) {a? b? : Option α}
    (h : a?.map f = b?.map f) : Option.Rel R a? b? := by
  cases a? with
  | none =>
    cases b? with
    | none => exact .none
    | some b => cases h
  | some a =>
    cases b? with
    | none => cases h
    | some b => exact .some (hR a b (Option.some.inj h))

theorem forall₂_of_map_eq (hR : ∀ a b, f a = f b → R a b) {as bs : List α}
    (h : as.map f = bs.map f) : List.Forall₂ R as bs := by
  rw [← List.forall₂_eq_eq_eq, List.forall₂_map_left_iff, List.forall₂_map_right_iff] at h
  exact h.imp hR

end

namespace Rewording

/-- Names in small letters; all else is left as it is. -/
def lower : Rewording where
  letter := Char.toLower
  toLower_letter := Text.toLower_toLower
  text := id
  line := id

/-- Names are the same but for letter case if they are equal in small letters. -/
theorem name_lower_iff {s t : String} :
    lower.name s = lower.name t ↔ Text.sameLetters s t = true := by
  rw [Text.sameLetters, beq_iff_eq, name, name, String.ofList_inj]
  rfl

theorem kind_lower_iff {k k' : TokenKind} : lower.kind k = lower.kind k' ↔ k.Recased k' := by
  constructor
  · intro h
    cases k with
    | name s =>
      cases k' with
      | name t => exact .name (name_lower_iff.1 (TokenKind.name.inj h))
      | _ => cases h
    | _ =>
      cases k' <;> cases h
      all_goals exact .same _
  · intro h
    cases h with
    | name hname => exact congrArg TokenKind.name (name_lower_iff.2 hname)
    | same => rfl

theorem token_lower_iff {t u : Token} : lower.token t = lower.token u ↔ t.Recased u := by
  rw [token, token, Token.mk.injEq, kind_lower_iff]
  exact ⟨fun h => ⟨h.1, h.2⟩, fun h => ⟨h.kind, h.line⟩⟩

/-- **Tokens match but for letter case if they are equal in small letters.** -/
theorem tokens_lower_iff {ts us : List Token} :
    lower.tokens ts = lower.tokens us ↔ Recased ts us := by
  rw [tokens, tokens, ← List.forall₂_eq_eq_eq, List.forall₂_map_left_iff,
    List.forall₂_map_right_iff]
  simp only [token_lower_iff]

/-- A fault is put into the same words but for the letters of the name that they hold. -/
theorem message_lower (fault : SyntaxFault) :
    Text.sameLetters (lower.fault fault).message fault.message = true := by
  have hname : ∀ before name behind : String,
      Text.sameLetters (before ++ lower.name name ++ behind) (before ++ name ++ behind) = true := by
    intro before name behind
    have hsame : Text.sameLetters (lower.name name) name = true :=
      (lower.sameLetters_name name name).trans (Text.sameLetters_refl name)
    exact Text.sameLetters_append (Text.sameLetters_append (Text.sameLetters_refl before) hsame)
      (Text.sameLetters_refl behind)
  cases fault with
  | classWithoutBody name => exact hname "class " name " has no body"
  | classNotClosed name => exact hname "class " name " is not closed"
  | constantNotTerminated name => exact hname "constant " name " is not terminated"
  | constantWithoutValue name => exact hname "constant " name " has no value"
  | _ => exact Text.sameLetters_refl _

theorem error_lower {e e' : SyntaxError} (h : lower.error e = lower.error e') : e.Recased e' := by
  obtain ⟨hline, hfault⟩ := SyntaxError.mk.inj h
  have hwords := message_lower e.fault
  have hwords' := message_lower e'.fault
  rw [hfault] at hwords
  simp only [Text.sameLetters, beq_iff_eq] at hwords hwords'
  refine ⟨hline, ?_⟩
  rw [Text.sameLetters, beq_iff_eq, ← hwords, hwords']

theorem constant_lower {c d : ConstantDecl} (h : lower.constant c = lower.constant d) :
    c.Recased d := by
  obtain ⟨hname, hvalue, hline⟩ := ConstantDecl.mk.inj h
  exact ⟨name_lower_iff.1 hname, tokens_lower_iff.1 hvalue, hline⟩

theorem method_lower {m n : MethodDecl} (h : lower.method m = lower.method n) : m.Recased n := by
  obtain ⟨hname, hdoc, hvisibility, hstatic, hbody, hline⟩ := MethodDecl.mk.inj h
  exact ⟨name_lower_iff.1 hname, hdoc, hvisibility, hstatic,
    rel_of_map_eq (fun _ _ => tokens_lower_iff.1) hbody, hline⟩

theorem classDecl_lower {c d : ClassDecl} (h : lower.classDecl c = lower.classDecl d) :
    c.Recased d := by
  obtain ⟨hname, habstract, hparent, hinterfaces, hconstants, hmethods, hline⟩ :=
    ClassDecl.mk.inj h
  exact ⟨name_lower_iff.1 hname, habstract, rel_of_map_eq (fun _ _ => name_lower_iff.1) hparent,
    forall₂_of_map_eq (fun _ _ => name_lower_iff.1) hinterfaces,
    forall₂_of_map_eq (fun _ _ => constant_lower) hconstants,
    forall₂_of_map_eq (fun _ _ => method_lower) hmethods, hline⟩

theorem file_lower {f g : ClassFile} (h : lower.file f = lower.file g) : f.Recased g := by
  obtain ⟨hname, hclasses⟩ := ClassFile.mk.inj h
  exact ⟨rel_of_map_eq (fun _ _ => name_lower_iff.1) hname,
    forall₂_of_map_eq (fun _ _ => classDecl_lower) hclasses⟩

theorem answer_lower {x y : Except SyntaxError ClassFile}
    (h : lower.answer lower.file x = lower.answer lower.file y) :
    ClassFile.AnswersRecased x y := by
  cases x with
  | ok f =>
    cases y with
    | ok g => exact .ok (file_lower (Except.ok.inj h))
    | error e => cases h
  | error e =>
    cases y with
    | ok g => cases h
    | error e' =>
      rw [answer_error, answer_error] at h
      exact .error (error_lower (Except.error.inj h))

end Rewording

/-! ## Files -/

/-- **Files are read without regard to the case of keywords.** Tokens that are the same but for the
    case of letters in names fail on the same line, or give files that are the same but for that. -/
theorem ofTokens_recased {ts us : List Token} (h : Recased ts us) :
    ClassFile.AnswersRecased (ClassFile.ofTokens ts) (ClassFile.ofTokens us) := by
  apply Rewording.answer_lower
  calc Rewording.lower.answer Rewording.lower.file (ClassFile.ofTokens ts)
      = ClassFile.ofTokens (Rewording.lower.tokens ts) := (Rewording.lower.ofTokens_reword ts).symm
    _ = ClassFile.ofTokens (Rewording.lower.tokens us) := by rw [Rewording.tokens_lower_iff.2 h]
    _ = Rewording.lower.answer Rewording.lower.file (ClassFile.ofTokens us) :=
        Rewording.lower.ofTokens_reword us

/-- `abstract class Ad { static function get() { return null; } }` -/
def plainTokens : List Token :=
  [⟨.name "abstract", 1⟩, ⟨.name "class", 1⟩, ⟨.name "Ad", 1⟩, ⟨.punctuation '{', 1⟩,
    ⟨.name "static", 2⟩, ⟨.name "function", 2⟩, ⟨.name "get", 2⟩, ⟨.punctuation '(', 2⟩,
    ⟨.punctuation ')', 2⟩, ⟨.punctuation '{', 2⟩, ⟨.name "return", 3⟩, ⟨.name "null", 3⟩,
    ⟨.punctuation ';', 3⟩, ⟨.punctuation '}', 4⟩, ⟨.punctuation '}', 5⟩]

/-- `ABSTRACT Class AD { Static FUNCTION Get() { Return NULL; } }` -/
def mixedTokens : List Token :=
  [⟨.name "ABSTRACT", 1⟩, ⟨.name "Class", 1⟩, ⟨.name "AD", 1⟩, ⟨.punctuation '{', 1⟩,
    ⟨.name "Static", 2⟩, ⟨.name "FUNCTION", 2⟩, ⟨.name "Get", 2⟩, ⟨.punctuation '(', 2⟩,
    ⟨.punctuation ')', 2⟩, ⟨.punctuation '{', 2⟩, ⟨.name "Return", 3⟩, ⟨.name "NULL", 3⟩,
    ⟨.punctuation ';', 3⟩, ⟨.punctuation '}', 4⟩, ⟨.punctuation '}', 5⟩]

theorem ofTokens_recased_abstract :
    Recased plainTokens mixedTokens ∧
      (∃ f g, ClassFile.ofTokens plainTokens = .ok f ∧ ClassFile.ofTokens mixedTokens = .ok g ∧
        f.Recased g ∧ g.classes.map ClassDecl.isAbstract = [true]) ∧
      ∃ e e', ClassFile.ofTokens plainTokens.dropLast = .error e ∧
        ClassFile.ofTokens mixedTokens.dropLast = .error e' ∧ e.line = e'.line := by
  have htokens : Recased plainTokens mixedTokens :=
    Rewording.tokens_lower_iff.1 (by decide +kernel)
  have hcut : Recased plainTokens.dropLast mixedTokens.dropLast :=
    Rewording.tokens_lower_iff.1 (by decide +kernel)
  refine ⟨htokens, ?_, ?_⟩
  · have hfiles := ofTokens_recased htokens
    have habstract : (ClassFile.ofTokens mixedTokens).map (·.classes.map ClassDecl.isAbstract) =
        .ok [true] := by decide +kernel
    generalize ClassFile.ofTokens plainTokens = x at hfiles
    generalize ClassFile.ofTokens mixedTokens = y at hfiles habstract
    cases hfiles with
    | ok h => exact ⟨_, _, rfl, rfl, h, Except.ok.inj habstract⟩
    | error h => cases habstract
  · have hfiles := ofTokens_recased hcut
    have hfails : (ClassFile.ofTokens mixedTokens.dropLast).toOption = none := by decide +kernel
    generalize ClassFile.ofTokens plainTokens.dropLast = x at hfiles
    generalize ClassFile.ofTokens mixedTokens.dropLast = y at hfiles hfails
    cases hfiles with
    | ok h => cases hfails
    | error h => exact ⟨_, _, rfl, rfl, h.line⟩

end PhpSharp.Php
