/-
  Which objects have an endpoint.

  * `Returns s body value`: the body is one statement that returns a constant expression;
  * `endpoint?_eq_some_iff`: the endpoint of a class is what its `getEndpoint` returns so, and
    empty if it has no such method;
  * `endpoint?_eq_none_iff`: it is undefined if `getEndpoint` does anything else.
-/
import PhpSharp.Proofs.Reflection.Connections

namespace PhpSharp.Php

/-- The method of a class that a call of that name runs: the first one that is declared with it,
    whichever the case of its letters. -/
def ClassDecl.IsMethod (c : ClassDecl) (name : String) (m : MethodDecl) : Prop :=
  ∃ before after, c.methods = before ++ m :: after ∧ Text.sameLetters m.name name = true ∧
    ∀ m' ∈ before, Text.sameLetters m'.name name = false

theorem ClassDecl.method?_eq_some_iff {c : ClassDecl} {name : String} {m : MethodDecl} :
    c.method? name = some m ↔ c.IsMethod name m := by
  rw [ClassDecl.method?, List.find?_eq_some_iff_append]
  constructor
  · rintro ⟨hname, before, after, hmethods, hbefore⟩
    exact ⟨before, after, hmethods, hname, fun m' hm' => by simpa using hbefore m' hm'⟩
  · rintro ⟨before, after, hmethods, hname, hbefore⟩
    exact ⟨hname, before, after, hmethods, fun m' hm' => by simp [hbefore m' hm']⟩

theorem ClassDecl.method?_eq_none_iff {c : ClassDecl} {name : String} :
    c.method? name = none ↔ ∀ m ∈ c.methods, Text.sameLetters m.name name = false := by
  rw [ClassDecl.method?, List.find?_eq_none]
  simp only [Bool.not_eq_true]

end PhpSharp.Php

namespace PhpSharp.Reflection

open Php (Token ClassDecl MethodDecl)

variable {s : Php.Scope} {c : ClassDecl} {body expression : List Token} {value : String}

/-- The body is `return E;` with a constant expression of that value. -/
def Returns (s : Php.Scope) (body : List Token) (value : String) : Prop :=
  ∃ word line expression stop, Text.sameLetters word "return" = true ∧
    body = ⟨.name word, line⟩ :: (expression ++ [⟨.punctuation ';', stop⟩]) ∧
    s.Derives .expression expression value

theorem returned?_eq_some_iff : returned? body = some expression ↔
    ∃ word stop, word.isName "return" = true ∧ stop.isPunctuation ';' = true ∧
      body = word :: (expression ++ [stop]) := by
  constructor
  · intro h
    cases body with
    | nil => cases h
    | cons word ts =>
      rw [returned?] at h
      split at h
      · rename_i hmarks
        obtain ⟨hword, hstop⟩ := Bool.and_eq_true_iff.1 hmarks
        obtain ⟨stop, hlast, hstop⟩ := (Option.any_eq_true ..).1 hstop
        cases h
        exact ⟨word, stop, hword, hstop, by rw [List.dropLast_append_getLast? stop hlast]⟩
      · cases h
  · rintro ⟨word, stop, hword, hstop, rfl⟩
    simp [returned?, hword, hstop]

/-- A body gives back the value that it returns. -/
theorem evaluate_returned?_iff :
    ((returned? body).bind fun expression => (s.evaluate expression).toOption) = some value ↔
      Returns s body value := by
  rw [Option.bind_eq_some_iff]
  constructor
  · rintro ⟨expression, hreturned, hvalue⟩
    obtain ⟨word, stop, hword, hstop, rfl⟩ := returned?_eq_some_iff.1 hreturned
    obtain ⟨text, line, rfl, hletters⟩ := Token.isName_iff.1 hword
    rw [Token.eq_of_isPunctuation hstop]
    exact ⟨text, line, expression, stop.line, hletters, rfl,
      Php.Scope.evaluate_eq_ok_iff.1 (toOption_eq_some_iff.1 hvalue)⟩
  · rintro ⟨word, line, expression, stop, hletters, rfl, hderives⟩
    exact ⟨expression, returned?_eq_some_iff.2
        ⟨_, _, Token.isName_iff.2 ⟨word, line, rfl, hletters⟩, beq_self_eq_true _, rfl⟩,
      toOption_eq_some_iff.2 (Php.Scope.evaluate_eq_ok_iff.2 hderives)⟩

/-- **The endpoint of a class** is what its `getEndpoint` returns, and empty if it has none. -/
theorem endpoint?_eq_some_iff : endpoint? c = some value ↔
    (∀ m ∈ c.methods, Text.sameLetters m.name "getEndpoint" = false) ∧ value = "" ∨
      ∃ m body, c.IsMethod "getEndpoint" m ∧ m.body? = some body ∧
        Returns ⟨c.name, knownConstants c⟩ body value := by
  unfold endpoint?
  cases hm : c.method? "getEndpoint" with
  | none =>
    have hnone := ClassDecl.method?_eq_none_iff.1 hm
    have hno : ∀ m, ¬c.IsMethod "getEndpoint" m := fun m h => by
      cases hm.symm.trans (ClassDecl.method?_eq_some_iff.2 h)
    simp only [Option.some.injEq, hno, false_and, exists_false, or_false]
    exact ⟨fun h => ⟨hnone, h.symm⟩, fun h => h.2.symm⟩
  | some m =>
    dsimp only
    rw [Option.bind_assoc, Option.bind_eq_some_iff]
    constructor
    · rintro ⟨body, hbody, hvalue⟩
      exact .inr ⟨m, body, ClassDecl.method?_eq_some_iff.1 hm, hbody,
        evaluate_returned?_iff.1 hvalue⟩
    · rintro (⟨hnone, -⟩ | ⟨m', body, hmethod, hbody, hreturns⟩)
      · cases hm.symm.trans (ClassDecl.method?_eq_none_iff.2 hnone)
      · obtain rfl := Option.some.inj (hm.symm.trans (ClassDecl.method?_eq_some_iff.2 hmethod))
        exact ⟨body, hbody, evaluate_returned?_iff.2 hreturns⟩

/-- **The endpoint of a class is undefined:** it has a `getEndpoint`, and this has no body, or one
    that is not `return E;` with a constant expression. -/
def UndefinedEndpoint (c : ClassDecl) : Prop :=
  ∃ m, c.IsMethod "getEndpoint" m ∧
    ∀ body, m.body? = some body → ∀ value, ¬Returns ⟨c.name, knownConstants c⟩ body value

theorem endpoint?_eq_none_iff : endpoint? c = none ↔ UndefinedEndpoint c := by
  rw [Option.eq_none_iff_forall_ne_some]
  simp only [ne_eq, endpoint?_eq_some_iff, not_or, not_exists, not_and]
  constructor
  · intro h
    cases hm : c.method? "getEndpoint" with
    | none => exact absurd rfl ((h "").1 (ClassDecl.method?_eq_none_iff.1 hm))
    | some m =>
      have hmethod := ClassDecl.method?_eq_some_iff.1 hm
      exact ⟨m, hmethod, fun body hbody value => (h value).2 m body hmethod hbody⟩
  · rintro ⟨m, hmethod, hno⟩ value
    have hm := ClassDecl.method?_eq_some_iff.2 hmethod
    refine ⟨fun hnone => ?_, fun m' body hmethod' hbody => ?_⟩
    · cases hm.symm.trans (ClassDecl.method?_eq_none_iff.2 hnone)
    · obtain rfl := Option.some.inj (hm.symm.trans (ClassDecl.method?_eq_some_iff.2 hmethod'))
      exact hno body hbody value

end PhpSharp.Reflection
