/-
  Constant expressions: terms joined by `.`, and their value as the text PHP prints.

  * `readTerm` reads a term without parentheses: a literal, a signed number, or a reference
    `self::NAME` to a constant that is already known;
  * `evaluate` goes through an expression from left to right. The values in front of the open
    parentheses wait on a stack, so that it is one loop over the tokens.

  What would need a running program is refused, each case with its own cause.
-/
import PhpSharp.Result
import PhpSharp.Php.Numeral
import PhpSharp.Php.Token
import PhpSharp.Sdk.Constants

namespace PhpSharp.Php

/-- The signs a number may have. -/
inductive Sign
  | minus
  | plus
  deriving DecidableEq, Repr

def Sign.word : Sign → String
  | .minus => "minus"
  | .plus => "plus"

/-- Why an expression has no value. -/
inductive EvalFault
  /-- A term is missing at the end. -/
  | endsUnexpectedly
  /-- The token does not belong there. -/
  | unsupported (near : TokenKind)
  /-- A sign stands before something other than a number. -/
  | signWithoutNumber (sign : Sign)
  /-- A parenthesis does not close where its expression ends. -/
  | unbalancedParentheses
  /-- A name alone is a constant outside all classes. -/
  | globalConstant (name : String)
  /-- A constant of another class. -/
  | externalConstant (scope name : String)
  /-- A constant of the class that is not known. -/
  | undefinedConstant (name : String)
  /-- A number literal that is none. -/
  | invalidNumber (raw : String)
  deriving DecidableEq, Repr

/-- How a message shows a token. -/
def TokenKind.describe : TokenKind → String
  | .name text => "\x60" ++ text ++ "\x60"
  | .variable text => "\x60$" ++ text ++ "\x60"
  | .string _ => "a string"
  | .number text => "\x60" ++ text ++ "\x60"
  | .docComment _ => "a comment"
  | .arrow => "\x60->\x60"
  | .doubleColon => "\x60::\x60"
  | .doubleArrow => "\x60=>\x60"
  | .punctuation c => "\x60" ++ c.toString ++ "\x60"

/-- The fault in words. -/
def EvalFault.message : EvalFault → String
  | .endsUnexpectedly => "expression ends unexpectedly"
  | .unsupported near => "unsupported expression near " ++ near.describe
  | .signWithoutNumber sign => "unary " ++ sign.word ++ " is only supported on numbers"
  | .unbalancedParentheses => "unbalanced parentheses"
  | .globalConstant name => "reference to global constant " ++ name
  | .externalConstant scope name => "reference to external constant " ++ scope ++ "::" ++ name
  | .undefinedConstant name => "reference to undefined constant " ++ name
  | .invalidNumber raw => "invalid number \x60" ++ raw ++ "\x60"

/-- The last segment of a name with backslashes. -/
def unqualified (name : String) : String :=
  String.ofList (name.toList.reverse.takeWhile (· ≠ '\\')).reverse

/-- Where an expression stands: in a class, after some of its constants. -/
structure Scope where
  className : String
  known : Sdk.Constants

/-- Whether a name before `::` means the class itself. -/
def Scope.isOwn (s : Scope) (name : String) : Bool :=
  Text.sameLetters name "self" || Text.sameLetters name "static" || unqualified name == s.className

/-- The value of a number literal. -/
def numberValue (raw : String) : Except EvalFault String :=
  match numeral? raw with
  | some value => .ok value
  | none => .error (.invalidNumber raw)

/-- The value of a number with a sign; zero has none. -/
def signed : Sign → String → String
  | .plus, value => value
  | .minus, value => if value = "0" then value else "-" ++ value

/-- The sign that a token is. -/
def TokenKind.sign? : TokenKind → Option Sign
  | .punctuation '-' => some .minus
  | .punctuation '+' => some .plus
  | _ => none

/-- The value of a word that is a literal. -/
def wordValue? (word : String) : Option String :=
  if Text.sameLetters word "true" then some "1"
  else if Text.sameLetters word "false" || Text.sameLetters word "null" then some ""
  else none

/-- The value of `scope::name`. -/
def Scope.constantValue (s : Scope) (scope name : String) : Except EvalFault String :=
  if s.isOwn scope then
    match s.known.get? name with
    | some value => .ok value
    | none => .error (.undefinedConstant name)
  else .error (.externalConstant scope name)

/-- Reads the term that starts with a token of the given kind: its value and the tokens
    behind it. -/
def Scope.readTerm (s : Scope) (kind : TokenKind) (ts : List Token) :
    Except EvalFault (String × List Token) :=
  match kind with
  | .string value => .ok (value, ts)
  | .number raw => (numberValue raw).map (·, ts)
  | .name scope =>
    match wordValue? scope, ts with
    | some value, ts => .ok (value, ts)
    | none, ⟨.doubleColon, _⟩ :: name :: ts =>
      match name.name? with
      | some constant => (s.constantValue scope constant).map (·, ts)
      | none => .error (.unsupported name.kind)
    | none, _ => .error (.globalConstant scope)
  | kind =>
    match kind.sign?, ts with
    | none, _ => .error (.unsupported kind)
    | some sign, ⟨.number raw, _⟩ :: ts => (numberValue raw).map fun v => (signed sign v, ts)
    | some sign, _ => .error (.signWithoutNumber sign)

theorem Scope.readTerm_suffix {s : Scope} {kind : TokenKind} {ts rest : List Token} {value : String}
    (h : s.readTerm kind ts = .ok (value, rest)) : rest <:+ ts := by
  unfold Scope.readTerm at h
  split at h
  · cases h; exact List.suffix_refl _
  · obtain ⟨_, -, he⟩ := map_eq_ok h
    cases he; exact List.suffix_refl _
  · split at h
    · cases h; exact List.suffix_refl _
    · split at h
      · obtain ⟨_, -, he⟩ := map_eq_ok h
        cases he; exact ⟨[_, _], rfl⟩
      · simp at h
    · simp at h
  · split at h
    · simp at h
    · obtain ⟨_, -, he⟩ := map_eq_ok h
      cases he; exact ⟨[_], rfl⟩
    · simp at h

/-- Evaluates what follows a term of value `value`, or with `none` what starts with one.
    `waiting` holds the values in front of the open parentheses, the innermost first. -/
def Scope.evaluateFrom (s : Scope) (waiting : List String) (before : String) (done? : Bool)
    (ts : List Token) : Except EvalFault String :=
  match ts, done? with
  | [], false => .error .endsUnexpectedly
  | [], true => if waiting = [] then .ok before else .error .unbalancedParentheses
  | t :: ts, false =>
    if t.isPunctuation '(' then s.evaluateFrom (before :: waiting) "" false ts
    else
      match _h : s.readTerm t.kind ts with
      | .error e => .error e
      | .ok (value, rest) => s.evaluateFrom waiting (before ++ value) true rest
  | t :: ts, true =>
    if t.isPunctuation '.' then s.evaluateFrom waiting before false ts
    else match waiting with
      | [] => .error (.unsupported t.kind)
      | outer :: waiting =>
        if t.isPunctuation ')' then s.evaluateFrom waiting (outer ++ before) true ts
        else .error .unbalancedParentheses
  termination_by ts.length
  decreasing_by
    · simp
    · exact Nat.lt_succ_of_le (Scope.readTerm_suffix _h).length_le
    all_goals simp

/-- The value of a constant expression. -/
def Scope.evaluate (s : Scope) (ts : List Token) : Except EvalFault String :=
  s.evaluateFrom [] "" false ts

end PhpSharp.Php
