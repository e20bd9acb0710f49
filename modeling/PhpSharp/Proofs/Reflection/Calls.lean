/-
  Calls in bodies: where they are found, and which arguments they are given.

  * `ArgumentList`: the tokens between the parentheses of a call, and its arguments;
    `splitArguments_list` says that these are what is split off;
  * `Has`: among the tokens stands the head of a call;
  * `connectionCall?_call`, `request?_call`: the first connection call and the first request are
    found with their arguments, whatever follows.
-/
import PhpSharp.Proofs.Php.ExpressionGrammar
import PhpSharp.Proofs.Php.Nesting
import PhpSharp.Proofs.Php.Written
import PhpSharp.Reflection.Call

namespace PhpSharp.Php

theorem Nested.imp {p q : Token → Prop} {ts : List Token} (h : Nested p ts)
    (hpq : ∀ t, p t → q t) : Nested q ts := by
  induction h with
  | nil => exact .nil
  | plain ho hc ht _ ih => exact .plain ho hc (hpq _ ht) (ih hpq)
  | block ho hc hi _ _ ih => exact .block ho hc hi (ih hpq)

end PhpSharp.Php

namespace PhpSharp.Reflection

open Php (Token Nested IsLastSegment)
open Php.Written (Keyword)

variable {front rest head ts : List Token} {arguments : List (List Token)}
  {kind : Sdk.ConnectionKind}

/-! ## Arguments -/

/-- The token is no comma. -/
def NoComma (t : Token) : Prop := t.isPunctuation ',' = false

instance : DecidablePred NoComma :=
  fun t => inferInstanceAs (Decidable (t.isPunctuation ',' = false))

/-- The tokens between the parentheses of a call, and its arguments. Each may be empty, but
    nothing behind the last comma is no argument. -/
inductive ArgumentList : List (List Token) → List Token → Prop
  | none : ArgumentList [] []
  | last {argument} : argument ≠ [] → Nested NoComma argument → ArgumentList [argument] argument
  | cons {argument arguments ts line} : Nested NoComma argument → ArgumentList arguments ts →
      ArgumentList (argument :: arguments) (argument ++ ⟨.punctuation ',', line⟩ :: ts)

/-- A well-nested run belongs to the argument under way; outside of its brackets only commas
    could end that. -/
theorem argumentsFrom_nested {p : Token → Prop} {argument : List Token} (h : Nested p argument)
    {depth : Nat} (hp : depth = 0 → ∀ t, p t → NoComma t) (current rest : List Token) :
    argumentsFrom depth current (argument ++ rest) =
      argumentsFrom depth (argument.reverse ++ current) rest := by
  induction h generalizing depth current rest with
  | nil => rfl
  | @plain p t ts ho hc ht _ ih =>
    have hcomma : (t.isPunctuation ',' && decide (depth = 0)) = false := by
      by_cases hd : depth = 0
      · rw [show t.isPunctuation ',' = false from hp hd t ht, Bool.false_and]
      · simp [hd]
    rw [List.cons_append, argumentsFrom]
    simp only [ho, hc, hcomma, Option.isSome_none, Bool.false_eq_true, if_false]
    rw [ih hp, List.reverse_cons, List.append_assoc, List.singleton_append]
  | @block p o inner c ts b ho hc _ _ ihi ih =>
    have hinside : depth + 1 = 0 → ∀ t, True → NoComma t := fun hd => nomatch hd
    rw [List.append_assoc, List.cons_append, List.cons_append, argumentsFrom, ho,
      Option.isSome_some, if_pos rfl, ihi hinside, argumentsFrom, Php.Token.opens?_of_closes? hc,
      hc]
    simp only [Option.isSome_none, Option.isSome_some, Bool.false_eq_true, if_false, if_true,
      Nat.add_eq_zero_iff, Nat.one_ne_zero, and_false, Nat.add_sub_cancel]
    rw [ih hp]
    simp

theorem argumentsFrom_list (h : ArgumentList arguments ts) {closing : Token} {b : Php.Bracket}
    (hc : closing.closes? = some b) (after : List Token) :
    argumentsFrom 0 [] (ts ++ closing :: after) = arguments := by
  have hcomma : ∀ {depth : Nat}, depth = 0 → ∀ t, NoComma t → NoComma t := fun _ _ h => h
  have ho := Php.Token.opens?_of_closes? hc
  induction h with
  | none => simp [argumentsFrom, ho, hc]
  | last hne hn => simp [argumentsFrom_nested hn hcomma, argumentsFrom, ho, hc, hne]
  | cons hn _ ih =>
    rw [List.append_assoc, argumentsFrom_nested hn hcomma, List.append_nil, List.cons_append,
      argumentsFrom]
    have hplain : ∀ line, (⟨.punctuation ',', line⟩ : Token).opens? = none ∧
        (⟨.punctuation ',', line⟩ : Token).closes? = none := fun _ => ⟨rfl, rfl⟩
    simp [hplain, Token.isPunctuation, ih]

/-- **The arguments of a call are split off**, whatever stands behind it. -/
theorem splitArguments_list (h : ArgumentList arguments ts) {closing : Token} {b : Php.Bracket}
    (hc : closing.closes? = some b) (after : List Token) :
    splitArguments (ts ++ closing :: after) = arguments :=
  argumentsFrom_list h hc after

/-! ## Searches -/

section
variable {α κ : Type} {Head : List Token → κ → Prop} {found : κ → List Token → α}
  {find at? : List Token → Option α} {k : κ}

/-- There is a head among the tokens. -/
def Has (Head : List Token → κ → Prop) (ts : List Token) : Prop :=
  ∃ head k, Head head k ∧ head <:+: ts

/-- A search for the first head. What is found depends on the head and on what stands behind. -/
structure Search (Head : List Token → κ → Prop) (found : κ → List Token → α)
    (find at? : List Token → Option α) : Prop where
  nil : find [] = none
  cons : ∀ t ts, find (t :: ts) = (at? (t :: ts)).or (find ts)
  at_iff : ∀ ts a, at? ts = some a ↔
    ∃ head k rest, Head head k ∧ ts = head ++ rest ∧ a = found k rest
  ne_nil : ∀ head k, Head head k → head ≠ []
  /-- No head reaches from what stands in front into another head. -/
  apart : ∀ t front head k rest head' k' rest', Head head k → Head head' k' →
    t :: front ++ (head ++ rest) = head' ++ rest' → head' <+: t :: front

theorem Has.of_infix {us : List Token} (h : Has Head us) (hi : us <:+: ts) : Has Head ts := by
  obtain ⟨head, k, hhead, hinfix⟩ := h
  exact ⟨head, k, hhead, hinfix.trans hi⟩

/-- **The first head is found**, whatever stands behind it. -/
theorem Search.append (s : Search Head found find at?) (hf : ¬Has Head front)
    (hh : Head head k) (rest : List Token) :
    find (front ++ (head ++ rest)) = some (found k rest) := by
  induction front with
  | nil =>
    have hat := (s.at_iff _ _).2 ⟨head, k, rest, hh, rfl, rfl⟩
    cases hhead : head with
    | nil => exact absurd hhead (s.ne_nil head k hh)
    | cons t head' =>
      rw [hhead] at hat
      rw [List.nil_append, List.cons_append, s.cons, ← List.cons_append, hat, Option.some_or]
  | cons t front ih =>
    have hat : at? (t :: front ++ (head ++ rest)) = none := by
      rw [Option.eq_none_iff_forall_ne_some]
      intro a ha
      obtain ⟨head', k', rest', hh', he, -⟩ := (s.at_iff _ _).1 ha
      exact hf ⟨head', k', hh', (s.apart t front head k rest head' k' rest' hh hh' he).isInfix⟩
    rw [List.cons_append, s.cons, ← List.cons_append, hat, Option.none_or]
    exact ih fun h => hf (h.of_infix (List.suffix_cons t front).isInfix)

theorem Search.eq_none_iff (s : Search Head found find at?) : find ts = none ↔ ¬Has Head ts := by
  induction ts with
  | nil =>
    refine ⟨fun _ ⟨head, k, hh, hinfix⟩ => ?_, fun _ => s.nil⟩
    exact s.ne_nil head k hh (List.infix_nil.1 hinfix)
  | cons t ts ih =>
    rw [s.cons, Option.or_eq_none_iff, ih, Option.eq_none_iff_forall_ne_some]
    constructor
    · rintro ⟨hat, hrest⟩ ⟨head, k, hh, hinfix⟩
      rcases List.infix_cons_iff.1 hinfix with ⟨rest, he⟩ | hinfix
      · exact hat _ ((s.at_iff _ _).2 ⟨head, k, rest, hh, he.symm, rfl⟩)
      · exact hrest ⟨head, k, hh, hinfix⟩
    · intro h
      refine ⟨fun a hat => ?_, fun hrest => h (hrest.of_infix (List.suffix_cons t ts).isInfix)⟩
      obtain ⟨head, k, rest, hh, he, -⟩ := (s.at_iff _ _).1 hat
      exact h ⟨head, k, hh, he ▸ (List.prefix_append head rest).isInfix⟩

end

/-! ## Connection calls -/

/-- The start of a connection call: `$this->name(` -/
inductive ConnectionHead : List Token → Sdk.ConnectionKind → Prop
  | mk {name kind l₁ l₂ l₃ l₄} : connectionKind? name = some kind →
      ConnectionHead [⟨.variable "this", l₁⟩, ⟨.arrow, l₂⟩, ⟨.name name, l₃⟩,
        ⟨.punctuation '(', l₄⟩] kind

theorem connectionCallAt?_eq_some_iff {found : Sdk.ConnectionKind × List (List Token)} :
    connectionCallAt? ts = some found ↔
      ∃ head kind rest, ConnectionHead head kind ∧ ts = head ++ rest ∧
        found = (kind, splitArguments rest) := by
  constructor
  · intro h
    unfold connectionCallAt? at h
    split at h
    · rename_i l₁ l₂ name paren rest
      split at h
      · rename_i hparen
        obtain ⟨kind, hkind, rfl⟩ := Option.map_eq_some_iff.1 h
        obtain ⟨text, hname, hkind⟩ := Option.bind_eq_some_iff.1 hkind
        obtain ⟨nameKind, l₃⟩ := name
        cases nameKind <;> cases hname
        rw [Token.eq_of_isPunctuation hparen]
        exact ⟨_, kind, rest, .mk hkind, rfl, rfl⟩
      · cases h
    · cases h
  · rintro ⟨_, kind, rest, ⟨hkind⟩, rfl, rfl⟩
    simp [connectionCallAt?, Token.isPunctuation, Token.name?, hkind]

theorem connectionCall?_search :
    Search ConnectionHead (fun kind rest => (kind, splitArguments rest)) connectionCall?
      connectionCallAt? where
  nil := rfl
  cons _ _ := rfl
  at_iff _ _ := connectionCallAt?_eq_some_iff
  ne_nil := by
    rintro _ _ ⟨-⟩
    exact List.cons_ne_nil _ _
  apart := by
    rintro t front _ _ rest _ _ rest' ⟨-⟩ ⟨-⟩ he
    -- the variable of the one head is no later token of the other
    match front, he with
    | [], he => simp at he
    | [_], he => simp at he
    | [_, _], he => simp at he
    | a :: b :: c :: front, he =>
      simp only [List.cons_append, List.nil_append, List.cons.injEq] at he
      obtain ⟨rfl, rfl, rfl, rfl, -⟩ := he
      exact List.prefix_append _ front

/-- **The first connection call is found with its arguments.** -/
theorem connectionCall?_call (hf : ¬Has ConnectionHead front) (hh : ConnectionHead head kind)
    {inside : List Token} (hl : ArgumentList arguments inside) {closing : Token} {b : Php.Bracket}
    (hc : closing.closes? = some b) (after : List Token) :
    connectionCall? (front ++ (head ++ (inside ++ closing :: after))) = some (kind, arguments) := by
  rw [connectionCall?_search.append hf hh, splitArguments_list hl hc]

/-! ## Requests -/

/-- The start of a request: `new ApiRequest(`, where the class may have a qualified name. -/
inductive RequestHead : List Token → Unit → Prop
  | mk {word name segment l₁ l₂ l₃} : Text.sameLetters word "new" = true →
      IsLastSegment segment name → Text.sameLetters segment "ApiRequest" = true →
      RequestHead [⟨.name word, l₁⟩, ⟨.name name, l₂⟩, ⟨.punctuation '(', l₃⟩] ()

theorem requestAt?_eq_some_iff :
    requestAt? ts = some arguments ↔
      ∃ head k rest, RequestHead head k ∧ ts = head ++ rest ∧ arguments = splitArguments rest := by
  constructor
  · intro h
    unfold requestAt? at h
    split at h
    · rename_i word name paren rest
      split at h
      · rename_i hmarks
        simp only [Bool.and_eq_true] at hmarks
        obtain ⟨⟨hword, hparen⟩, hname⟩ := hmarks
        obtain ⟨text, l₁, rfl, hnew⟩ := Token.isName_iff.1 hword
        obtain ⟨className, hclass, hrequest⟩ := (Option.any_eq_true ..).1 hname
        obtain ⟨nameKind, l₂⟩ := name
        cases nameKind <;> cases hclass
        rw [Token.eq_of_isPunctuation hparen, ← Option.some.inj h]
        exact ⟨_, (), rest, .mk hnew (Php.unqualified_eq_iff.1 rfl) hrequest, rfl, rfl⟩
      · cases h
    · cases h
  · rintro ⟨_, _, rest, ⟨hnew, hsegment, hrequest⟩, rfl, rfl⟩
    simp [requestAt?, Token.isName, Token.isPunctuation, Token.name?, hnew,
      Php.unqualified_eq_iff.2 hsegment, hrequest]

theorem request?_search :
    Search RequestHead (fun _ rest => splitArguments rest) request? requestAt? where
  nil := rfl
  cons _ _ := rfl
  at_iff _ _ := requestAt?_eq_some_iff
  ne_nil := by
    rintro _ _ ⟨-⟩
    exact List.cons_ne_nil _ _
  apart := by
    rintro t front _ _ rest _ _ rest' ⟨-, -, -⟩ ⟨-, -, -⟩ he
    -- the names of the one head are no parenthesis of the other
    match front, he with
    | [], he => simp at he
    | [_], he => simp at he
    | a :: b :: front, he =>
      simp only [List.cons_append, List.nil_append, List.cons.injEq] at he
      obtain ⟨rfl, rfl, rfl, -⟩ := he
      exact List.prefix_append _ front

/-- **The first request is found with its arguments.** -/
theorem request?_call (hf : ¬Has RequestHead front) (hh : RequestHead head ())
    {inside : List Token} (hl : ArgumentList arguments inside) {closing : Token} {b : Php.Bracket}
    (hc : closing.closes? = some b) (after : List Token) :
    request? (front ++ (head ++ (inside ++ closing :: after))) = some arguments := by
  rw [request?_search.append hf hh, splitArguments_list hl hc]

end PhpSharp.Reflection
