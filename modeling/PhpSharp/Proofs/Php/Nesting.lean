/-
  Well-nested runs of tokens: every bracket that opens is closed by one of its kind, and
  nothing closes that was not opened.

  * `Nested p ts`: the run `ts` is well nested, and its tokens outside all brackets satisfy `p`;
  * `readBlock_nested`: a block around a well-nested run is read up to its own closing bracket,
    whatever follows; `readBlock_eq_ok_iff`: nothing else is read as a block.
-/
import Mathlib.Tactic.SplitIfs
import PhpSharp.Php.Block

namespace PhpSharp.Php

/-- A well-nested run of tokens; those outside all of its brackets satisfy `p`. -/
inductive Nested : (Token → Prop) → List Token → Prop
  /-- Nothing -/
  | nil {p} : Nested p []
  /-- A token that is no bracket -/
  | plain {p t ts} : t.opens? = none → t.closes? = none → p t → Nested p ts → Nested p (t :: ts)
  /-- A block, with any tokens inside -/
  | block {p o inner c ts b} : o.opens? = some b → c.closes? = some b →
      Nested (fun _ => True) inner → Nested p ts → Nested p (o :: inner ++ c :: ts)

/-- A well-nested run of any tokens. -/
abbrev WellNested : List Token → Prop := Nested fun _ => True

/-- Tokens in front of what was read. -/
def Parsed.prepend (ts : List Token) (p : Parsed (List Token)) : Parsed (List Token) :=
  p.map fun (body, rest) => (ts ++ body, rest)

@[simp] theorem Parsed.prepend_nil (p : Parsed (List Token)) : Parsed.prepend [] p = p := by
  cases p <;> rfl

@[simp] theorem Parsed.push_prepend (t : Token) (ts : List Token) (p : Parsed (List Token)) :
    Parsed.push t (Parsed.prepend ts p) = Parsed.prepend (t :: ts) p := by
  cases p <;> rfl

@[simp] theorem Parsed.prepend_push (t : Token) (ts : List Token) (p : Parsed (List Token)) :
    Parsed.prepend ts (Parsed.push t p) = Parsed.prepend (ts ++ [t]) p := by
  cases p <;> simp [Parsed.prepend, Parsed.push, Except.map]

@[simp] theorem Parsed.prepend_prepend (us ts : List Token) (p : Parsed (List Token)) :
    Parsed.prepend us (Parsed.prepend ts p) = Parsed.prepend (us ++ ts) p := by
  cases p <;> simp [Parsed.prepend, Except.map]

theorem Nested.append {p : Token → Prop} {ts us : List Token} (h : Nested p ts)
    (hu : Nested p us) : Nested p (ts ++ us) := by
  induction h with
  | nil => exact hu
  | plain ho hc ht _ ih => exact .plain ho hc ht (ih hu)
  | block ho hc hi _ _ ih =>
    rw [List.append_assoc, List.cons_append]
    exact .block ho hc hi (ih hu)

theorem Bracket.eq_opening {c : Char} {b : Bracket} (h : Bracket.ofOpening? c = some b) :
    c = b.opening := by
  unfold Bracket.ofOpening? at h
  split_ifs at h with h₁ h₂ h₃ <;> cases h <;> assumption

theorem Bracket.eq_closing {c : Char} {b : Bracket} (h : Bracket.ofClosing? c = some b) :
    c = b.closing := by
  unfold Bracket.ofClosing? at h
  split_ifs at h with h₁ h₂ h₃ <;> cases h <;> assumption

theorem Token.punctuation?_eq_some {t : Token} {c : Char} (h : t.punctuation? = some c) :
    t.kind = .punctuation c := by
  obtain ⟨kind, line⟩ := t
  cases kind <;> simp_all [Token.punctuation?]

/-- A token that opens a bracket is its opening character. -/
theorem Token.kind_of_opens? {t : Token} {b : Bracket} (h : t.opens? = some b) :
    t.kind = .punctuation b.opening := by
  obtain ⟨c, hc, hb⟩ := Option.bind_eq_some_iff.1 h
  rw [Token.punctuation?_eq_some hc, Bracket.eq_opening hb]

/-- A token that closes a bracket is its closing character. -/
theorem Token.kind_of_closes? {t : Token} {b : Bracket} (h : t.closes? = some b) :
    t.kind = .punctuation b.closing := by
  obtain ⟨c, hc, hb⟩ := Option.bind_eq_some_iff.1 h
  rw [Token.punctuation?_eq_some hc, Bracket.eq_closing hb]

theorem Token.opens?_eq_some_iff {t : Token} {b : Bracket} :
    t.opens? = some b ↔ t.kind = .punctuation b.opening := by
  refine ⟨Token.kind_of_opens?, fun h => ?_⟩
  rw [Token.opens?, Token.punctuation?, h]
  cases b <;> rfl

theorem Token.closes?_eq_some_iff {t : Token} {b : Bracket} :
    t.closes? = some b ↔ t.kind = .punctuation b.closing := by
  refine ⟨Token.kind_of_closes?, fun h => ?_⟩
  rw [Token.closes?, Token.punctuation?, h]
  cases b <;> rfl

/-- No token closes what it opens. -/
theorem Token.opens?_of_closes? {t : Token} {b : Bracket} (h : t.closes? = some b) :
    t.opens? = none := by
  rw [Token.opens?, Token.punctuation?, Token.kind_of_closes? h]
  cases b <;> rfl

/-- No token opens what it closes. -/
theorem Token.closes?_of_opens? {t : Token} {b : Bracket} (h : t.opens? = some b) :
    t.closes? = none := by
  rw [Token.closes?, Token.punctuation?, Token.kind_of_opens? h]
  cases b <;> rfl

/-- What closes nothing is no closing character. -/
theorem Token.isPunctuation_of_closes? {t : Token} (h : t.closes? = none) (b : Bracket) :
    t.isPunctuation b.closing = false := by
  rw [← Bool.not_eq_true]
  intro hb
  rw [Token.closes?, Token.punctuation?, eq_of_beq hb] at h
  cases b <;> cases h

/-- A well-nested run closes nothing at its start. -/
theorem Nested.closes?_head {p : Token → Prop} {t : Token} {ts : List Token}
    (h : Nested p (t :: ts)) : t.closes? = none := by
  cases h with
  | plain _ hc _ _ => exact hc
  | block ho _ _ _ => exact Token.closes?_of_opens? ho

/-- **A well-nested run stays inside the open bracket.** The reader goes through it and is left
    with the same open brackets as before. -/
theorem closeBlock_nested {p : Token → Prop} {ts : List Token} (h : Nested p ts)
    (unclosed : SyntaxError) (inner : Bracket) (outer : List Bracket) (rest : List Token) :
    closeBlock unclosed inner outer (ts ++ rest) =
      Parsed.prepend ts (closeBlock unclosed inner outer rest) := by
  induction h generalizing inner outer rest with
  | nil => simp
  | plain ho hc _ _ ih => simp only [List.cons_append, closeBlock, ho, hc, ih, Parsed.push_prepend]
  | @block p o body c ts b ho hc _ _ ihb ih =>
    have ho' := Token.opens?_of_closes? hc
    -- inside the block `b` is the open bracket, and `inner` waits outside
    calc closeBlock unclosed inner outer ((o :: body ++ c :: ts) ++ rest)
        = Parsed.push o (closeBlock unclosed b (inner :: outer) (body ++ c :: (ts ++ rest))) := by
          simp [closeBlock, ho]
      _ = Parsed.push o (Parsed.prepend body
            (Parsed.push c (closeBlock unclosed inner outer (ts ++ rest)))) := by
          rw [ihb]; simp [closeBlock, ho', hc]
      _ = Parsed.prepend (o :: body ++ c :: ts) (closeBlock unclosed inner outer rest) := by
          rw [ih]; simp

/-- **A block is read up to its own closing bracket.** -/
theorem readBlock_nested {o c : Token} {b : Bracket} {body : List Token} (ho : o.opens? = some b)
    (hc : c.closes? = some b) (h : WellNested body) (eof : Nat) (rest : List Token) :
    readBlock eof (o :: (body ++ c :: rest)) = .ok (body, rest) := by
  have ho' := Token.opens?_of_closes? hc
  simp only [readBlock, ho, closeBlock_nested h, closeBlock, ho', hc]
  simp [Parsed.prepend, Except.map]

/-! ## Only well-nested runs -/

/-- The run `ts` in front of the token `close` closes what is open: it is well nested but for a
    closing bracket for each open one, and `close` closes the outermost. -/
def Unwinds (close : Token) : Bracket → List Bracket → List Token → Prop
  | inner, [], ts => WellNested ts ∧ close.closes? = some inner
  | inner, next :: outer, ts => ∃ run c behind, ts = run ++ c :: behind ∧ WellNested run ∧
      c.closes? = some inner ∧ Unwinds close next outer behind

section
variable {close t : Token} {inner : Bracket} {outer : List Bracket} {ts : List Token}

theorem Unwinds.prepend {run : List Token} (hr : WellNested run)
    (h : Unwinds close inner outer ts) : Unwinds close inner outer (run ++ ts) := by
  cases outer with
  | nil => exact ⟨hr.append h.1, h.2⟩
  | cons next outer =>
    obtain ⟨run', c, behind, rfl, hrun, hc, h⟩ := h
    exact ⟨run ++ run', c, behind, (List.append_assoc ..).symm, hr.append hrun, hc, h⟩

theorem Unwinds.block {b : Bracket} (ho : t.opens? = some b)
    (h : Unwinds close b (inner :: outer) ts) : Unwinds close inner outer (t :: ts) := by
  obtain ⟨run, c, behind, rfl, hrun, hc, h⟩ := h
  have hblock : WellNested (t :: run ++ c :: []) := .block ho hc hrun .nil
  have hall := h.prepend hblock
  rwa [List.append_assoc, List.singleton_append] at hall

theorem closeBlock_unwinds {unclosed : SyntaxError} {body rest : List Token}
    (h : closeBlock unclosed inner outer ts = .ok (body, rest)) :
    ∃ close, ts = body ++ close :: rest ∧ Unwinds close inner outer body := by
  induction ts generalizing inner outer body with
  | nil => cases h
  | cons t ts ih =>
    unfold closeBlock at h
    split at h
    · rename_i ho
      obtain ⟨body, hb, rfl⟩ := Parsed.push_eq_ok h
      obtain ⟨close, rfl, hu⟩ := ih hb
      exact ⟨close, rfl, hu.block ho⟩
    · rename_i ho hc
      obtain ⟨body, hb, rfl⟩ := Parsed.push_eq_ok h
      obtain ⟨close, rfl, hu⟩ := ih hb
      exact ⟨close, rfl, hu.prepend (.plain ho hc trivial .nil)⟩
    · rename_i b _ hc
      split at h
      · cases h
      rename_i hb
      obtain rfl : b = inner := by simpa using hb
      split at h
      · cases h
        exact ⟨t, rfl, .nil, hc⟩
      · obtain ⟨body, hb, rfl⟩ := Parsed.push_eq_ok h
        obtain ⟨close, rfl, hu⟩ := ih hb
        exact ⟨close, rfl, [], t, body, rfl, .nil, hc, hu⟩

end

/-- **What is read as a block** is a well-nested run between an opening bracket and the closing one
    of its kind. -/
theorem readBlock_eq_ok_iff {eof : Nat} {ts body rest : List Token} :
    readBlock eof ts = .ok (body, rest) ↔ ∃ o c b, ts = o :: (body ++ c :: rest) ∧
      o.opens? = some b ∧ c.closes? = some b ∧ WellNested body := by
  constructor
  · intro h
    cases ts with
    | nil => cases h
    | cons o ts =>
      rw [readBlock] at h
      split at h
      · rename_i b ho
        obtain ⟨c, rfl, hbody, hc⟩ := closeBlock_unwinds h
        exact ⟨o, c, b, rfl, ho, hc, hbody⟩
      · cases h
  · rintro ⟨o, c, b, rfl, ho, hc, hbody⟩
    exact readBlock_nested ho hc hbody eof rest

/-- **What opens inside a well-nested run is closed inside it,** with a well-nested run between. -/
theorem Nested.exists_close {p : Token → Prop} {front behind : List Token} {o : Token} {b : Bracket}
    (h : Nested p (front ++ o :: behind)) (ho : o.opens? = some b) :
    ∃ inside c after, behind = inside ++ c :: after ∧ c.closes? = some b ∧ WellNested inside := by
  generalize hts : front ++ o :: behind = ts at h
  induction h generalizing front behind with
  | nil => simp at hts
  | @plain p t ts ht _ _ _ ih =>
    cases front with
    | nil =>
      obtain rfl : o = t := (List.cons.inj hts).1
      cases ho.symm.trans ht
    | cons u front => exact ih (List.cons.inj hts).2
  | @block p o' inner c ts b' ho' hc hinner _ ihi ih =>
    have hclosing : o ≠ c := by
      rintro rfl
      cases ho.symm.trans (Token.opens?_of_closes? hc)
    cases front with
    | nil =>
      rw [List.nil_append, List.cons_append, List.cons.injEq] at hts
      obtain ⟨rfl, rfl⟩ := hts
      cases ho.symm.trans ho'
      exact ⟨inner, c, ts, rfl, hc, hinner⟩
    | cons u front =>
      -- the bracket opens inside the block or behind it
      have hts := (List.cons.inj hts).2
      rcases List.append_eq_append_iff.1 hts with ⟨run, rfl, hrun⟩ | ⟨run, rfl, hrun⟩
      · cases run with
        | nil => exact absurd (List.cons.inj hrun).1 hclosing
        | cons u run =>
          obtain ⟨rfl, rfl⟩ := List.cons.inj hrun
          obtain ⟨inside, c', after, rfl, hc', hinside⟩ := ihi rfl
          exact ⟨inside, c', after ++ c :: ts, by simp, hc', hinside⟩
      · cases run with
        | nil => exact absurd (List.cons.inj hrun).1.symm hclosing
        | cons u run => exact ih (List.cons.inj hrun).2.symm

end PhpSharp.Php
