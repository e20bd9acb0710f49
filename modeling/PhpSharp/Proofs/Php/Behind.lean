/-
  What is read behind a piece of source: the tokens, or the error, that the rest of the source
  gives by itself, so many lines further down.

  * `behind`: an answer behind tokens and lines;
  * `tokenize_heads`: behind its first lexeme, a source is read as by itself;
  * `Arrives.tokenize_eq`: so it is behind every place that the lexer arrives at.
-/
import PhpSharp.Proofs.Php.Locality

namespace PhpSharp.Php

/-- A token some lines further down. -/
def Token.below (n : Nat) (t : Token) : Token := { t with line := t.line + n }

/-- An error some lines further down. -/
def SyntaxError.below (n : Nat) (e : SyntaxError) : SyntaxError := { e with line := e.line + n }

/-- What a source gives behind the tokens `ts` and `n` line feeds. -/
def behind (ts : List Token) (n : Nat) :
    Except SyntaxError (List Token) → Except SyntaxError (List Token)
  | .ok us => .ok (ts ++ us.map (Token.below n))
  | .error e => .error (e.below n)

@[simp] theorem behind_ok (ts us : List Token) (n : Nat) :
    behind ts n (.ok us) = .ok (ts ++ us.map (Token.below n)) := rfl

@[simp] theorem behind_error (ts : List Token) (n : Nat) (e : SyntaxError) :
    behind ts n (.error e) = .error (e.below n) := rfl

theorem behind_behind (ts us : List Token) (n m : Nat)
    (answer : Except SyntaxError (List Token)) :
    behind ts n (behind us m answer) = behind (ts ++ us.map (Token.below n)) (n + m) answer := by
  cases answer with
  | ok vs =>
    simp [Token.below, Function.comp_def, Nat.add_comm n m, Nat.add_assoc]
  | error e => simp [SyntaxError.below, Nat.add_comm n m, Nat.add_assoc]

/-! ## Steps of the lexer -/

section
variable {line : Nat} {done : List Token} {c : Char} {cs rest : List Char}

theorem tokensFrom_error {feeds : Nat} {fault : SyntaxFault}
    (h : Lexeme.next c cs = .error (feeds, fault)) :
    tokensFrom line done (c :: cs) = .error ⟨line + feeds, fault⟩ := by
  rw [tokensFrom.eq_def]
  dsimp only
  split
  · rename_i h'
    cases h.symm.trans h'
    rfl
  · rename_i h'
    cases h.symm.trans h'

theorem tokensFrom_ok {l : Lexeme} (h : Lexeme.next c cs = .ok (l, rest)) :
    tokensFrom line done (c :: cs) =
      tokensFrom (line + lineFeeds l.text) (l.token?.toList.map (⟨·, line⟩) ++ done) rest := by
  rw [tokensFrom.eq_def]
  dsimp only
  split
  · rename_i h'
    cases h.symm.trans h'
  · rename_i h'
    cases h.symm.trans h'
    rfl

/-- Lines and tokens before a source change nothing but its lines. -/
theorem tokensFrom_below (n line : Nat) (done before : List Token) (cs : List Char) :
    tokensFrom (line + n) (done.map (Token.below n) ++ before) cs =
      behind before.reverse n (tokensFrom line done cs) := by
  fun_induction tokensFrom line done cs with
  | case1 line done => simp [tokensFrom_nil]
  | case2 line done c cs feeds fault h =>
    rw [tokensFrom_error h, behind_error, SyntaxError.below, Nat.add_right_comm]
  | case3 line done c cs l rest h read ih =>
    have hread : l.token?.toList.map (⟨·, line + n⟩) ++ (done.map (Token.below n) ++ before) =
        (read ++ done).map (Token.below n) ++ before := by
      simp [read, Token.below, Function.comp_def]
    rw [tokensFrom_ok h, hread, Nat.add_right_comm, ih]

/-- Inside the open tag, a source is read behind what stands before it. -/
theorem tokensFrom_behind (n : Nat) (before : List Token) (cs : List Char) :
    tokensFrom (1 + n) before cs =
      behind before.reverse n (tokenize ("<?php " ++ String.ofList cs)) := by
  rw [tokenize_openTag, ← tokensFrom_below, List.map_nil, List.nil_append]

end

/-! ## Lexemes -/

theorem reverse_tokenOf (kind? : Option TokenKind) (line : Nat) :
    (kind?.toList.map (Token.mk · line)).reverse = kind?.toList.map (Token.mk · line) := by
  cases kind? <;> rfl

/-- **Behind its first lexeme, a source is read as by itself.** -/
theorem tokenize_heads {l : Lexeme} {rest : List Char} (h : Heads l rest) :
    tokenize ("<?php " ++ String.ofList (l.text ++ rest)) =
      behind (l.token?.toList.map (⟨·, 1⟩)) (lineFeeds l.text)
        (tokenize ("<?php " ++ String.ofList rest)) := by
  rw [tokenize_openTag, tokensFrom_heads h, List.append_nil, tokensFrom_behind, reverse_tokenOf]

/-- The tokens of lexemes, the first of which starts on a line. -/
def Lexeme.tokens (line : Nat) : List Lexeme → List Token
  | [] => []
  | l :: ls =>
    l.token?.toList.map (⟨·, line⟩) ++ Lexeme.tokens (line + lineFeeds l.text) ls

theorem tokensFrom_lexemes {ls : List Lexeme} {rest : List Char} (h : Leads ls rest) (line : Nat)
    (done : List Token) :
    tokensFrom line done (ls.flatMap Lexeme.text ++ rest) =
      tokensFrom (line + lineFeeds (ls.flatMap Lexeme.text))
        ((Lexeme.tokens line ls).reverse ++ done) rest := by
  induction ls generalizing line done with
  | nil => rfl
  | cons l ls ih =>
    rw [List.flatMap_cons, List.append_assoc, tokensFrom_heads h.1, ih h.2, lineFeeds_append,
      Nat.add_assoc, Lexeme.tokens, List.reverse_append, List.append_assoc,
      reverse_tokenOf]

/-- **What the lexer arrives at is read as by itself,** behind the tokens before it. These are the
    same whichever string literal stands there. -/
theorem Arrives.tokenize_eq {before rest : List Char} (h : Arrives before rest) : ∃ ts,
    tokenize (String.ofList (before ++ rest)) =
      behind ts (lineFeeds before) (tokenize ("<?php " ++ String.ofList rest)) ∧
    ∀ rest', UpToString rest rest' → tokenize (String.ofList (before ++ rest')) =
      behind ts (lineFeeds before) (tokenize ("<?php " ++ String.ofList rest')) := by
  obtain ⟨html, ls, rfl, hhtml, hleads⟩ := h
  have hread : ∀ rest', skipHtml [] (html ++ ls.flatMap Lexeme.text ++ rest') =
      (html, ls.flatMap Lexeme.text ++ rest') → Leads ls rest' →
      tokenize (String.ofList (html ++ ls.flatMap Lexeme.text ++ rest')) =
        behind (Lexeme.tokens (1 + lineFeeds html) ls)
          (lineFeeds (html ++ ls.flatMap Lexeme.text))
          (tokenize ("<?php " ++ String.ofList rest')) := by
    intro rest' hskip hlead
    rw [tokenize, String.toList_ofList, hskip]
    dsimp only
    rw [tokensFrom_lexemes hlead, List.append_nil, Nat.add_assoc, ← lineFeeds_append,
      tokensFrom_behind, List.reverse_reverse]
  refine ⟨_, hread rest hhtml hleads, fun rest' hup => hread rest' ?_ (hleads.extend hup)⟩
  obtain ⟨text, hfirst, -, hskip⟩ := skipHtml_extend hhtml (hup.append _)
  obtain rfl : html = text := hfirst
  rw [List.append_assoc]
  exact hskip

end PhpSharp.Php
