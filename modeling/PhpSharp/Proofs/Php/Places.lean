/-
  Where blocks stand among the tokens.

  `readBlock` takes a block off a list of tokens. Here the same is done by a reader that stays in
  the list: it goes on from place to place, keeps the open brackets on a stack, and cuts the body
  out of the list when the outermost bracket closes.

  * `readBlockAt_eq`: it reads what `readBlock` reads, and never asks for tokens out of range;
  * `BlockAt`: a block stands at a place; `readBlockAt_eq_ok_iff`: nothing else is read as one;
  * `ReadsMethods.placed`: the bodies of methods are blocks that stand one behind the other;
  * `blocks_exact`: all of this, for every list of tokens.
-/
import PhpSharp.Proofs.Php.Provenance

namespace PhpSharp.Php

/-! ## Readers with a place -/

/-- The tokens from one place up to another, if both are in the list and in this order. -/
def cut? (ts : List Token) (start stop : Nat) : Option (List Token) :=
  if start ≤ stop ∧ stop ≤ ts.length then some (ts.extract start stop) else none

/-- The line of the token at a place, or at the end that of the last token. -/
def lineAt (ts : List Token) (pos : Nat) : Nat := ((ts[pos]?.or ts.getLast?).map Token.line).getD 1

/-- The bracket that has to be closed next. If none is open, a square one is expected. -/
def Bracket.expected (stack : List Bracket) : Bracket := stack.head?.getD .square

/-- Goes on at the place `pos` up to the bracket that closes the block, whose body starts at
    `start`. The brackets of `stack` are open, the latest first. The result is the body and the
    place behind the block; there is none if the reader asks for tokens that are not there. -/
def closeBlockAt (ts : List Token) (start : Nat) (unclosed : SyntaxError) (pos : Nat)
    (stack : List Bracket) : Option (Except SyntaxError (List Token × Nat)) :=
  match _h : ts[pos]? with
  | none => some (.error unclosed)
  | some t =>
    match t.opens?, t.closes? with
    | some b, _ => closeBlockAt ts start unclosed (pos + 1) (b :: stack)
    | none, none => closeBlockAt ts start unclosed (pos + 1) stack
    | none, some b =>
      if b ≠ Bracket.expected stack then
        some (.error ⟨t.line, .mismatchedBracket b.closing (Bracket.expected stack).closing⟩)
      else if stack.tail = [] then (cut? ts start pos).map fun body => .ok (body, pos + 1)
      else closeBlockAt ts start unclosed (pos + 1) stack.tail
  termination_by ts.length - pos
  decreasing_by all_goals
    have := (List.getElem?_eq_some_iff.1 _h).1
    omega

/-- Reads the block that starts at a place. -/
def readBlockAt (ts : List Token) (pos : Nat) : Option (Except SyntaxError (List Token × Nat)) :=
  match ts[pos]?.bind Token.opens? with
  | none => some (.error ⟨lineAt ts pos, .expectedBracket⟩)
  | some b => closeBlockAt ts (pos + 1) ⟨lineAt ts pos, .unclosedBracket b.opening⟩ (pos + 1) [b]

section
variable {ts : List Token} {t : Token} {start pos : Nat}

theorem drop_of_getElem? (h : ts[pos]? = some t) : ts.drop pos = t :: ts.drop (pos + 1) := by
  obtain ⟨hpos, rfl⟩ := List.getElem?_eq_some_iff.1 h
  exact List.drop_eq_getElem_cons hpos

theorem extract_succ (h : ts[pos]? = some t) (hstart : start ≤ pos) :
    ts.extract start (pos + 1) = ts.extract start pos ++ [t] := by
  have hlength : pos + 1 - start = pos - start + 1 := by omega
  have ht : (ts.drop start)[pos - start]? = some t := by
    rw [List.getElem?_drop, Nat.add_sub_cancel' hstart, h]
  rw [List.extract, List.extract, hlength, List.take_add_one, ht, Option.toList_some]

/-- What is read from the place `pos` on, as a run from `start` on and the place behind it. -/
def fromStart (ts : List Token) (start pos : Nat) : List Token × List Token → List Token × Nat :=
  fun (body, rest) => (ts.extract start pos ++ body, ts.length - rest.length)

theorem map_fromStart_push (h : ts[pos]? = some t) (hstart : start ≤ pos)
    (p : Parsed (List Token)) :
    (Parsed.push t p).map (fromStart ts start pos) = p.map (fromStart ts start (pos + 1)) := by
  cases p with
  | error e => rfl
  | ok read =>
    simp only [Parsed.push, Except.map, fromStart, extract_succ h hstart, List.append_assoc,
      List.singleton_append]

/-- **A reader with a place** finds what the reader of the tokens from there on finds. -/
theorem closeBlockAt_eq {unclosed : SyntaxError} {inner : Bracket} {outer : List Bracket}
    (hstart : start ≤ pos) :
    closeBlockAt ts start unclosed pos (inner :: outer) =
      some ((closeBlock unclosed inner outer (ts.drop pos)).map (fromStart ts start pos)) := by
  -- By induction on the rounds. In each of them the place is not before the start, so that there is
  -- something to cut out, and a bracket is open, so that `expected` is the one of `closeBlock`.
  generalize hs : inner :: outer = stack
  fun_induction closeBlockAt ts start unclosed pos stack generalizing inner outer with
  | case1 pos stack h =>
    rw [List.drop_eq_nil_of_le (List.getElem?_eq_none_iff.1 h)]
    rfl
  | case2 pos stack t h b hopens ih =>
    subst hs
    rw [ih (by omega) rfl, drop_of_getElem? h]
    simp only [closeBlock, hopens, map_fromStart_push h hstart]
  | case3 pos stack t h hcloses hopens ih =>
    rw [ih (by omega) hs, drop_of_getElem? h]
    simp only [closeBlock, hopens, hcloses, map_fromStart_push h hstart]
  | case4 pos stack t h b hcloses hopens hb =>
    subst hs
    have hb' : b ≠ inner := hb
    rw [drop_of_getElem? h]
    simp only [closeBlock, hopens, hcloses, if_pos hb']
    rfl
  | case5 pos stack t h b hcloses hopens hb hlast =>
    subst hs
    have hb' : ¬b ≠ inner := hb
    obtain rfl : outer = [] := hlast
    have hpos : pos < ts.length := (List.getElem?_eq_some_iff.1 h).1
    have hplace : ts.length - (ts.length - (pos + 1)) = pos + 1 := by omega
    rw [cut?, if_pos ⟨hstart, Nat.le_of_lt hpos⟩, drop_of_getElem? h]
    simp only [closeBlock, hopens, hcloses, if_neg hb', Option.map_some, Except.map, fromStart,
      List.append_nil, List.length_drop, hplace]
  | case6 pos stack t h b hcloses hopens hb hmore ih =>
    subst hs
    have hb' : ¬b ≠ inner := hb
    cases outer with
    | nil => exact absurd rfl hmore
    | cons next outer =>
      rw [ih (by omega) rfl, drop_of_getElem? h]
      simp only [closeBlock, hopens, hcloses, if_neg hb', map_fromStart_push h hstart]

theorem fromStart_self : fromStart ts start start =
    fun (body, rest) => (body, ts.length - rest.length) := by
  funext ⟨body, rest⟩
  simp [fromStart, List.extract]

/-- **From a place, the block is read** that `readBlock` takes off the tokens from there on. -/
theorem readBlockAt_eq (ts : List Token) (pos : Nat) :
    readBlockAt ts pos = some ((readBlock (ClassFile.lastLine ts) (ts.drop pos)).map
      fun (body, rest) => (body, ts.length - rest.length)) := by
  unfold readBlockAt
  cases h : ts[pos]? with
  | none =>
    rw [List.drop_eq_nil_of_le (List.getElem?_eq_none_iff.1 h)]
    simp only [lineAt, h]
    rfl
  | some t =>
    rw [drop_of_getElem? h, readBlock]
    have hline : lineAt ts pos = t.line := by
      rw [lineAt, h]
      rfl
    rw [hline, Option.bind_some]
    cases hopens : t.opens? with
    | none => rfl
    | some b => exact (closeBlockAt_eq (Nat.le_refl _)).trans (by rw [fromStart_self])

end

/-! ## Blocks at places -/

/-- At the place `pos` stands a block: an opening bracket, the well-nested run `body`, and the
    closing bracket of the same kind. -/
def BlockAt (ts : List Token) (pos : Nat) (b : Bracket) (body : List Token) : Prop :=
  ∃ front opening closing behind, ts = front ++ opening :: body ++ closing :: behind ∧
    front.length = pos ∧ opening.kind = .punctuation b.opening ∧
    closing.kind = .punctuation b.closing ∧ WellNested body

section
variable {ts body : List Token} {pos next : Nat}

/-- **What is read at a place** is the block that stands there, and the place behind it. -/
theorem readBlockAt_eq_ok_iff : readBlockAt ts pos = some (.ok (body, next)) ↔
    (∃ b, BlockAt ts pos b body) ∧ next = pos + body.length + 2 := by
  rw [readBlockAt_eq]
  constructor
  · intro h
    obtain ⟨⟨body, rest⟩, hread, he⟩ := map_eq_ok (Option.some.inj h)
    cases he
    obtain ⟨o, c, b, hsplit, ho, hc, hbody⟩ := readBlock_eq_ok_iff.1 hread
    have hlength : ts.length - pos = body.length + rest.length + 2 := by
      rw [← List.length_drop, hsplit]
      simp only [List.length_cons, List.length_append]
      omega
    have hfront : (ts.take pos).length = pos := List.length_take_of_le (by omega)
    refine ⟨⟨b, ts.take pos, o, c, rest, ?_, hfront, Token.kind_of_opens? ho,
      Token.kind_of_closes? hc, hbody⟩, ?_⟩
    · rw [List.append_assoc, List.cons_append, ← hsplit, List.take_append_drop]
    · omega
  · rintro ⟨⟨b, front, o, c, rest, rfl, rfl, ho, hc, hbody⟩, rfl⟩
    rw [List.append_assoc, List.drop_left, List.cons_append,
      readBlock_nested (Token.opens?_eq_some_iff.2 ho) (Token.closes?_eq_some_iff.2 hc) hbody]
    have hplace : (front ++ o :: (body ++ c :: rest)).length - rest.length =
        front.length + body.length + 2 := by
      simp only [List.length_append, List.length_cons]
      omega
    simp only [Except.map, hplace]

/-- Where no block stands, there is an error. -/
theorem readBlockAt_eq_error_iff : (∃ e, readBlockAt ts pos = some (.error e)) ↔
    ¬∃ b body, BlockAt ts pos b body := by
  have hread := readBlockAt_eq ts pos
  cases h : readBlock (ClassFile.lastLine ts) (ts.drop pos) with
  | error e =>
    rw [h] at hread
    refine ⟨fun _ => ?_, fun _ => ⟨e, hread⟩⟩
    rintro ⟨b, body, hb⟩
    cases hread.symm.trans (readBlockAt_eq_ok_iff.2 ⟨⟨b, hb⟩, rfl⟩)
  | ok read =>
    rw [h] at hread
    obtain ⟨⟨b, hb⟩, -⟩ := readBlockAt_eq_ok_iff.1 hread
    refine ⟨?_, fun hnone => absurd ⟨b, _, hb⟩ hnone⟩
    rintro ⟨e, he⟩
    cases hread.symm.trans he

/-- The bodies of the methods of a file, in order. -/
def ClassFile.bodies (file : ClassFile) : List (List Token) :=
  (file.classes.flatMap ClassDecl.methods).filterMap MethodDecl.body?

/-- The runs of tokens, each with the place of its block, stand one behind the other. -/
abbrev InOrder (runs : List (Nat × List Token)) : Prop :=
  runs.Pairwise fun run later => run.1 + run.2.length + 2 ≤ later.1

/-- **The bodies of methods** that are read one behind the other stand so among the tokens. -/
theorem ReadsMethods.placed {us rest : List Token} {ms : List MethodDecl}
    (h : ReadsMethods us ms rest) (hus : us <:+ ts) :
    ∃ runs : List (Nat × List Token), runs.map Prod.snd = ms.filterMap MethodDecl.body? ∧
      (∀ run ∈ runs, ts.length ≤ run.1 + us.length ∧ BlockAt ts run.1 .brace run.2) ∧
      InOrder runs := by
  induction h with
  | nil => exact ⟨[], rfl, List.forall_mem_nil _, List.Pairwise.nil⟩
  | @cons us us' after rest eof pending m ms hu hm hms ih =>
    have hafter : after <:+ us := (readMethod_suffix hm).trans hu
    obtain ⟨runs, hbodies, hblocks, horder⟩ := ih (hafter.trans hus)
    have hlater : ∀ run ∈ runs, ts.length ≤ run.1 + us.length ∧ BlockAt ts run.1 .brace run.2 := by
      intro run hrun
      obtain ⟨hplace, hblock⟩ := hblocks run hrun
      have := hafter.length_le
      exact ⟨by omega, hblock⟩
    cases hbody : m.body? with
    | none => exact ⟨runs, by rw [List.filterMap_cons_none hbody, hbodies], hlater, horder⟩
    | some body =>
      obtain ⟨o, c, hrun, ho, hc, hnested⟩ := readMethod_body hm hbody
      obtain ⟨front, hfront⟩ := hrun.trans (hu.trans hus)
      -- what is left behind the block is where the next method is read
      have hplace : front.length + body.length + 2 + after.length = ts.length := by
        rw [← hfront]
        simp only [List.length_append, List.length_cons]
        omega
      have hblock : BlockAt ts front.length .brace body :=
        ⟨front, o, c, after, by rw [List.append_assoc, hfront], rfl, eq_of_beq ho, eq_of_beq hc,
          hnested⟩
      have hstart : ts.length ≤ front.length + us.length := by
        have := (hrun.trans hu).length_le
        simp only [List.length_append, List.length_cons] at this
        omega
      refine ⟨(front.length, body) :: runs, ?_, ?_, List.pairwise_cons.2 ⟨fun run hr => ?_, horder⟩⟩
      · rw [List.filterMap_cons_some hbody, List.map_cons, hbodies]
      · exact List.forall_mem_cons.2 ⟨⟨hstart, hblock⟩, hlater⟩
      · have := (hblocks run hr).1
        dsimp only
        omega

end

/-- **Blocks are read exactly.** For every list of tokens:

    * from every place, the reader that stays in the list reads what `readBlock` reads from there
      on, so that it never asks for tokens out of range;
    * it reads a run and ends at a place if the run stands in brackets of one kind and is well
      nested, and the place is behind them; else there is an error;
    * the bodies of the methods of a file are well-nested runs in braces, one behind the other. -/
theorem blocks_exact (ts : List Token) :
    (∀ pos, readBlockAt ts pos = some ((readBlock (ClassFile.lastLine ts) (ts.drop pos)).map
        fun (body, rest) => (body, ts.length - rest.length))) ∧
      (∀ pos body next, readBlockAt ts pos = some (.ok (body, next)) ↔
        (∃ b, BlockAt ts pos b body) ∧ next = pos + body.length + 2) ∧
      (∀ pos, (∃ e, readBlockAt ts pos = some (.error e)) ↔ ¬∃ b body, BlockAt ts pos b body) ∧
      ∀ file, ClassFile.ofTokens ts = .ok file → ∃ runs : List (Nat × List Token),
        runs.map Prod.snd = file.bodies ∧
        (∀ run ∈ runs, BlockAt ts run.1 .brace run.2) ∧ InOrder runs := by
  refine ⟨readBlockAt_eq ts, fun _ _ _ => readBlockAt_eq_ok_iff,
    fun _ => readBlockAt_eq_error_iff, fun file h => ?_⟩
  obtain ⟨runs, hbodies, hblocks, horder⟩ := (ofTokens_methods h).placed List.suffix_rfl
  exact ⟨runs, hbodies, fun run hrun => (hblocks run hrun).2, horder⟩

/-- `class Ad { function get() { f([1]); } function set(); function put() { } }` -/
def nestedTokens : List Token :=
  [.name "class", .name "Ad", .punctuation '{',
    .name "function", .name "get", .punctuation '(', .punctuation ')', .punctuation '{',
    .name "f", .punctuation '(', .punctuation '[', .number "1", .punctuation ']', .punctuation ')',
    .punctuation ';', .punctuation '}',
    .name "function", .name "set", .punctuation '(', .punctuation ')', .punctuation ';',
    .name "function", .name "put", .punctuation '(', .punctuation ')', .punctuation '{',
    .punctuation '}', .punctuation '}'].map (⟨·, 1⟩)

/-- There is a body with brackets in brackets, none, and an empty one. The class itself is a block
    too, but not without its last brace. -/
theorem blocks_exact_nested :
    (∃ file, ClassFile.ofTokens nestedTokens = .ok file ∧ ∃ runs : List (Nat × List Token),
      runs.map Prod.snd = file.bodies ∧ file.bodies.map List.length = [7, 0] ∧
      (∀ run ∈ runs, BlockAt nestedTokens run.1 .brace run.2) ∧ InOrder runs) ∧
    (∃ b, BlockAt nestedTokens 2 b (nestedTokens.extract 3 27)) ∧
    ¬∃ b body, BlockAt nestedTokens.dropLast 2 b body := by
  obtain ⟨-, hread, -, hfiles⟩ := blocks_exact nestedTokens
  obtain ⟨-, -, hfails, -⟩ := blocks_exact nestedTokens.dropLast
  refine ⟨?_, ?_, (hfails 2).1 ?_⟩
  · have hlengths : (ClassFile.ofTokens nestedTokens).toOption.map
        (fun file => file.bodies.map List.length) = some [7, 0] := by decide +kernel
    cases hfile : ClassFile.ofTokens nestedTokens with
    | error e =>
      rw [hfile] at hlengths
      cases hlengths
    | ok file =>
      rw [hfile] at hlengths
      obtain ⟨runs, hbodies, hblocks, horder⟩ := hfiles file hfile
      exact ⟨file, rfl, runs, hbodies, Option.some.inj hlengths, hblocks, horder⟩
  · have hclass : (readBlockAt nestedTokens 2).map Except.toOption =
        some (some (nestedTokens.extract 3 27, 28)) := by decide +kernel
    obtain ⟨result, hresult, hok⟩ := Option.map_eq_some_iff.1 hclass
    cases result with
    | error e => cases hok
    | ok read =>
      obtain rfl := Option.some.inj hok
      exact ((hread _ _ _).1 hresult).1
  · have hcut : (readBlockAt nestedTokens.dropLast 2).map Except.toOption = some none := by
      decide +kernel
    obtain ⟨result, hresult, herror⟩ := Option.map_eq_some_iff.1 hcut
    cases result with
    | error e => exact ⟨e, hresult⟩
    | ok read => cases herror

end PhpSharp.Php
