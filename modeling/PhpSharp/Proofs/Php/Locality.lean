/-
  Lexing is local: how far a lexeme looks beyond its end.

  * `UpToString`: two texts that are the same up to where a string literal starts in both;
  * `Lexeme.local_next`: a lexeme in front of the one is read in front of the other;
  * `tokenize_arrives`: where the lexer arrives at the one, what it reads from there on decides.
-/
import PhpSharp.Proofs.Php.Heredoc
import PhpSharp.Result

namespace PhpSharp.Php

open Lexeme

/-- Whether a character opens a string literal. -/
def opensString (c : Char) : Bool := ['"', '\x60', '<', '\''].contains c

/-- Two texts that are the same up to the quote of a string literal; the second one has a
    double-quoted literal there. -/
inductive UpToString : List Char → List Char → Prop
  | opens {c cs ds} : opensString c = true → UpToString (c :: cs) ('"' :: ds)
  | same {c cs ds} : UpToString cs ds → UpToString (c :: cs) (c :: ds)

namespace UpToString

variable {rest rest' : List Char}

theorem append (h : UpToString rest rest') (before : List Char) :
    UpToString (before ++ rest) (before ++ rest') := by
  induction before with
  | nil => exact h
  | cons c before ih => exact ih.same

theorem ne_nil (h : UpToString rest rest') : rest ≠ [] := by
  cases h <;> simp

/-- The first characters agree, unless a string literal starts there. -/
theorem head? (h : UpToString rest rest') {c : Char} (hc : opensString c = false) :
    rest'.head? = some c ↔ rest.head? = some c := by
  cases h with
  | opens hd =>
    have hquote : '"' ≠ c := by
      rintro rfl
      cases hc
    have hopens : ∀ d, opensString d = true → d ≠ c := by
      rintro d hd rfl
      rw [hc] at hd
      cases hd
    simp [hquote, hopens _ hd]
  | same => rfl

theorem any_head (h : UpToString rest rest') {p : Char → Bool}
    (hp : ∀ c, opensString c = true → p c = false) : rest'.head?.any p = rest.head?.any p := by
  cases h with
  | opens hc => simp [hp _ hc, hp '"' rfl]
  | same => rfl

/-- Where no string literal starts among the first characters, they are the same. -/
theorem take_eq (h : UpToString rest rest') {n : Nat} (hn : '"' ∉ rest'.take n) :
    rest.take n = rest'.take n := by
  induction h generalizing n with
  | opens hc =>
    cases n with
    | zero => rfl
    | succ n => simp at hn
  | same h ih =>
    cases n with
    | zero => rfl
    | succ n =>
      rw [List.take_succ_cons, List.take_succ_cons, ih fun hm => hn (List.mem_cons_of_mem _ hm)]

end UpToString

theorem not_isNameChar_of_opensString {c : Char} (h : opensString c = true) :
    isNameChar c = false ∧ isNumberChar c = false ∧ isLabelChar c = false := by
  simp only [opensString, List.contains_cons, List.contains_nil, Bool.or_false, Bool.or_eq_true,
    beq_iff_eq] at h
  rcases h with rfl | rfl | rfl | rfl <;> decide

/-! ## Pieces -/

section
variable {cs rest rest' : List Char}

/-- A literal ends at its quote, whatever stands behind it. -/
theorem splitQuoted_extend {q : Char} {body : List Char}
    (h : splitQuoted q cs = some (body, rest)) (rest' : List Char) :
    splitQuoted q (body ++ q :: rest') = some (body, rest') := by
  fun_induction splitQuoted q cs generalizing body with
  | case1 => cases h
  | case2 =>
    cases h
    rw [List.nil_append, splitQuoted.eq_def]
    exact if_pos rfl
  | case3 => cases h
  | case4 d ds hq ih =>
    obtain ⟨⟨b, r⟩, hb, he⟩ := Option.map_eq_some_iff.1 h
    cases he
    simp [splitQuoted, hq, ih hb]
  | case5 c cs hq hc ih =>
    obtain ⟨⟨b, r⟩, hb, he⟩ := Option.map_eq_some_iff.1 h
    cases he
    rw [List.cons_append, splitQuoted.eq_def]
    simp [hq, hc, ih hb]

theorem splitRaw_extend {q : Char} {body : List Char}
    (h : splitRaw q cs = some (body, rest)) (rest' : List Char) :
    splitRaw q (body ++ q :: rest') = some (body, rest') := by
  induction cs generalizing body with
  | nil => cases h
  | cons c cs ih =>
    rw [splitRaw] at h
    split at h
    · cases h
      simp [splitRaw]
    · rename_i hc
      obtain ⟨⟨b, r⟩, hb, he⟩ := Option.map_eq_some_iff.1 h
      cases he
      simp [splitRaw, hc, ih hb]

theorem blockComment_two {comment : List Char} (h : blockComment cs = some (comment, rest)) :
    ∃ a b more, comment = a :: b :: more := by
  induction cs generalizing comment with
  | nil => cases h
  | cons c cs ih =>
    rw [blockComment] at h
    split at h
    · cases h
      exact ⟨'*', '/', [], rfl⟩
    · obtain ⟨⟨b, r⟩, hb, he⟩ := Option.map_eq_some_iff.1 h
      cases he
      obtain ⟨a, b, more, rfl⟩ := ih hb
      exact ⟨c, a, b :: more, rfl⟩

/-- A block comment ends at its `*/`, whatever stands behind it. -/
theorem blockComment_extend {comment : List Char} (h : blockComment cs = some (comment, rest))
    (rest' : List Char) : blockComment (comment ++ rest') = some (comment, rest') := by
  induction cs generalizing comment with
  | nil => cases h
  | cons c cs ih =>
    rw [blockComment] at h
    split at h
    · cases h
      simp [blockComment]
    · rename_i hc
      obtain ⟨⟨b, r⟩, hb, he⟩ := Option.map_eq_some_iff.1 h
      cases he
      have hhead : (b ++ rest').head? = cs.head? := by
        obtain ⟨d, e, more, rfl⟩ := blockComment_two hb
        rw [← blockComment_eq_some hb]
        rfl
      rw [List.cons_append, blockComment, hhead, if_neg hc, ih hb]
      rfl

theorem readAttribute_quoted {c : Char} (hc : (c = '\'' || c = '"') = true) {body : List Char}
    (h : splitQuoted c cs = some (body, rest)) (depth feeds : Nat) :
    readAttribute depth feeds (c :: cs) =
      (readAttribute depth (feeds + lineFeeds body) rest).map fun (text, after) =>
        (c :: body ++ c :: text, after) := by
  rw [readAttribute.eq_def]
  simp only [hc, if_true]
  split
  · rename_i hn
    cases hn.symm.trans h
  · rename_i hs
    cases hs.symm.trans h
    rfl

/-- An attribute ends at its bracket, whatever stands behind it. -/
theorem readAttribute_extend {depth feeds : Nat} {text : List Char}
    (h : readAttribute depth feeds cs = .ok (text, rest)) (rest' : List Char) :
    readAttribute depth feeds (text ++ rest') = .ok (text, rest') := by
  fun_induction readAttribute depth feeds cs generalizing text with
  | case1 => cases h
  | case2 => cases h
  | case3 depth feeds c cs hc body after hq ih =>
    obtain ⟨⟨t, r⟩, hr, he⟩ := map_eq_ok h
    cases he
    have hsplit := splitQuoted_extend hq (t ++ rest')
    have htext : c :: body ++ c :: t ++ rest' = c :: (body ++ c :: (t ++ rest')) := by simp
    rw [htext, readAttribute_quoted hc hsplit, ih hr]
    rfl
  | case4 depth feeds c cs hc hb =>
    cases h
    obtain rfl : c = ']' := of_decide_eq_true (Bool.and_eq_true_iff.1 hb).1
    rw [List.singleton_append, readAttribute.eq_def]
    simp only [if_neg hc]
    exact if_pos hb
  | case5 depth feeds c cs hc hb depth' =>
    rename_i ih
    obtain ⟨⟨t, r⟩, hr, he⟩ := map_eq_ok h
    cases he
    rw [List.cons_append, readAttribute.eq_def]
    simp only [if_neg hc, if_neg hb]
    have hdepth : (if c = '[' then depth + 1 else if c = ']' then depth - 1 else depth) = depth' :=
      rfl
    rw [hdepth, ih hr]
    rfl

theorem lineComment_extend (h : UpToString (lineComment cs).2 rest') :
    lineComment ((lineComment cs).1 ++ rest') = ((lineComment cs).1, rest') := by
  induction cs with
  | nil => exact absurd rfl h.ne_nil
  | cons c cs ih =>
    rw [lineComment] at h ⊢
    split at h
    · rename_i hc
      rw [if_pos hc]
      have hopens : opensString c = false := by
        rcases Bool.or_eq_true_iff.1 hc with hc | hc
        · rw [of_decide_eq_true hc]
          rfl
        · rw [of_decide_eq_true (Bool.and_eq_true_iff.1 hc).1]
          rfl
      cases h with
      | opens ho => cases hopens.symm.trans ho
      | same h =>
        rw [List.nil_append, lineComment]
        simp only [h.head? (c := '>') rfl]
        exact if_pos hc
    · rename_i hc
      rw [if_neg hc]
      have hhead := (h.append (lineComment cs).1).head? (c := '>') rfl
      rw [lineComment_append] at hhead
      dsimp only
      rw [List.cons_append, lineComment, ih h]
      simp only [hhead]
      exact if_neg hc

theorem length_eq_of_sameLetters {s t : String} (h : Text.sameLetters s t = true) :
    s.toList.length = t.toList.length := by
  simpa using congrArg List.length (beq_iff_eq.1 h)

theorem not_sameLetters_php {cs : List Char} {c : Char} (hm : c ∈ cs)
    (hc : c.toLower ≠ 'p' ∧ c.toLower ≠ 'h') :
    Text.sameLetters (String.ofList cs) "php" = false := by
  refine beq_eq_false_iff_ne.2 fun he => ?_
  have hlower : c.toLower ∈ (String.ofList cs).toList.map Char.toLower :=
    List.mem_map_of_mem (by simpa using hm)
  rw [he] at hlower
  have : c.toLower = 'p' ∨ c.toLower = 'h' ∨ c.toLower = 'p' := by simpa using hlower
  simp_all

/-- An open tag is one if a string literal starts somewhere behind it. -/
theorem openTag?_extend {tag : List Char} (h : openTag? cs = some (tag, rest))
    (hr : UpToString rest rest') : openTag? (tag ++ rest') = some (tag, rest') := by
  unfold openTag? at h
  split at h
  · rename_i cs
    split at h
    · rename_i hphp
      cases h
      have hthree : (cs.take 3).length = 3 := by
        simpa using length_eq_of_sameLetters hphp
      simp only [List.cons_append, openTag?]
      rw [List.take_left' hthree, List.drop_left' hthree, if_pos hphp]
    split at h
    · rename_i hphp heq
      cases h
      simp only [List.cons_append, List.nil_append, openTag?]
      rw [if_neg]
      · exact if_pos rfl
      · rw [not_sameLetters_php (c := '=') (by simp) (by decide)]
        simp
    · rename_i hphp heq
      cases h
      simp only [List.cons_append, List.nil_append, openTag?]
      rw [if_neg, if_neg]
      · rwa [hr.head? rfl]
      · -- a quote among the next three characters would keep them from being `php`
        intro hphp'
        have hquote : '"' ∉ rest'.take 3 := fun hm => by
          rw [not_sameLetters_php hm (by decide)] at hphp'
          cases hphp'
        rw [← hr.take_eq hquote] at hphp'
        exact hphp hphp'
  · cases h

theorem openTag?_eq_none {c : Char} :
    openTag? (c :: cs) = none ↔ ¬(c = '<' ∧ cs.head? = some '?') := by
  constructor
  · rintro h ⟨rfl, hc⟩
    cases cs with
    | nil => cases hc
    | cons d cs =>
      cases hc
      simp only [openTag?] at h
      split at h
      · cases h
      · split at h <;> cases h
  · intro h
    unfold openTag?
    split
    · rename_i he
      cases he
      simp at h
    · rfl

theorem skipHtml_tag {tag : List Char} (h : openTag? cs = some (tag, rest))
    (skipped : List Char) : skipHtml skipped cs = (skipped.reverse ++ tag, rest) := by
  cases cs with
  | nil => cases h
  | cons c cs => rw [skipHtml, h]

/-- The text up to an open tag ends there if a string literal starts somewhere behind it. -/
theorem skipHtml_extend {skipped html : List Char} (h : skipHtml skipped cs = (html, rest))
    (hr : UpToString rest rest') : ∃ text, html = skipped.reverse ++ text ∧ cs = text ++ rest ∧
      skipHtml skipped (text ++ rest') = (html, rest') := by
  induction cs generalizing skipped with
  | nil =>
    cases h
    exact absurd rfl hr.ne_nil
  | cons c cs ih =>
    cases ht : openTag? (c :: cs) with
    | some found =>
      obtain ⟨tag, after⟩ := found
      rw [skipHtml_tag ht] at h
      cases h
      exact ⟨tag, rfl, (openTag?_eq_some ht).symm, skipHtml_tag (openTag?_extend ht hr) skipped⟩
    | none =>
      rw [skipHtml, ht] at h
      obtain ⟨text, rfl, rfl, hread⟩ := ih h
      refine ⟨c :: text, by simp, rfl, ?_⟩
      have hnone : openTag? (c :: (text ++ rest')) = none := by
        rw [openTag?_eq_none] at ht ⊢
        rwa [(hr.append text).head? rfl]
      rw [List.cons_append, skipHtml, hnone]
      exact hread

end

/-! ## Lexemes -/

namespace Lexeme

/-- A reading that looks no further than up to the next string literal. -/
def Local (read : List Char → Reading) : Prop :=
  ∀ ⦃cs l rest rest'⦄, read cs = .ok (l, rest) → UpToString rest rest' →
    ∃ text, cs = text ++ rest ∧ read (text ++ rest') = .ok (l, rest')

theorem local_ite {p : Prop} [Decidable p] {read read' : List Char → Reading}
    (h : p → Local read) (h' : ¬p → Local read') :
    Local fun cs => if p then read cs else read' cs := by
  by_cases hp : p
  · simpa only [if_pos hp] using h hp
  · simpa only [if_neg hp] using h' hp

theorem local_first (c : Char) (token? : Option TokenKind) :
    Local fun cs => ofLength 1 token? (c :: cs) := by
  intro cs l rest rest' h _
  cases h
  exact ⟨[], rfl, rfl⟩

theorem local_punctuation (c : Char) : Local (punctuation c) := local_first c _

theorem local_run {p : Char → Bool} (token : String → TokenKind) {c : Char} (hc : p c = true)
    (hp : ∀ d, opensString d = true → p d = false) : Local fun cs => run p token (c :: cs) := by
  intro cs l rest rest' h hr
  cases h
  rw [List.dropWhile_cons_of_pos hc] at hr ⊢
  rw [List.takeWhile_cons_of_pos hc]
  refine ⟨cs.takeWhile p, List.takeWhile_append_dropWhile.symm, ?_⟩
  have hall : (c :: cs.takeWhile p).all p = true := by simp [hc, List.all_takeWhile]
  refine run_append token hall ?_
  rw [hr.any_head hp]
  exact head_dropWhile p cs

theorem local_quoted {quote : Char} {split : List Char → Option (List Char × List Char)}
    (value : List Char → List Char)
    (happend : ∀ {cs body rest}, split cs = some (body, rest) → body ++ quote :: rest = cs)
    (hextend : ∀ {cs body rest}, split cs = some (body, rest) →
      ∀ rest', split (body ++ quote :: rest') = some (body, rest')) :
    Local (quoted quote split value) := by
  intro cs l rest rest' h _
  unfold quoted at h
  split at h
  · cases h
  · rename_i body _ hs
    cases h
    refine ⟨body ++ [quote], by simp [happend hs], ?_⟩
    rw [List.append_assoc, List.singleton_append, quoted, hextend hs]

theorem local_operator (first : Char) {second : Char} (hs : opensString second = false)
    (token : TokenKind) : Local (operator first second token) := by
  intro cs l rest rest' h hr
  unfold operator at h
  split at h
  · rename_i hc
    cases cs with
    | nil => cases hc
    | cons c cs =>
      cases hc
      cases h
      exact ⟨[second], rfl, if_pos rfl⟩
  · rename_i hc
    cases h
    refine ⟨[], rfl, if_neg ?_⟩
    rwa [List.nil_append, hr.head? hs]

theorem local_afterQuestion : Local afterQuestion := by
  intro cs l rest rest' h hr
  unfold afterQuestion at h
  split at h
  · cases h
    obtain ⟨text, -, happend, hread⟩ := skipHtml_extend rfl hr
    refine ⟨'>' :: text, congrArg ('>' :: ·) happend, ?_⟩
    simp only [List.cons_append, afterQuestion, hread]
  · cases h
    exact ⟨['-', '>'], rfl, rfl⟩
  · rename_i htag harrow
    cases h
    refine ⟨[], rfl, ?_⟩
    rw [List.nil_append]
    unfold afterQuestion
    split
    · cases hr with
      | same => exact absurd rfl (htag _)
    · cases hr with
      | same hr =>
        cases hr with
        | same => exact absurd rfl (harrow _)
    · rfl

theorem local_afterHash : Local afterHash := by
  intro cs l rest rest' h hr
  unfold afterHash at h
  split at h
  · obtain ⟨⟨text, after⟩, ha, he⟩ := map_eq_ok h
    cases he
    refine ⟨'[' :: text, by rw [List.cons_append, readAttribute_eq_ok ha], ?_⟩
    simp only [List.cons_append, afterHash, readAttribute_extend ha]
    rfl
  · rename_i hbracket
    cases h
    have hcomment := lineComment_extend hr
    have hhead := (hr.append (lineComment cs).1).head? (c := '[') rfl
    rw [lineComment_append] at hhead
    refine ⟨(lineComment cs).1, (lineComment_append cs).symm, ?_⟩
    unfold afterHash
    split
    · rename_i more hmore
      rw [hmore] at hhead
      cases cs with
      | nil => cases hhead.1 rfl
      | cons c cs =>
        cases hhead.1 rfl
        exact absurd rfl (hbracket _)
    · rw [hcomment]

theorem local_afterSlash : Local afterSlash := by
  intro cs l rest rest' h hr
  unfold afterSlash at h
  split at h
  · rename_i cs
    cases h
    refine ⟨'/' :: (lineComment cs).1, by rw [List.cons_append, lineComment_append], ?_⟩
    simp only [List.cons_append, afterSlash, lineComment_extend hr]
  · rename_i cs
    split at h
    · cases h
    · rename_i comment _ hb
      cases h
      refine ⟨'*' :: comment, by rw [List.cons_append, blockComment_eq_some hb], ?_⟩
      simp only [List.cons_append, afterSlash, blockComment_extend hb]
      obtain ⟨a, b, more, rfl⟩ := blockComment_two hb
      rw [← blockComment_eq_some hb]
      rfl
  · rename_i hslash hstar
    cases h
    refine ⟨[], rfl, ?_⟩
    rw [List.nil_append]
    unfold afterSlash
    split
    · cases hr with
      | same => exact absurd rfl (hslash _)
    · cases hr with
      | same => exact absurd rfl (hstar _)
    · rfl

theorem local_afterLess : Local afterLess := by
  intro cs l rest rest' h hr
  unfold afterLess at h
  split at h
  · split at h
    · cases h
    · rename_i hread
      cases h
      obtain ⟨d, rfl, rfl, hlabel⟩ := exists_heredoc hread
      rw [← hr.any_head fun c hc => (not_isNameChar_of_opensString hc).2.2] at hlabel
      refine ⟨'<' :: '<' :: d.text, rfl, ?_⟩
      simp only [List.cons_append, afterLess, d.readHeredoc_text hlabel]
      simp
  · rename_i hless
    cases h
    refine ⟨[], rfl, ?_⟩
    rw [List.nil_append]
    unfold afterLess
    split
    · cases hr with
      | same hr =>
        cases hr with
        | same => exact absurd rfl (hless _)
    · rfl

theorem local_afterDollar : Local afterDollar := by
  have hname : ∀ c, opensString c = true → isNameChar c = false := fun c hc =>
    (not_isNameChar_of_opensString hc).1
  have hstart : ∀ c, opensString c = true → (isNameStart c && c != '\\') = false := by
    intro c hc
    have hn : isNameStart c ≠ true := fun hs => by
      cases (isNameChar_of_isNameStart hs).symm.trans (hname c hc)
    simp [hn]
  intro cs l rest rest' h hr
  unfold afterDollar at h
  split at h
  · rename_i hc
    obtain ⟨⟨l', after⟩, hrun, he⟩ := map_eq_ok h
    cases he
    cases cs with
    | nil => cases hc
    | cons c cs =>
      have hfirst : isNameChar c = true :=
        isNameChar_of_isNameStart (Bool.and_eq_true_iff.1 hc).1
      obtain ⟨text, rfl, hread⟩ := local_run .variable hfirst hname hrun hr
      refine ⟨c :: text, rfl, ?_⟩
      have hc' : (c :: (text ++ rest')).head?.any (fun d => isNameStart d && d != '\\') = true := hc
      rw [List.cons_append, afterDollar, if_pos hc']
      exact congrArg (Except.map _) hread
  · rename_i hc
    cases h
    refine ⟨[], rfl, if_neg ?_⟩
    rwa [List.nil_append, hr.any_head hstart]

/-- **A lexeme looks no further than up to the next string literal.** -/
theorem local_next (c : Char) : Local (next c) := by
  have hnumber : ∀ d, opensString d = true → isNumberChar d = false := fun d hd =>
    (not_isNameChar_of_opensString hd).2.1
  have hname : ∀ d, opensString d = true → isNameChar d = false := fun d hd =>
    (not_isNameChar_of_opensString hd).1
  unfold next
  refine local_ite (fun _ => local_first c none) fun _ => ?_
  refine local_ite (fun _ => local_afterQuestion) fun _ => ?_
  refine local_ite (fun _ => local_afterHash) fun _ => ?_
  refine local_ite (fun _ => local_afterSlash) fun _ => ?_
  refine local_ite (fun _ => local_quoted _ splitQuoted_eq_some splitQuoted_extend) fun _ => ?_
  refine local_ite (fun _ => local_quoted _ splitQuoted_eq_some splitQuoted_extend) fun _ => ?_
  refine local_ite (fun _ => local_quoted _ splitRaw_eq_some splitRaw_extend) fun _ => ?_
  refine local_ite (fun _ => local_afterLess) fun _ => ?_
  refine local_ite (fun _ => local_afterDollar) fun _ => ?_
  refine local_ite (fun hd => local_run _ (by simp [isNumberChar, Char.isAlphanum, hd]) hnumber)
    fun _ => ?_
  refine local_ite (fun hs => local_run _ (isNameChar_of_isNameStart hs) hname) fun _ => ?_
  refine local_ite (fun _ => local_operator c rfl _) fun _ => ?_
  refine local_ite (fun _ => local_operator c rfl _) fun _ => ?_
  exact local_ite (fun _ => local_operator c rfl _) fun _ => local_punctuation c

end Lexeme

/-- A lexeme in front of the one text is read in front of the other. -/
theorem Heads.extend {l : Lexeme} {rest rest' : List Char} (h : Heads l rest)
    (hr : UpToString rest rest') : Heads l rest' := by
  obtain ⟨c, cs, htext, hnext⟩ := h
  obtain ⟨text, hcs, hread⟩ := local_next c hnext hr
  obtain rfl := List.append_cancel_right hcs
  exact ⟨c, cs, htext, hread⟩

/-! ## Sources -/

/-- The lexemes are read one after the other in front of a text. -/
def Leads : List Lexeme → List Char → Prop
  | [], _ => True
  | l :: ls, rest => Heads l (ls.flatMap Lexeme.text ++ rest) ∧ Leads ls rest

instance (l : Lexeme) (rest : List Char) : Decidable (Heads l rest) :=
  match l with
  | ⟨[], _⟩ => .isFalse (by rintro ⟨_, _, htext, -⟩; cases htext)
  | ⟨c :: cs, token?⟩ =>
    decidable_of_iff (next c (cs ++ rest) = .ok (⟨c :: cs, token?⟩, rest))
      ⟨fun h => ⟨c, cs, rfl, h⟩, by rintro ⟨_, _, htext, h⟩; cases htext; exact h⟩

instance Leads.decidable : (ls : List Lexeme) → (rest : List Char) → Decidable (Leads ls rest)
  | [], _ => .isTrue trivial
  | _ :: ls, rest => have := Leads.decidable ls rest; inferInstanceAs (Decidable (_ ∧ _))

theorem Leads.extend {ls : List Lexeme} {rest rest' : List Char} (h : Leads ls rest)
    (hr : UpToString rest rest') : Leads ls rest' := by
  induction ls with
  | nil => trivial
  | cons l ls ih => exact ⟨h.1.extend (hr.append _), ih h.2⟩

/-- Behind the same lexemes, what is read from there on decides. -/
theorem tokensFrom_leads {ls : List Lexeme} {rest rest' : List Char} (h : Leads ls rest)
    (h' : Leads ls rest')
    (hr : ∀ line done, tokensFrom line done rest = tokensFrom line done rest') (line : Nat)
    (done : List Token) :
    tokensFrom line done (ls.flatMap Lexeme.text ++ rest) =
      tokensFrom line done (ls.flatMap Lexeme.text ++ rest') := by
  induction ls generalizing line done with
  | nil => exact hr line done
  | cons l ls ih =>
    rw [List.flatMap_cons, List.append_assoc, List.append_assoc, tokensFrom_heads h.1,
      tokensFrom_heads h'.1]
    exact ih h.2 h'.2 _ _

/-- The lexer arrives at `rest` behind `before`: that is the text up to the first open tag, and
    whole lexemes. -/
def Arrives (before rest : List Char) : Prop :=
  ∃ html ls, before = html ++ ls.flatMap Lexeme.text ∧
    skipHtml [] (before ++ rest) = (html, ls.flatMap Lexeme.text ++ rest) ∧ Leads ls rest

/-- **A string literal decides nothing about the tokens before it.** -/
theorem tokenize_arrives {before rest rest' : List Char} (h : Arrives before rest)
    (hu : UpToString rest rest')
    (hr : ∀ line done, tokensFrom line done rest = tokensFrom line done rest') :
    tokenize (String.ofList (before ++ rest)) = tokenize (String.ofList (before ++ rest')) := by
  obtain ⟨html, ls, rfl, hhtml, hleads⟩ := h
  obtain ⟨text, hfirst, happend, hread⟩ := skipHtml_extend hhtml (hu.append _)
  obtain rfl : html = text := hfirst
  unfold tokenize
  rw [String.toList_ofList, String.toList_ofList, hhtml, List.append_assoc, hread]
  exact tokensFrom_leads hleads (hleads.extend hu) hr _ _

end PhpSharp.Php
