/-
  The lines that a reader of tokens blames.

  `Blames p r`: if `r` is an error, the property `p` holds of its line. Every reader blames the line
  of a token that it was given, a line that it was told to blame, or the last line
  (`readDeclarations_blames`); so no error leads out of the lines that the tokens stand on.
-/
import PhpSharp.Proofs.Php.Provenance

namespace PhpSharp.Php

variable {p : Nat → Prop}

/-- An error blames a line with the property. -/
def Blames {α : Type} (p : Nat → Prop) (r : Except SyntaxError α) : Prop :=
  ∀ e, r = .error e → p e.line

section
variable {α β : Type}

theorem blames_ok (a : α) : Blames p (.ok a) := fun _ h => nomatch h

theorem blames_error {e : SyntaxError} (h : p e.line) :
    Blames p (.error e : Except SyntaxError α) := by
  rintro _ ⟨⟩
  exact h

theorem Blames.map {r : Except SyntaxError α} (h : Blames p r) (f : α → β) :
    Blames p (r.map f) := by
  cases r with
  | ok a => exact blames_ok _
  | error e => exact blames_error (h e rfl)

theorem Blames.of_eq {r : Except SyntaxError α} {e : SyntaxError} (h : Blames p r)
    (he : r = .error e) : Blames p (.error e : Except SyntaxError β) :=
  blames_error (h e he)

end

/-- Tokens on lines with the property. -/
def OnLines (p : Nat → Prop) (ts : List Token) : Prop := ∀ t ∈ ts, p t.line

section
variable {eof : Nat} {t : Token} {ts rest : List Token}

theorem OnLines.head (h : OnLines p (t :: ts)) : p t.line := h t (List.mem_cons_self ..)

theorem OnLines.tail (h : OnLines p (t :: ts)) : OnLines p ts := fun u hu =>
  h u (List.mem_cons_of_mem _ hu)

theorem OnLines.mono (h : OnLines p ts) (hs : rest <:+ ts) : OnLines p rest := fun t ht =>
  h t (hs.subset ht)

/-! ## Blocks and functions -/

theorem closeBlock_blames {unclosed : SyntaxError} {inner : Bracket} {outer : List Bracket}
    (hu : p unclosed.line) (hts : OnLines p ts) :
    Blames p (closeBlock unclosed inner outer ts) := by
  induction ts generalizing inner outer with
  | nil => exact blames_error hu
  | cons t ts ih =>
    unfold closeBlock
    split
    · exact (ih hts.tail).map _
    · exact (ih hts.tail).map _
    · split
      · exact blames_error hts.head
      split
      · exact blames_ok _
      · exact (ih hts.tail).map _

theorem readBlock_blames (he : p eof) (hts : OnLines p ts) : Blames p (readBlock eof ts) := by
  match ts with
  | [] => exact blames_error he
  | t :: ts =>
    rw [readBlock]
    split
    · exact closeBlock_blames hts.head hts.tail
    · exact blames_error hts.head

theorem readFunctionBody_blames (he : p eof) (hts : OnLines p ts) :
    Blames p (readFunctionBody eof ts) := by
  fun_induction readFunctionBody eof ts with
  | case1 => exact blames_error he
  | case2 => exact (readBlock_blames he hts).map _
  | case3 => exact blames_ok _
  | case4 _ _ _ _ _ e hb => exact (readBlock_blames he hts).of_eq hb
  | case5 _ _ _ _ _ _ _ hb ih => exact ih (hts.mono (readBlock_suffix hb))
  | case6 _ _ _ _ _ ih => exact ih hts.tail

theorem readFunction_blames (he : p eof) (hts : OnLines p ts) : Blames p (readFunction eof ts) := by
  have hd := List.dropWhile_suffix (fun t : Token => !t.isPunctuation '(') (l := ts)
  unfold readFunction
  split
  · exact readFunctionBody_blames he (List.forall_mem_nil _)
  · rename_i ht
    rw [ht] at hd
    split
    · exact (readBlock_blames he (hts.mono hd)).of_eq ‹_›
    · rename_i hb
      exact readFunctionBody_blames he (hts.mono ((readBlock_suffix hb).trans hd))

theorem expectName_blames {role : NameRole} (he : p eof) (hts : OnLines p ts) :
    Blames p (expectName eof role ts) := by
  match ts with
  | [] => exact blames_error he
  | t :: ts =>
    rw [expectName]
    split
    · exact blames_ok _
    · exact blames_error hts.head

/-! ## Members -/

theorem readConstantName_blames {last? : Option (String × Nat)} (he : p eof)
    (hl : ∀ last ∈ last?, p last.2) (hts : OnLines p ts) :
    Blames p (readConstantName eof last? ts) := by
  induction ts generalizing last? with
  | nil =>
    cases last? with
    | none => exact blames_error he
    | some last => exact blames_error (hl last rfl)
  | cons t ts ih =>
    unfold readConstantName
    split
    · split
      · exact blames_error hts.head
      · exact blames_ok _
    split
    · refine ih (fun last hm => ?_) hts.tail
      cases hm
      exact hts.head
    split
    · exact ih hl hts.tail
    · exact blames_error hts.head

/-- The name of a constant stands on the line of a token. -/
theorem readConstantName_line {last? : Option (String × Nat)} {name : String × Nat}
    (hl : ∀ last ∈ last?, p last.2) (hts : OnLines p ts)
    (h : readConstantName eof last? ts = .ok (name, rest)) : p name.2 := by
  induction ts generalizing last? with
  | nil => cases last? <;> cases h
  | cons t ts ih =>
    unfold readConstantName at h
    split at h
    · split at h
      · cases h
      · cases h
        exact hl _ rfl
    split at h
    · refine ih (fun last hm => ?_) hts.tail h
      cases hm
      exact hts.head
    split at h
    · exact ih hl hts.tail h
    · cases h

theorem readConstantValue_blames {unterminated : SyntaxError} {depth : Nat}
    (hu : p unterminated.line) : Blames p (readConstantValue unterminated depth ts) := by
  induction ts generalizing depth with
  | nil => exact blames_error hu
  | cons t ts ih =>
    rw [readConstantValue]
    split
    · exact blames_ok _
    · exact ih.map _

theorem readConstants_blames (he : p eof) (hts : OnLines p ts) :
    Blames p (readConstants eof ts) := by
  have hnone : ∀ last ∈ (none : Option (String × Nat)), p last.2 := fun _ hm => nomatch hm
  fun_induction readConstants eof ts with
  | case1 _ _ hn => exact (readConstantName_blames he hnone hts).of_eq hn
  | case2 _ _ _ _ hn _ hv =>
    exact (readConstantValue_blames (readConstantName_line hnone hts hn)).of_eq hv
  | case3 _ _ _ _ hn => exact blames_error (readConstantName_line hnone hts hn)
  | case4 _ _ _ _ hn _ _ _ hv =>
    rename_i ih
    exact (ih (hts.mono ((readConstantValue_suffix hv).trans
      (readConstantName_suffix hn)))).map _
  | case5 => exact blames_ok _

theorem readMethod_blames {pending : Pending} (he : p eof) (hts : OnLines p ts) :
    Blames p (readMethod eof pending ts) := by
  have href := hts.mono (dropReference_suffix ts)
  unfold readMethod
  split
  · exact (expectName_blames he href).of_eq ‹_›
  · rename_i hn
    exact (readFunction_blames he (href.mono (expectName_suffix hn))).map _

theorem skipStatement_blames (he : p eof) (hts : OnLines p ts) :
    Blames p (skipStatement eof ts) := by
  fun_induction skipStatement eof ts with
  | case1 => exact blames_ok _
  | case2 => exact blames_ok _
  | case3 _ _ _ _ _ hb => exact (readBlock_blames he hts).of_eq hb
  | case4 _ _ _ _ _ _ hb ih => exact ih (hts.mono (readBlock_suffix hb))
  | case5 => exact blames_ok _
  | case6 _ _ _ _ _ ih => exact ih hts.tail

theorem skipUse_blames (he : p eof) (hts : OnLines p ts) : Blames p (skipUse eof ts) := by
  induction ts with
  | nil => exact blames_ok _
  | cons t ts ih =>
    rw [skipUse]
    split
    · exact blames_ok _
    split
    · exact (readBlock_blames he hts).map _
    · exact ih hts.tail

theorem readMembers_blames {unclosed : SyntaxError} {pending : Pending} (he : p eof)
    (hu : p unclosed.line) (hts : OnLines p ts) :
    Blames p (readMembers eof unclosed pending ts) := by
  fun_induction readMembers eof unclosed pending ts with
  | case1 => exact blames_error hu
  | case2 => exact blames_ok _
  | case3 => rename_i ih; exact ih hts.tail
  | case4 => rename_i ih; exact ih hts.tail
  | case5 => exact (readConstants_blames he hts.tail).of_eq ‹_›
  | case6 =>
    rename_i ih
    exact (ih (hts.tail.mono (readConstants_suffix ‹_›))).map _
  | case7 => exact (readMethod_blames he hts.tail).of_eq ‹_›
  | case8 =>
    rename_i ih
    exact (ih (hts.tail.mono (readMethod_suffix ‹_›))).map _
  | case9 => exact (skipUse_blames he hts.tail).of_eq ‹_›
  | case10 => rename_i ih; exact ih (hts.tail.mono (skipUse_suffix ‹_›))
  | case11 => exact (skipStatement_blames he hts).of_eq ‹_›
  | case12 => rename_i ih; exact ih (hts.mono (skipStatement_suffix ‹_›))

/-! ## Files -/

theorem readHead_blames {name : String} {implementing : Bool} (he : p eof) (hts : OnLines p ts) :
    Blames p (readHead eof name implementing ts) := by
  fun_induction readHead eof name implementing ts with
  | case1 => exact blames_error he
  | case2 => exact blames_ok _
  | case3 => exact (expectName_blames he hts.tail).of_eq ‹_›
  | case4 _ _ _ _ _ _ _ _ hn ih => exact (ih (hts.tail.mono (expectName_suffix hn))).map _
  | case5 _ _ _ _ _ _ ih => exact ih hts.tail
  | case6 => rename_i ih; exact (ih hts.tail).map _
  | case7 => rename_i ih; exact ih hts.tail

theorem readClass_blames {isAbstract : Bool} {line : Nat} (he : p eof) (hl : p line)
    (hts : OnLines p ts) : Blames p (readClass eof isAbstract line ts) := by
  unfold readClass
  split
  · exact (expectName_blames he hts).of_eq ‹_›
  · rename_i hn
    have hrest := hts.mono (expectName_suffix hn)
    split
    · exact (readHead_blames he hrest).of_eq ‹_›
    · rename_i hh
      exact (readMembers_blames he hl (hrest.mono (readHead_suffix hh))).map _

theorem skipToBlock_blames (he : p eof) (hts : OnLines p ts) : Blames p (skipToBlock eof ts) := by
  induction ts with
  | nil => exact blames_error he
  | cons t ts ih =>
    rw [skipToBlock]
    split
    · exact (readBlock_blames he hts).map _
    · exact ih hts.tail

theorem readDeclarations_blames {before : List Token} (he : p eof) (hts : OnLines p ts) :
    Blames p (readDeclarations eof before ts) := by
  fun_induction readDeclarations eof before ts with
  | case1 => exact blames_ok _
  | case2 => rename_i ih; exact ih hts.tail
  | case3 => exact (readFunction_blames he hts.tail).of_eq ‹_›
  | case4 => rename_i ih; exact ih (hts.tail.mono (readFunction_suffix ‹_›))
  | case5 => exact blames_ok _
  | case6 => rename_i ih; exact ih hts.tail
  | case7 => rename_i ih; exact (ih hts.tail.tail).map _
  | case8 =>
    split
    · exact (readClass_blames he hts.head hts.tail).of_eq ‹_›
    · rename_i hok
      cases ‹readClass _ _ _ _ = .error _›.symm.trans hok
  | case9 =>
    rename_i hc ih
    split
    · rename_i herror
      cases hc.symm.trans herror
    · rename_i hc'
      obtain ⟨rfl, rfl⟩ := Prod.mk.inj (Except.ok.inj (hc.symm.trans hc'))
      exact (ih (hts.tail.mono (readClass_methods hc).rest_suffix)).map _
  | case10 =>
    split
    · exact (skipToBlock_blames he hts.tail).of_eq ‹_›
    · rename_i hok
      cases ‹skipToBlock _ _ = .error _›.symm.trans hok
  | case11 =>
    rename_i hrest ih
    split
    · rename_i herror
      cases hrest.symm.trans herror
    · rename_i hrest'
      obtain rfl := Except.ok.inj (hrest.symm.trans hrest')
      exact ih (hts.tail.mono (skipToBlock_suffix hrest))
  | case12 => rename_i ih; exact ih hts.tail

/-- **Errors of files blame lines of their tokens**, or line one if there are none. -/
theorem ofTokens_blames (he : p (ClassFile.lastLine ts)) (hts : OnLines p ts) :
    Blames p (ClassFile.ofTokens ts) :=
  (readDeclarations_blames he hts).map _

end

end PhpSharp.Php
