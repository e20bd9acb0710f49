/-
  The members of a class, read from the tokens of its body.

  * `readConstants` reads a `const` statement, `readFunction` what follows the word
    `function`, `skipStatement` and `skipUse` what class files do not keep;
  * `readMembers` goes through a body. A documentation comment and the modifiers wait for
    the member behind them and are forgotten after it.

  Each reader returns the tokens it leaves, always fewer than it got.
-/
import PhpSharp.Php.Block
import PhpSharp.Php.ClassFile.Basic

namespace PhpSharp.Php

/-! ## Constants -/

/-- The name before `=`: the last of the names there, since a type may precede it. -/
def readConstantName (eof : Nat) (last? : Option (String × Nat)) :
    List Token → Parsed (String × Nat)
  | [] => match last? with
    | none => .error ⟨eof, .constantWithoutName⟩
    | some (name, line) => .error ⟨line, .constantNotTerminated name⟩
  | t :: ts =>
    if t.isPunctuation '=' then
      match last? with
      | none => .error ⟨t.line, .constantWithoutName⟩
      | some last => .ok (last, ts)
    else match t.name? with
      | some name => readConstantName eof (some (name, t.line)) ts
      | none =>
        if t.isPunctuation '?' || t.isPunctuation '|' then readConstantName eof last? ts
        else .error ⟨t.line, .malformedConstant⟩

/-- The value behind `=`, up to a comma or semicolon outside brackets, and whether it was a
    comma. Only the number of open brackets counts, not their kinds. -/
def readConstantValue (unterminated : SyntaxError) (depth : Nat) :
    List Token → Parsed (List Token × Bool)
  | [] => .error unterminated
  | t :: ts =>
    if depth = 0 && (t.isPunctuation ',' || t.isPunctuation ';') then
      .ok (([], t.isPunctuation ','), ts)
    else
      let depth :=
        if t.opens?.isSome then depth + 1 else if t.closes?.isSome then depth - 1 else depth
      (readConstantValue unterminated depth ts).map fun ((value, more), rest) =>
        ((t :: value, more), rest)

theorem readConstantName_length {eof : Nat} {last? : Option (String × Nat)} {ts rest : List Token}
    {name : String × Nat} (h : readConstantName eof last? ts = .ok (name, rest)) :
    rest.length < ts.length := by
  induction ts generalizing last? with
  | nil => cases last? <;> simp [readConstantName] at h
  | cons t ts ih =>
    unfold readConstantName at h
    split at h
    · split at h
      · simp at h
      · cases h; simp
    split at h
    · exact Nat.lt_succ_of_lt (ih h)
    split at h
    · exact Nat.lt_succ_of_lt (ih h)
    · simp at h

theorem readConstantValue_length {unterminated : SyntaxError} {depth : Nat} {ts rest : List Token}
    {value : List Token × Bool}
    (h : readConstantValue unterminated depth ts = .ok (value, rest)) :
    rest.length < ts.length := by
  induction ts generalizing depth value with
  | nil => simp [readConstantValue] at h
  | cons t ts ih =>
    rw [readConstantValue] at h
    split at h
    · cases h; simp
    · dsimp only at h
      generalize (if t.opens?.isSome then _ else _ : Nat) = depth' at h
      obtain ⟨⟨v, r⟩, hv, he⟩ := map_eq_ok h
      cases he
      exact Nat.lt_succ_of_lt (ih hv)

/-- Reads a `const` statement after its word. -/
def readConstants (eof : Nat) (ts : List Token) : Parsed (List ConstantDecl) :=
  match _hn : readConstantName eof none ts with
  | .error e => .error e
  | .ok ((name, line), afterName) =>
    match _hv : readConstantValue ⟨line, .constantNotTerminated name⟩ 0 afterName with
    | .error e => .error e
    | .ok ((value, more), rest) =>
      if value = [] then .error ⟨line, .constantWithoutValue name⟩
      else if more then
        (readConstants eof rest).map fun (constants, rest) =>
          (⟨name, value, line⟩ :: constants, rest)
      else .ok ([⟨name, value, line⟩], rest)
  termination_by ts.length
  decreasing_by
    have := readConstantName_length _hn
    have := readConstantValue_length _hv
    omega

theorem readConstants_length {eof : Nat} {ts rest : List Token} {constants : List ConstantDecl}
    (h : readConstants eof ts = .ok (constants, rest)) : rest.length < ts.length := by
  fun_induction readConstants eof ts generalizing constants with
  | case1 => simp at h
  | case2 => simp at h
  | case3 => simp at h
  | case4 =>
    rename_i ih
    obtain ⟨⟨_, r⟩, hr, he⟩ := map_eq_ok h
    cases he
    have := readConstantName_length ‹readConstantName _ _ _ = _›
    have := readConstantValue_length ‹readConstantValue _ _ _ = _›
    have := ih hr
    omega
  | case5 =>
    cases h
    have := readConstantName_length ‹readConstantName _ _ _ = _›
    have := readConstantValue_length ‹readConstantValue _ _ _ = _›
    omega

/-! ## Functions -/

/-- The body of a function after its parameters: a block, or none before a `;`. Further
    parentheses, such as the variables a closure captures, are stepped over. -/
def readFunctionBody (eof : Nat) (ts : List Token) : Parsed (Option (List Token)) :=
  match ts with
  | [] => .error ⟨eof, .functionWithoutBody⟩
  | t :: ts =>
    if t.isPunctuation '{' then (readBlock eof (t :: ts)).map fun (body, rest) => (some body, rest)
    else if t.isPunctuation ';' then .ok (none, ts)
    else if t.isPunctuation '(' then
      match _h : readBlock eof (t :: ts) with
      | .error e => .error e
      | .ok (_, rest) => readFunctionBody eof rest
    else readFunctionBody eof ts
  termination_by ts.length
  decreasing_by
    · exact readBlock_length _h
    · simp

/-- Reads from a function's parameter list to the end of its body. -/
def readFunction (eof : Nat) (ts : List Token) : Parsed (Option (List Token)) :=
  match ts.dropWhile fun t => !t.isPunctuation '(' with
  | [] => readFunctionBody eof []
  | t :: ts =>
    match readBlock eof (t :: ts) with
    | .error e => .error e
    | .ok (_, rest) => readFunctionBody eof rest

theorem readFunctionBody_length {eof : Nat} {ts rest : List Token} {body? : Option (List Token)}
    (h : readFunctionBody eof ts = .ok (body?, rest)) : rest.length < ts.length := by
  fun_induction readFunctionBody eof ts with
  | case1 => simp at h
  | case2 =>
    obtain ⟨_, hb, he⟩ := map_eq_ok h
    cases he
    exact readBlock_length hb
  | case3 => cases h; simp
  | case4 => simp at h
  | case5 _ _ _ _ _ _ _ hb ih => exact Nat.lt_trans (ih h) (readBlock_length hb)
  | case6 _ _ _ _ _ ih => exact Nat.lt_succ_of_lt (ih h)

theorem readFunction_length {eof : Nat} {ts rest : List Token} {body? : Option (List Token)}
    (h : readFunction eof ts = .ok (body?, rest)) : rest.length < ts.length := by
  have hd := (List.dropWhile_suffix (fun t : Token => !t.isPunctuation '(') (l := ts)).length_le
  unfold readFunction at h
  split at h
  · exact absurd (readFunctionBody_length h) (by simp)
  · rename_i ht
    rw [ht] at hd
    split at h
    · simp at h
    · rename_i hb
      have := readBlock_length hb
      have := readFunctionBody_length h
      omega

/-- The name that has to come next. -/
def expectName (eof : Nat) (role : NameRole) : List Token → Parsed (String × Nat)
  | [] => .error ⟨eof, .expectedName role⟩
  | t :: ts =>
    match t.name? with
    | some name => .ok ((name, t.line), ts)
    | none => .error ⟨t.line, .expectedName role⟩

theorem expectName_length {eof : Nat} {role : NameRole} {ts rest : List Token} {name : String × Nat}
    (h : expectName eof role ts = .ok (name, rest)) : rest.length < ts.length := by
  match ts with
  | [] => simp [expectName] at h
  | t :: ts =>
    rw [expectName] at h
    split at h
    · cases h; simp
    · simp at h

/-! ## What is not kept -/

/-- The tokens after a statement: behind the next `;` outside brackets, or before the `}` that
    ends the enclosing block. -/
def skipStatement (eof : Nat) (ts : List Token) : Except SyntaxError (List Token) :=
  match ts with
  | [] => .ok []
  | t :: ts =>
    if t.isPunctuation ';' then .ok ts
    else if t.opens?.isSome then
      match _h : readBlock eof (t :: ts) with
      | .error e => .error e
      | .ok (_, rest) => skipStatement eof rest
    else if t.isPunctuation '}' then .ok (t :: ts)
    else skipStatement eof ts
  termination_by ts.length
  decreasing_by
    · exact readBlock_length _h
    · simp

theorem skipStatement_length_le {eof : Nat} {ts rest : List Token}
    (h : skipStatement eof ts = .ok rest) : rest.length ≤ ts.length := by
  fun_induction skipStatement eof ts with
  | case1 => cases h; simp
  | case2 => cases h; simp
  | case3 => simp at h
  | case4 _ _ _ _ _ _ hb ih => exact Nat.le_trans (ih h) (Nat.le_of_lt (readBlock_length hb))
  | case5 => cases h; simp
  | case6 _ _ _ _ _ ih => exact Nat.le_succ_of_le (ih h)

/-- A statement that does not start with `}` has at least one token. -/
theorem skipStatement_length {eof : Nat} {t : Token} {ts rest : List Token}
    (ht : t.isPunctuation '}' = false) (h : skipStatement eof (t :: ts) = .ok rest) :
    rest.length < (t :: ts).length := by
  rw [skipStatement] at h
  split at h
  · cases h; simp
  split at h
  · split at h
    · simp at h
    · rename_i hb
      exact Nat.lt_of_le_of_lt (skipStatement_length_le h) (readBlock_length hb)
  split at h
  · simp_all
  · exact Nat.lt_succ_of_le (skipStatement_length_le h)

/-- The tokens after a `use` of traits, behind its `;` or its block. -/
def skipUse (eof : Nat) : List Token → Except SyntaxError (List Token)
  | [] => .ok []
  | t :: ts =>
    if t.isPunctuation ';' then .ok ts
    else if t.isPunctuation '{' then (readBlock eof (t :: ts)).map Prod.snd
    else skipUse eof ts

theorem skipUse_length_le {eof : Nat} {ts rest : List Token} (h : skipUse eof ts = .ok rest) :
    rest.length ≤ ts.length := by
  induction ts with
  | nil => cases h; simp
  | cons t ts ih =>
    rw [skipUse] at h
    split at h
    · cases h; simp
    split at h
    · obtain ⟨⟨_, r⟩, hb, rfl⟩ := map_eq_ok h
      exact Nat.le_of_lt (readBlock_length hb)
    · exact Nat.le_succ_of_le (ih h)

/-! ## Bodies -/

/-- The words that may stand before a member. -/
inductive Modifier
  | visible (v : Visibility)
  | isStatic
  /-- A word that class files do not keep -/
  | other
  deriving DecidableEq, Repr

/-- The modifiers, each with its word. -/
def Modifier.table : List (String × Modifier) :=
  [("public", .visible .publicMember), ("protected", .visible .protectedMember),
    ("private", .visible .privateMember), ("static", .isStatic), ("abstract", .other),
    ("final", .other), ("var", .other), ("readonly", .other)]

/-- The modifier that a token is. -/
def Token.modifier? (t : Token) : Option Modifier :=
  (Modifier.table.find? fun (word, _) => t.isName word).map Prod.snd

/-- What waits for the next member. -/
structure Pending where
  doc? : Option String := none
  modifiers : List Modifier := []

/-- The visibility that modifiers give; the strictest wins. -/
def visibilityOf (modifiers : List Modifier) : Visibility :=
  if modifiers.contains (.visible .privateMember) then .privateMember
  else if modifiers.contains (.visible .protectedMember) then .protectedMember
  else .publicMember

/-- The tokens without the `&` of a function that returns a reference. -/
def dropReference (ts : List Token) : List Token :=
  if ts.head?.any (·.isPunctuation '&') then ts.drop 1 else ts

theorem dropReference_length_le (ts : List Token) : (dropReference ts).length ≤ ts.length := by
  unfold dropReference
  split <;> simp

/-- Reads a method after its word `function`. -/
def readMethod (eof : Nat) (pending : Pending) (ts : List Token) : Parsed MethodDecl :=
  match expectName eof .ofMethod (dropReference ts) with
  | .error e => .error e
  | .ok ((name, line), rest) => (readFunction eof rest).map fun (body?, rest) =>
    ({ name, line, body?, doc? := pending.doc?, visibility := visibilityOf pending.modifiers,
       isStatic := pending.modifiers.contains .isStatic }, rest)

theorem readMethod_length {eof : Nat} {pending : Pending} {ts rest : List Token} {m : MethodDecl}
    (h : readMethod eof pending ts = .ok (m, rest)) : rest.length < ts.length := by
  unfold readMethod at h
  split at h
  · simp at h
  · rename_i hn
    obtain ⟨⟨_, r⟩, hf, he⟩ := map_eq_ok h
    cases he
    have := expectName_length hn
    have := readFunction_length hf
    have := dropReference_length_le ts
    dsimp only at *
    omega

/-- The constants and methods of a class, in order. -/
structure Members where
  constants : List ConstantDecl := []
  methods : List MethodDecl := []
  deriving DecidableEq, Repr

/-- Reads the members up to the `}` that closes the class; `unclosed` is the error if the
    tokens end before. -/
def readMembers (eof : Nat) (unclosed : SyntaxError) (pending : Pending) (ts : List Token) :
    Parsed Members :=
  match ts with
  | [] => .error unclosed
  | t :: ts =>
    if _hc : t.isPunctuation '}' then .ok ({}, ts)
    else match t.kind, t.modifier? with
      | .docComment doc, _ => readMembers eof unclosed { pending with doc? := some doc } ts
      | _, some m =>
        readMembers eof unclosed { pending with modifiers := pending.modifiers ++ [m] } ts
      | _, none =>
        if t.isName "const" then
          match _h : readConstants eof ts with
          | .error e => .error e
          | .ok (constants, rest) => (readMembers eof unclosed {} rest).map fun (ms, rest) =>
            ({ ms with constants := constants ++ ms.constants }, rest)
        else if t.isName "function" then
          match _h : readMethod eof pending ts with
          | .error e => .error e
          | .ok (m, rest) => (readMembers eof unclosed {} rest).map fun (ms, rest) =>
            ({ ms with methods := m :: ms.methods }, rest)
        else if t.isName "use" then
          match _h : skipUse eof ts with
          | .error e => .error e
          | .ok rest => readMembers eof unclosed {} rest
        else
          match _h : skipStatement eof (t :: ts) with
          | .error e => .error e
          | .ok rest => readMembers eof unclosed {} rest
  termination_by ts.length
  decreasing_by
    · simp
    · simp
    · exact Nat.lt_succ_of_lt (readConstants_length _h)
    · exact Nat.lt_succ_of_lt (readMethod_length _h)
    · exact Nat.lt_succ_of_le (skipUse_length_le _h)
    · exact skipStatement_length (by simpa using _hc) _h

end PhpSharp.Php
