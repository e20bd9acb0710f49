/-
  Reading class files from tokens.

  * `readClass` reads a class after its word `class`;
  * `readDeclarations` goes through the top level of a file. What is no declaration is
    stepped over token by token; interfaces, traits, enumerations and functions are stepped
    over as a whole, so that nothing inside them is taken for a declaration;
  * `ClassFile.ofSource` reads a file.
-/
import PhpSharp.Php.Lexeme
import PhpSharp.Php.ClassFile.Members

namespace PhpSharp.Php

/-! ## Classes -/

/-- What stands between the name of a class and its body. -/
structure ClassHead where
  parent? : Option String := none
  interfaces : List String := []
  deriving DecidableEq, Repr

/-- Reads the head of the class `name` and the `{` behind it. The last `extends` counts; with
    `implementing`, a name is an interface. -/
def readHead (eof : Nat) (name : String) (implementing : Bool) (ts : List Token) :
    Parsed ClassHead :=
  match ts with
  | [] => .error ⟨eof, .classWithoutBody name⟩
  | t :: ts =>
    if t.isPunctuation '{' then .ok ({}, ts)
    else if t.isName "extends" then
      match _h : expectName eof .ofParent ts with
      | .error e => .error e
      | .ok ((parent, _), rest) => (readHead eof name false rest).map fun (head, rest) =>
        ({ head with parent? := head.parent?.or (some parent) }, rest)
    else if t.isName "implements" then readHead eof name true ts
    else match t.name?, implementing with
      | some interface, true => (readHead eof name true ts).map fun (head, rest) =>
        ({ head with interfaces := interface :: head.interfaces }, rest)
      | _, _ => readHead eof name implementing ts
  termination_by ts.length
  decreasing_by
    · exact Nat.lt_succ_of_lt (expectName_length _h)
    all_goals simp

theorem readHead_length {eof : Nat} {name : String} {implementing : Bool} {ts rest : List Token}
    {head : ClassHead} (h : readHead eof name implementing ts = .ok (head, rest)) :
    rest.length < ts.length := by
  fun_induction readHead eof name implementing ts generalizing head with
  | case1 => simp at h
  | case2 => cases h; simp
  | case3 => simp at h
  | case4 _ _ _ _ _ _ _ _ hn ih =>
    obtain ⟨⟨_, r⟩, hr, he⟩ := map_eq_ok h
    cases he
    exact Nat.lt_trans (ih hr) (Nat.lt_succ_of_lt (expectName_length hn))
  | case5 _ _ _ _ _ _ ih => exact Nat.lt_succ_of_lt (ih h)
  | case6 =>
    rename_i ih
    obtain ⟨⟨_, r⟩, hr, he⟩ := map_eq_ok h
    cases he
    exact Nat.lt_succ_of_lt (ih hr)
  | case7 =>
    rename_i ih
    exact Nat.lt_succ_of_lt (ih h)

/-- Reads a class after its word `class`, which stands on the given line. -/
def readClass (eof : Nat) (isAbstract : Bool) (line : Nat) (ts : List Token) : Parsed ClassDecl :=
  match expectName eof .ofClass ts with
  | .error e => .error e
  | .ok ((name, _), rest) =>
    match readHead eof name false rest with
    | .error e => .error e
    | .ok (head, rest) =>
      (readMembers eof ⟨line, .classNotClosed name⟩ {} rest).map fun (members, rest) =>
        ({ name, isAbstract, line, parent? := head.parent?, interfaces := head.interfaces,
           constants := members.constants, methods := members.methods }, rest)

theorem readMembers_length {eof : Nat} {unclosed : SyntaxError} {pending : Pending}
    {ts rest : List Token} {members : Members}
    (h : readMembers eof unclosed pending ts = .ok (members, rest)) :
    rest.length < ts.length := by
  fun_induction readMembers eof unclosed pending ts generalizing members with
  | case1 => simp at h
  | case2 => cases h; simp
  | case3 => rename_i ih; exact Nat.lt_succ_of_lt (ih h)
  | case4 => rename_i ih; exact Nat.lt_succ_of_lt (ih h)
  | case5 => simp at h
  | case6 =>
    rename_i ih
    obtain ⟨⟨_, r⟩, hr, he⟩ := map_eq_ok h
    cases he
    exact Nat.lt_trans (ih hr) (Nat.lt_succ_of_lt (readConstants_length ‹_›))
  | case7 => simp at h
  | case8 =>
    rename_i ih
    obtain ⟨⟨_, r⟩, hr, he⟩ := map_eq_ok h
    cases he
    exact Nat.lt_trans (ih hr) (Nat.lt_succ_of_lt (readMethod_length ‹_›))
  | case9 => simp at h
  | case10 =>
    rename_i ih
    exact Nat.lt_trans (ih h) (Nat.lt_succ_of_le (skipUse_length_le ‹_›))
  | case11 => simp at h
  | case12 =>
    rename_i hc _ _ _ _ _ _ _ ih
    exact Nat.lt_trans (ih h) (skipStatement_length (by simpa using hc) ‹_›)

theorem readClass_length {eof : Nat} {isAbstract : Bool} {line : Nat} {ts rest : List Token}
    {c : ClassDecl} (h : readClass eof isAbstract line ts = .ok (c, rest)) :
    rest.length < ts.length := by
  unfold readClass at h
  split at h
  · simp at h
  · rename_i hn
    split at h
    · simp at h
    · rename_i hh
      obtain ⟨⟨_, r⟩, hm, he⟩ := map_eq_ok h
      cases he
      have := expectName_length hn
      have := readHead_length hh
      have := readMembers_length hm
      omega

/-! ## Files -/

/-- A declaration at the top level that class files keep. -/
inductive Declaration
  | nameSpace (name : String)
  | classDecl (c : ClassDecl)
  deriving DecidableEq, Repr

/-- The tokens behind the first block. -/
def skipToBlock (eof : Nat) : List Token → Except SyntaxError (List Token)
  | [] => .error ⟨eof, .expectedBlock⟩
  | t :: ts =>
    if t.isPunctuation '{' then (readBlock eof (t :: ts)).map Prod.snd else skipToBlock eof ts

theorem skipToBlock_length {eof : Nat} {ts rest : List Token}
    (h : skipToBlock eof ts = .ok rest) : rest.length < ts.length := by
  induction ts with
  | nil => simp [skipToBlock] at h
  | cons t ts ih =>
    rw [skipToBlock] at h
    split at h
    · obtain ⟨⟨_, r⟩, hb, rfl⟩ := map_eq_ok h
      exact readBlock_length hb
    · exact Nat.lt_succ_of_lt (ih h)

/-- Whether a token makes the name behind it a member: `->` or `::`. -/
def Token.selectsMember (t : Token) : Bool := t.kind == .doubleColon || t.kind == .arrow

/-- Whether the tokens before the word `class`, the latest first, make the class abstract. -/
def isAbstractAfter : List Token → Bool
  | [] => false
  | t :: before =>
    t.isName "abstract" ||
      (t.isName "final" || t.isName "readonly") && before.head?.any (·.isName "abstract")

/-- Whether a token opens a declaration whose block is stepped over. -/
def Token.opensOther (t : Token) : Bool :=
  t.isName "interface" || t.isName "trait" || t.isName "enum"

/-- Reads the declarations of a file from the tokens after `before`, the latest first. -/
def readDeclarations (eof : Nat) (before ts : List Token) : Except SyntaxError (List Declaration) :=
  match ts with
  | [] => .ok []
  | t :: ts =>
    if before.head?.any Token.selectsMember then readDeclarations eof (t :: before) ts
    else if t.isName "function" then
      match _h : readFunction eof ts with
      | .error e => .error e
      | .ok (_, rest) => readDeclarations eof [] rest
    else match _hn : ts with
      | [] => .ok []
      | next :: rest =>
        match next.name? with
        | none => readDeclarations eof (t :: before) ts
        | some name =>
          if t.isName "namespace" then
            (readDeclarations eof [next, t] rest).map
              (.nameSpace (String.ofList (name.toList.dropWhile (· == '\\'))) :: ·)
          else if t.isName "class" then
            match _h : readClass eof (isAbstractAfter before) t.line ts with
            | .error e => .error e
            | .ok (c, rest) => (readDeclarations eof [] rest).map (.classDecl c :: ·)
          else if t.opensOther then
            match _h : skipToBlock eof ts with
            | .error e => .error e
            | .ok rest => readDeclarations eof [] rest
          else readDeclarations eof (t :: before) ts
  termination_by ts.length
  decreasing_by
    · simp
    · exact Nat.lt_succ_of_lt (readFunction_length _h)
    · subst _hn; simp
    · simp only [List.length_cons]; omega
    · exact Nat.lt_succ_of_lt (_hn ▸ readClass_length _h)
    · exact Nat.lt_succ_of_lt (_hn ▸ skipToBlock_length _h)
    · subst _hn; simp

namespace ClassFile

/-- The file that makes these declarations; the last namespace is the one that counts. -/
def ofDeclarations (ds : List Declaration) : ClassFile where
  nameSpace? := (ds.filterMap fun | .nameSpace name => some name | _ => none).getLast?
  classes := ds.filterMap fun | .classDecl c => some c | _ => none

/-- The line that an unexpected end of the tokens is blamed on. -/
def lastLine (ts : List Token) : Nat := (ts.getLast?.map Token.line).getD 1

/-- Reads a file from its tokens. -/
def ofTokens (ts : List Token) : Except SyntaxError ClassFile :=
  (readDeclarations (lastLine ts) [] ts).map ofDeclarations

/-- Reads a file from its text. -/
def ofSource (source : String) : Except SyntaxError ClassFile :=
  match tokenize source with
  | .error e => .error e
  | .ok ts => ofTokens ts

end ClassFile

end PhpSharp.Php
