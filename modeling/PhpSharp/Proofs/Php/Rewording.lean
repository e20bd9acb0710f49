/-
  What the readers of class files do not look at: the values of strings, the case of letters in
  names, and lines.

  A `Rewording` changes these in a token, and with them in everything that is made of tokens.
  `readX_reword`: every reader gives the reworded answer on reworded tokens; so does
  `ClassFile.ofTokens`.
-/
import PhpSharp.Proofs.Php.RoundTrip
import PhpSharp.Proofs.Text.Letters

namespace PhpSharp.Php

/-! ## The readers, step by step -/

section
variable {eof : Nat} {t : Token} {ts : List Token}

theorem readConstants_eq : readConstants eof ts =
    (readConstantName eof none ts).bind fun ((name, line), afterName) =>
      (readConstantValue ⟨line, .constantNotTerminated name⟩ 0 afterName).bind
        fun ((value, more), rest) =>
          if value = [] then .error ⟨line, .constantWithoutValue name⟩
          else if more then
            (readConstants eof rest).map fun (constants, rest) =>
              (⟨name, value, line⟩ :: constants, rest)
          else .ok ([⟨name, value, line⟩], rest) := by
  rw [readConstants.eq_def]
  split
  · rename_i hn
    rw [hn]
    rfl
  · rename_i hn
    rw [hn]
    dsimp only [Except.bind]
    split
    · rename_i hv
      rw [hv]
    · rename_i hv
      rw [hv]

theorem readFunctionBody_cons : readFunctionBody eof (t :: ts) =
    if t.isPunctuation '{' then (readBlock eof (t :: ts)).map fun (body, rest) => (some body, rest)
    else if t.isPunctuation ';' then .ok (none, ts)
    else if t.isPunctuation '(' then
      (readBlock eof (t :: ts)).bind fun (_, rest) => readFunctionBody eof rest
    else readFunctionBody eof ts := by
  rw [readFunctionBody.eq_def]
  dsimp only
  congr 3
  split
  · rename_i hb
    rw [hb]
    rfl
  · rename_i hb
    rw [hb]
    rfl

theorem skipStatement_cons : skipStatement eof (t :: ts) =
    if t.isPunctuation ';' then .ok ts
    else if t.opens?.isSome then
      (readBlock eof (t :: ts)).bind fun (_, rest) => skipStatement eof rest
    else if t.isPunctuation '}' then .ok (t :: ts)
    else skipStatement eof ts := by
  rw [skipStatement.eq_def]
  dsimp only
  congr 2
  split
  · rename_i hb
    rw [hb]
    rfl
  · rename_i hb
    rw [hb]
    rfl

theorem readHead_cons {name : String} {implementing : Bool} :
    readHead eof name implementing (t :: ts) =
      if t.isPunctuation '{' then .ok ({}, ts)
      else if t.isName "extends" then
        (expectName eof .ofParent ts).bind fun ((parent, _), rest) =>
          (readHead eof name false rest).map fun (head, rest) =>
            ({ head with parent? := head.parent?.or (some parent) }, rest)
      else if t.isName "implements" then readHead eof name true ts
      else match t.name?, implementing with
        | some interface, true => (readHead eof name true ts).map fun (head, rest) =>
          ({ head with interfaces := interface :: head.interfaces }, rest)
        | _, _ => readHead eof name implementing ts := by
  rw [readHead.eq_def]
  dsimp only
  split
  · rfl
  split
  · split <;> (rename_i h; rw [h]; rfl)
  · rfl

end

/-- A change of letters in names that keeps them but for their case, of the values of strings, and
    of lines. -/
structure Rewording where
  letter : Char → Char
  toLower_letter : ∀ c, (letter c).toLower = c.toLower
  text : String → String
  line : Nat → Nat

namespace Rewording

variable (r : Rewording)

/-! ## Everything reworded -/

def name (s : String) : String := String.ofList (s.toList.map r.letter)

def kind : TokenKind → TokenKind
  | .name text => .name (r.name text)
  | .string value => .string (r.text value)
  | kind => kind

def token (t : Token) : Token := ⟨r.kind t.kind, r.line t.line⟩

def tokens (ts : List Token) : List Token := ts.map r.token

def fault : SyntaxFault → SyntaxFault
  | .classWithoutBody name => .classWithoutBody (r.name name)
  | .classNotClosed name => .classNotClosed (r.name name)
  | .constantNotTerminated name => .constantNotTerminated (r.name name)
  | .constantWithoutValue name => .constantWithoutValue (r.name name)
  | fault => fault

def error (e : SyntaxError) : SyntaxError := ⟨r.line e.line, r.fault e.fault⟩

def constant (c : ConstantDecl) : ConstantDecl := ⟨r.name c.name, r.tokens c.value, r.line c.line⟩

def method (m : MethodDecl) : MethodDecl :=
  { m with name := r.name m.name, body? := m.body?.map r.tokens, line := r.line m.line }

def classDecl (c : ClassDecl) : ClassDecl where
  name := r.name c.name
  isAbstract := c.isAbstract
  parent? := c.parent?.map r.name
  interfaces := c.interfaces.map r.name
  constants := c.constants.map r.constant
  methods := c.methods.map r.method
  line := r.line c.line

def file (f : ClassFile) : ClassFile := ⟨f.nameSpace?.map r.name, f.classes.map r.classDecl⟩

/-- An answer with a value that `f` rewords, or with an error. -/
def answer {α β : Type} (f : α → β) : Except SyntaxError α → Except SyntaxError β
  | .ok a => .ok (f a)
  | .error e => .error (r.error e)

/-- An answer with the tokens that are left. -/
def parsed {α β : Type} (f : α → β) : Parsed α → Parsed β := r.answer (Prod.map f r.tokens)

section
variable {α β γ δ : Type} {f : α → β}

@[simp] theorem answer_ok (a : α) : r.answer f (.ok a) = .ok (f a) := rfl

@[simp] theorem answer_error (e : SyntaxError) : r.answer f (.error e) = .error (r.error e) := rfl

@[simp] theorem parsed_ok (a : α) (rest : List Token) :
    r.parsed f (.ok (a, rest)) = .ok (f a, r.tokens rest) := rfl

@[simp] theorem parsed_error (e : SyntaxError) : r.parsed f (.error e) = .error (r.error e) := rfl

theorem answer_map {g : α → γ} {f' : γ → δ} {g' : β → δ} (h : ∀ a, f' (g a) = g' (f a))
    (x : Except SyntaxError α) : r.answer f' (x.map g) = (r.answer f x).map g' := by
  cases x with
  | ok a => exact congrArg Except.ok (h a)
  | error e => rfl

theorem parsed_map {g : α × List Token → γ × List Token} {f' : γ → δ}
    {g' : β × List Token → δ × List Token}
    (h : ∀ a rest, Prod.map f' r.tokens (g (a, rest)) = g' (f a, r.tokens rest)) (x : Parsed α) :
    r.parsed f' (x.map g) = (r.parsed f x).map g' :=
  r.answer_map (f := Prod.map f r.tokens) (fun ⟨a, rest⟩ => h a rest) x

theorem rest_map (x : Parsed α) :
    r.answer r.tokens (x.map Prod.snd) = (r.parsed f x).map Prod.snd := by
  cases x <;> rfl

end

@[simp] theorem tokens_nil : r.tokens [] = [] := rfl

@[simp] theorem tokens_cons (t : Token) (ts : List Token) :
    r.tokens (t :: ts) = r.token t :: r.tokens ts := rfl

@[simp] theorem tokens_eq_nil {ts : List Token} : r.tokens ts = [] ↔ ts = [] := List.map_eq_nil_iff

/-! ## Tokens -/

section
variable (t : Token)

@[simp] theorem line_token : (r.token t).line = r.line t.line := rfl

theorem sameLetters_name (s word : String) :
    Text.sameLetters (r.name s) word = Text.sameLetters s word := by
  simp [Text.sameLetters, name, Function.comp_def, r.toLower_letter]

@[simp] theorem name?_token : (r.token t).name? = t.name?.map r.name := by
  obtain ⟨kind, line⟩ := t
  cases kind <;> rfl

@[simp] theorem punctuation?_token : (r.token t).punctuation? = t.punctuation? := by
  obtain ⟨kind, line⟩ := t
  cases kind <;> rfl

@[simp] theorem isPunctuation_token (c : Char) :
    (r.token t).isPunctuation c = t.isPunctuation c := by
  obtain ⟨kind, line⟩ := t
  cases kind <;> rfl

@[simp] theorem isName_token (word : String) : (r.token t).isName word = t.isName word := by
  obtain ⟨kind, line⟩ := t
  cases kind with
  | name text => exact r.sameLetters_name text word
  | _ => rfl

@[simp] theorem opens?_token : (r.token t).opens? = t.opens? := by
  rw [Token.opens?, punctuation?_token, Token.opens?]

@[simp] theorem closes?_token : (r.token t).closes? = t.closes? := by
  rw [Token.closes?, punctuation?_token, Token.closes?]

@[simp] theorem modifier?_token : (r.token t).modifier? = t.modifier? := by
  simp only [Token.modifier?, isName_token]

@[simp] theorem selectsMember_token : (r.token t).selectsMember = t.selectsMember := by
  obtain ⟨kind, line⟩ := t
  cases kind <;> rfl

@[simp] theorem opensOther_token : (r.token t).opensOther = t.opensOther := by
  simp only [Token.opensOther, isName_token]

end

/-! ## Blocks and functions -/

section
variable (eof : Nat) (ts : List Token)

theorem push_reword (t : Token) (p : Parsed (List Token)) :
    r.parsed r.tokens (Parsed.push t p) = Parsed.push (r.token t) (r.parsed r.tokens p) := by
  cases p <;> rfl

theorem closeBlock_reword (unclosed : SyntaxError) (inner : Bracket) (outer : List Bracket) :
    closeBlock (r.error unclosed) inner outer (r.tokens ts) =
      r.parsed r.tokens (closeBlock unclosed inner outer ts) := by
  induction ts generalizing inner outer with
  | nil => rfl
  | cons t ts ih =>
    rw [tokens_cons]
    unfold closeBlock
    rw [opens?_token, closes?_token]
    split
    · rw [ih, push_reword]
    · rw [ih, push_reword]
    · split
      · rfl
      split
      · rfl
      · rw [ih, push_reword]

theorem readBlock_reword :
    readBlock (r.line eof) (r.tokens ts) = r.parsed r.tokens (readBlock eof ts) := by
  cases ts with
  | nil => rfl
  | cons t ts =>
    rw [tokens_cons, readBlock, readBlock, opens?_token]
    split
    · rename_i b _
      exact r.closeBlock_reword ts ⟨t.line, .unclosedBracket b.opening⟩ b []
    · rfl

theorem readBlock_cons_reword (t : Token) :
    readBlock (r.line eof) (r.token t :: r.tokens ts) =
      r.parsed r.tokens (readBlock eof (t :: ts)) :=
  r.readBlock_reword eof (t :: ts)

theorem readFunctionBody_reword :
    readFunctionBody (r.line eof) (r.tokens ts) =
      r.parsed (Option.map r.tokens) (readFunctionBody eof ts) := by
  fun_induction readFunctionBody eof ts with
  | case1 =>
    rw [tokens_nil, readFunctionBody.eq_def]
    rfl
  | case2 t ts hbrace =>
    rw [tokens_cons, readFunctionBody_cons, isPunctuation_token, if_pos hbrace,
      readBlock_cons_reword]
    exact (r.parsed_map (fun _ _ => rfl) _).symm
  | case3 t ts hbrace hstop =>
    rw [tokens_cons, readFunctionBody_cons]
    simp [hbrace, hstop]
  | case4 t ts hbrace hstop hopen e hb =>
    rw [tokens_cons, readFunctionBody_cons]
    simp [hbrace, hstop, hopen, readBlock_cons_reword, hb, Except.bind]
  | case5 t ts hbrace hstop hopen _ rest hb ih =>
    rw [tokens_cons, readFunctionBody_cons]
    simp [hbrace, hstop, hopen, readBlock_cons_reword, hb, ih, Except.bind]
  | case6 t ts hbrace hstop hopen ih =>
    rw [tokens_cons, readFunctionBody_cons]
    simp [hbrace, hstop, hopen, ih]

theorem dropWhile_reword (c : Char) :
    (r.tokens ts).dropWhile (fun t => !t.isPunctuation c) =
      r.tokens (ts.dropWhile fun t => !t.isPunctuation c) := by
  rw [tokens, List.dropWhile_map, tokens]
  congr 2
  funext t
  simp

theorem readFunction_reword :
    readFunction (r.line eof) (r.tokens ts) =
      r.parsed (Option.map r.tokens) (readFunction eof ts) := by
  rw [readFunction, readFunction, dropWhile_reword]
  cases ts.dropWhile fun t => !t.isPunctuation '(' with
  | nil => exact r.readFunctionBody_reword eof []
  | cons t ts =>
    simp only [tokens_cons, readBlock_cons_reword]
    cases readBlock eof (t :: ts) with
    | error e => rfl
    | ok found => exact r.readFunctionBody_reword eof found.2

/-! ## Members -/

/-- A name with its line. -/
def named : String × Nat → String × Nat := Prod.map r.name r.line

def members (ms : Members) : Members := ⟨ms.constants.map r.constant, ms.methods.map r.method⟩

theorem expectName_reword (role : NameRole) :
    expectName (r.line eof) role (r.tokens ts) = r.parsed r.named (expectName eof role ts) := by
  cases ts with
  | nil => rfl
  | cons t ts =>
    rw [tokens_cons, expectName, expectName, name?_token]
    cases t.name? <;> rfl

theorem readConstantName_reword (last? : Option (String × Nat)) :
    readConstantName (r.line eof) (last?.map r.named) (r.tokens ts) =
      r.parsed r.named (readConstantName eof last? ts) := by
  induction ts generalizing last? with
  | nil => cases last? <;> rfl
  | cons t ts ih =>
    rw [tokens_cons]
    unfold readConstantName
    simp only [isPunctuation_token, name?_token]
    split
    · cases last? <;> rfl
    cases hname : t.name? with
    | some name => exact ih (some (name, t.line))
    | none =>
      dsimp only [Option.map_none]
      split
      · exact ih last?
      · rfl

theorem readConstantValue_reword (unterminated : SyntaxError) (depth : Nat) :
    readConstantValue (r.error unterminated) depth (r.tokens ts) =
      r.parsed (Prod.map r.tokens id) (readConstantValue unterminated depth ts) := by
  induction ts generalizing depth with
  | nil => rfl
  | cons t ts ih =>
    rw [tokens_cons, readConstantValue, readConstantValue]
    simp only [isPunctuation_token, opens?_token, closes?_token]
    split
    · rfl
    · rw [ih]
      exact (r.parsed_map (fun _ _ => rfl) _).symm

theorem readConstants_reword :
    readConstants (r.line eof) (r.tokens ts) =
      r.parsed (List.map r.constant) (readConstants eof ts) := by
  have hname := fun ts => r.readConstantName_reword eof ts none
  have hvalue := fun (line : Nat) (name : String) ts =>
    r.readConstantValue_reword ts ⟨line, .constantNotTerminated name⟩ 0
  dsimp only [Option.map_none, error, fault] at hname hvalue
  fun_induction readConstants eof ts with
  | case1 ts e hn =>
    rw [readConstants_eq, hname, hn]
    rfl
  | case2 ts name line afterName hn e hv =>
    rw [readConstants_eq, hname, hn]
    simp [Except.bind, named, hvalue, hv]
  | case3 ts name line afterName hn more rest hv =>
    rw [readConstants_eq, hname, hn]
    simp [Except.bind, named, hvalue, hv]
    rfl
  | case4 ts name line afterName hn value rest hne hv ih =>
    rw [readConstants_eq, hname, hn]
    simp [Except.bind, named, hvalue, hv, hne, ih]
    exact (r.parsed_map (fun _ _ => rfl) _).symm
  | case5 ts name line afterName hn value more rest hv hne hmore =>
    rw [readConstants_eq, hname, hn]
    simp [Except.bind, named, hvalue, hv, hne, hmore]
    rfl

theorem readMethod_reword (pending : Pending) :
    readMethod (r.line eof) pending (r.tokens ts) =
      r.parsed r.method (readMethod eof pending ts) := by
  have href : dropReference (r.tokens ts) = r.tokens (dropReference ts) := by
    cases ts with
    | nil => rfl
    | cons t ts =>
      by_cases h : t.isPunctuation '&' = true <;> simp [dropReference, h]
  rw [readMethod, readMethod, href, expectName_reword]
  cases expectName eof .ofMethod (dropReference ts) with
  | error e => rfl
  | ok found =>
    obtain ⟨⟨name, line⟩, rest⟩ := found
    dsimp only [parsed_ok, named, Prod.map]
    rw [readFunction_reword]
    exact (r.parsed_map (fun _ _ => rfl) _).symm

theorem skipStatement_reword :
    skipStatement (r.line eof) (r.tokens ts) = r.answer r.tokens (skipStatement eof ts) := by
  fun_induction skipStatement eof ts with
  | case1 =>
    rw [tokens_nil, skipStatement.eq_def]
    rfl
  | case2 t ts hstop =>
    rw [tokens_cons, skipStatement_cons]
    simp [hstop]
  | case3 t ts hstop hopen e hb =>
    rw [tokens_cons, skipStatement_cons]
    simp [hstop, hopen, readBlock_cons_reword, hb, Except.bind]
  | case4 t ts hstop hopen _ rest hb ih =>
    rw [tokens_cons, skipStatement_cons]
    simp [hstop, hopen, readBlock_cons_reword, hb, ih, Except.bind]
  | case5 t ts hstop hopen hclose =>
    rw [tokens_cons, skipStatement_cons]
    simp [hstop, hopen, hclose]
  | case6 t ts hstop hopen hclose ih =>
    rw [tokens_cons, skipStatement_cons]
    simp [hstop, hopen, hclose, ih]

theorem skipUse_reword :
    skipUse (r.line eof) (r.tokens ts) = r.answer r.tokens (skipUse eof ts) := by
  induction ts with
  | nil => rfl
  | cons t ts ih =>
    rw [tokens_cons, skipUse, skipUse]
    simp only [isPunctuation_token, readBlock_cons_reword, ih]
    split
    · rfl
    split
    · exact (r.rest_map _).symm
    · rfl

theorem kind_ne_docComment {kind : TokenKind} (h : ∀ doc, kind ≠ .docComment doc) (doc : String) :
    r.kind kind ≠ .docComment doc := by
  cases kind with
  | docComment text => exact absurd rfl (h text)
  | _ => exact TokenKind.noConfusion

/-- What a reworded token does that neither closes the class nor waits for a member. -/
theorem readMembers_item_reword {unclosed : SyntaxError} {pending : Pending} {t : Token}
    {ts : List Token} (hbrace : ¬t.isPunctuation '}' = true)
    (hdoc : ∀ doc, t.kind ≠ .docComment doc) (hm : t.modifier? = none) :
    readMembers (r.line eof) (r.error unclosed) pending (r.tokens (t :: ts)) =
      if t.isName "const" then
        (r.parsed (List.map r.constant) (readConstants eof ts)).bind fun (constants, rest) =>
          (readMembers (r.line eof) (r.error unclosed) {} rest).map fun (ms, rest) =>
            ({ ms with constants := constants ++ ms.constants }, rest)
      else if t.isName "function" then
        (r.parsed r.method (readMethod eof pending ts)).bind fun (m, rest) =>
          (readMembers (r.line eof) (r.error unclosed) {} rest).map fun (ms, rest) =>
            ({ ms with methods := m :: ms.methods }, rest)
      else if t.isName "use" then
        (r.answer r.tokens (skipUse eof ts)).bind (readMembers (r.line eof) (r.error unclosed) {})
      else
        (r.answer r.tokens (skipStatement eof (t :: ts))).bind
          (readMembers (r.line eof) (r.error unclosed) {}) := by
  have hskip := r.skipStatement_reword eof (t :: ts)
  rw [tokens_cons] at hskip
  rw [tokens_cons, Written.readMembers_item (by simpa using hbrace) (r.kind_ne_docComment hdoc)
    (by simpa using hm), isName_token, isName_token, isName_token, readConstants_reword,
    readMethod_reword, skipUse_reword, hskip]

theorem readMembers_reword (unclosed : SyntaxError) (pending : Pending) :
    readMembers (r.line eof) (r.error unclosed) pending (r.tokens ts) =
      r.parsed r.members (readMembers eof unclosed pending ts) := by
  fun_induction readMembers eof unclosed pending ts with
  | case1 =>
    rw [tokens_nil, readMembers.eq_def]
    rfl
  | case2 pending t ts hbrace =>
    rw [tokens_cons, readMembers.eq_def]
    simp [hbrace, members]
  | case3 pending t ts hbrace doc hk ih =>
    have hkind : (r.token t).kind = .docComment doc := congrArg r.kind hk
    rw [tokens_cons, readMembers.eq_def]
    simp [hbrace, hkind, ih]
  | case4 pending t ts hbrace m hm hdoc ih =>
    rw [tokens_cons, readMembers.eq_def]
    simp only [isPunctuation_token, hbrace, modifier?_token, hm]
    split
    · cases ‹false = true›
    split
    · exact absurd ‹_› (r.kind_ne_docComment hdoc _)
    · cases ‹some m = some _›
      exact ih
    · cases ‹some m = none›
  | case5 pending t ts hbrace hm hconst e h hdoc =>
    rw [r.readMembers_item_reword eof hbrace hdoc hm]
    simp [hconst, h, Except.bind]
  | case6 pending t ts hbrace hm hconst constants rest h hdoc ih =>
    rw [r.readMembers_item_reword eof hbrace hdoc hm]
    simp [hconst, h, ih, Except.bind]
    exact (r.parsed_map (fun _ _ => by simp [members]) _).symm
  | case7 pending t ts hbrace hm hconst hfunction e h hdoc =>
    rw [r.readMembers_item_reword eof hbrace hdoc hm]
    simp [hconst, hfunction, h, Except.bind]
  | case8 pending t ts hbrace hm hconst hfunction m rest h hdoc ih =>
    rw [r.readMembers_item_reword eof hbrace hdoc hm]
    simp [hconst, hfunction, h, ih, Except.bind]
    exact (r.parsed_map (fun _ _ => rfl) _).symm
  | case9 pending t ts hbrace hm hconst hfunction huse e h hdoc =>
    rw [r.readMembers_item_reword eof hbrace hdoc hm]
    simp [hconst, hfunction, huse, h, Except.bind]
  | case10 pending t ts hbrace hm hconst hfunction huse rest h hdoc ih =>
    rw [r.readMembers_item_reword eof hbrace hdoc hm]
    simp [hconst, hfunction, huse, h, ih, Except.bind]
  | case11 pending t ts hbrace hm hconst hfunction huse e h hdoc =>
    rw [r.readMembers_item_reword eof hbrace hdoc hm]
    simp [hconst, hfunction, huse, h, Except.bind]
  | case12 pending t ts hbrace hm hconst hfunction huse rest h hdoc ih =>
    rw [r.readMembers_item_reword eof hbrace hdoc hm]
    simp [hconst, hfunction, huse, h, ih, Except.bind]

/-! ## Files -/

def head (h : ClassHead) : ClassHead := ⟨h.parent?.map r.name, h.interfaces.map r.name⟩

def declaration : Declaration → Declaration
  | .nameSpace name => .nameSpace (r.name name)
  | .classDecl c => .classDecl (r.classDecl c)

theorem readHead_reword (name : String) (implementing : Bool) :
    readHead (r.line eof) (r.name name) implementing (r.tokens ts) =
      r.parsed r.head (readHead eof name implementing ts) := by
  fun_induction readHead eof name implementing ts with
  | case1 =>
    rw [tokens_nil, readHead.eq_def]
    rfl
  | case2 implementing t ts hbrace =>
    rw [tokens_cons, readHead_cons]
    simp [hbrace, head]
  | case3 implementing t ts hbrace hextends e h =>
    rw [tokens_cons, readHead_cons]
    simp [hbrace, hextends, expectName_reword, h, Except.bind]
  | case4 implementing t ts hbrace hextends parent line rest h ih =>
    rw [tokens_cons, readHead_cons]
    simp [hbrace, hextends, expectName_reword, h, ih, named, Except.bind]
    exact (r.parsed_map (fun _ _ => by simp [head]) _).symm
  | case5 implementing t ts hbrace hextends himplements ih =>
    rw [tokens_cons, readHead_cons]
    simp [hbrace, hextends, himplements, ih]
  | case6 t ts hbrace hextends himplements interface hname ih =>
    rw [tokens_cons, readHead_cons]
    simp [hbrace, hextends, himplements, hname, ih]
    exact (r.parsed_map (fun _ _ => rfl) _).symm
  | case7 implementing t ts hbrace hextends himplements hskip ih =>
    rw [tokens_cons, readHead_cons]
    simp only [isPunctuation_token, hbrace, isName_token, hextends, himplements, name?_token, ih,
      Bool.false_eq_true, if_false]
    split
    · rename_i hname
      obtain ⟨interface, hname, -⟩ := Option.map_eq_some_iff.1 hname
      exact absurd rfl (hskip interface hname)
    · rfl

theorem readClass_reword (isAbstract : Bool) (line : Nat) :
    readClass (r.line eof) isAbstract (r.line line) (r.tokens ts) =
      r.parsed r.classDecl (readClass eof isAbstract line ts) := by
  rw [readClass, readClass, expectName_reword]
  cases expectName eof .ofClass ts with
  | error e => rfl
  | ok found =>
    obtain ⟨⟨name, nameLine⟩, rest⟩ := found
    dsimp only [parsed_ok, named, Prod.map]
    rw [readHead_reword]
    cases readHead eof name false rest with
    | error e => rfl
    | ok found =>
      obtain ⟨head, rest⟩ := found
      have hmembers := r.readMembers_reword eof rest ⟨line, .classNotClosed name⟩ {}
      dsimp only [error, fault] at hmembers
      dsimp only [parsed_ok]
      rw [hmembers]
      exact (r.parsed_map (fun _ _ => rfl) _).symm

theorem skipToBlock_reword :
    skipToBlock (r.line eof) (r.tokens ts) = r.answer r.tokens (skipToBlock eof ts) := by
  induction ts with
  | nil => rfl
  | cons t ts ih =>
    rw [tokens_cons, skipToBlock, skipToBlock]
    simp only [isPunctuation_token, readBlock_cons_reword, ih]
    split
    · exact (r.rest_map _).symm
    · rfl

theorem any_reword {p : Token → Bool} (hp : ∀ t, p (r.token t) = p t) :
    (r.tokens ts).head?.any p = ts.head?.any p := by
  cases ts with
  | nil => rfl
  | cons t ts => exact hp t

theorem isAbstractAfter_reword : isAbstractAfter (r.tokens ts) = isAbstractAfter ts := by
  cases ts with
  | nil => rfl
  | cons t ts =>
    simp only [tokens_cons, isAbstractAfter, isName_token,
      r.any_reword (p := (·.isName "abstract")) ts fun t => r.isName_token t _]

theorem letter_eq_backslash {c : Char} : r.letter c = '\\' ↔ c = '\\' := by
  rw [← Text.toLower_eq_backslash, r.toLower_letter, Text.toLower_eq_backslash]

/-- The backslashes at the start of a name are its own. -/
theorem dropBackslashes_reword (s : String) :
    String.ofList ((r.name s).toList.dropWhile (· == '\\')) =
      r.name (String.ofList (s.toList.dropWhile (· == '\\'))) := by
  have hletter : ((· == '\\') ∘ r.letter) = (· == '\\') := by
    funext c
    rw [Function.comp_apply, Bool.eq_iff_iff, beq_iff_eq, beq_iff_eq, letter_eq_backslash]
  simp [name, List.dropWhile_map, hletter]

theorem readDeclarations_reword (before : List Token) :
    readDeclarations (r.line eof) (r.tokens before) (r.tokens ts) =
      r.answer (List.map r.declaration) (readDeclarations eof before ts) := by
  induction hn : ts.length using Nat.strongRecOn generalizing before ts with
  | ind n ih =>
    subst hn
    match ts with
    | [] =>
      rw [tokens_nil, readDeclarations.eq_def, readDeclarations.eq_def]
      rfl
    | t :: ts =>
      have hbefore := r.any_reword before r.selectsMember_token
      by_cases hb : before.head?.any Token.selectsMember = true
      · have hskip := ih ts.length (by simp) ts (t :: before) rfl
        rw [tokens_cons, readDeclarations.eq_def, readDeclarations.eq_def eof]
        simpa [hbefore, hb] using hskip
      rw [Bool.not_eq_true] at hb
      rw [hb] at hbefore
      by_cases hf : t.isName "function" = true
      · rw [Written.readDeclarations_tail hb hf, tokens_cons,
          Written.readDeclarations_tail hbefore (by simpa using hf), readFunction_reword]
        cases hr : readFunction eof ts with
        | error e => rfl
        | ok found => exact ih _ (Nat.lt_succ_of_lt (readFunction_length hr)) found.2 [] rfl
      rw [Bool.not_eq_true] at hf
      have hf' : (r.token t).isName "function" = false := by simpa using hf
      match ts with
      | [] =>
        rw [tokens_cons, tokens_nil, readDeclarations.eq_def, readDeclarations.eq_def eof]
        simp [hbefore, hb, hf]
      | next :: rest =>
        have hskip := ih (next :: rest).length (by simp) (next :: rest) (t :: before) rfl
        cases hname : next.name? with
        | none =>
          have hnone : ∀ u ∈ (next :: rest).head?, u.name? = none := by simp [hname]
          have hnone' : ∀ u ∈ (r.tokens (next :: rest)).head?, u.name? = none := by simp [hname]
          rw [Written.readDeclarations_skip hb hf (.inl hnone), tokens_cons,
            Written.readDeclarations_skip hbefore hf' (.inl hnone')]
          exact hskip
        | some name =>
          have hname' : (r.token next).name? = some (r.name name) := by simp [hname]
          rw [Written.readDeclarations_named hb hf hname, tokens_cons, tokens_cons,
            Written.readDeclarations_named hbefore hf' hname']
          simp only [isName_token, opensOther_token, isAbstractAfter_reword, line_token]
          split
          · have hmore := ih rest.length (by simp only [List.length_cons]; omega) rest [next, t] rfl
            rw [tokens_cons, tokens_cons, tokens_nil] at hmore
            rw [hmore]
            exact (r.answer_map (fun _ => by simp [declaration, dropBackslashes_reword]) _).symm
          split
          · rw [← tokens_cons, readClass_reword]
            cases hc : readClass eof (isAbstractAfter before) t.line (next :: rest) with
            | error e => rfl
            | ok found =>
              have hmore := ih _ (Nat.lt_succ_of_lt (readClass_length hc)) found.2 [] rfl
              rw [tokens_nil] at hmore
              simp only [parsed, answer_ok, Except.bind, Prod.map, hmore]
              exact (r.answer_map (fun _ => by simp [declaration]) _).symm
          split
          · rw [← tokens_cons, skipToBlock_reword]
            cases hs : skipToBlock eof (next :: rest) with
            | error e => rfl
            | ok rest' => exact ih _ (Nat.lt_succ_of_lt (skipToBlock_length hs)) rest' [] rfl
          · exact hskip

theorem ofDeclarations_reword (ds : List Declaration) :
    ClassFile.ofDeclarations (ds.map r.declaration) = r.file (ClassFile.ofDeclarations ds) := by
  have hname : (ClassFile.ofDeclarations (ds.map r.declaration)).nameSpace? =
      (ClassFile.ofDeclarations ds).nameSpace?.map r.name := by
    simp only [ClassFile.ofDeclarations, ← List.getLast?_map, List.filterMap_map,
      List.map_filterMap]
    congr 2
    funext d
    cases d <;> rfl
  have hclasses : (ClassFile.ofDeclarations (ds.map r.declaration)).classes =
      (ClassFile.ofDeclarations ds).classes.map r.classDecl := by
    simp only [ClassFile.ofDeclarations, List.filterMap_map, List.map_filterMap]
    congr 1
    funext d
    cases d <;> rfl
  rw [file, ← hname, ← hclasses]

theorem lastLine_reword (h : ts ≠ []) :
    ClassFile.lastLine (r.tokens ts) = r.line (ClassFile.lastLine ts) := by
  rw [ClassFile.lastLine, ClassFile.lastLine, tokens, List.getLast?_map,
    List.getLast?_eq_some_getLast h]
  rfl

/-- **Files are read without a look at strings, at the case of letters in names, and at lines.** -/
theorem ofTokens_reword :
    ClassFile.ofTokens (r.tokens ts) = r.answer r.file (ClassFile.ofTokens ts) := by
  by_cases hts : ts = []
  · subst hts
    rw [tokens_nil, ClassFile.ofTokens, readDeclarations.eq_def]
    rfl
  · have hread := r.readDeclarations_reword (ClassFile.lastLine ts) ts []
    rw [tokens_nil] at hread
    rw [ClassFile.ofTokens, r.lastLine_reword ts hts, hread, ClassFile.ofTokens]
    exact (r.answer_map (fun ds => (r.ofDeclarations_reword ds).symm) _).symm

/-- A file is read from its reworded tokens. -/
theorem ofSource_reword (source : String) :
    r.answer r.file (ClassFile.ofSource source) =
      (r.answer r.tokens (tokenize source)).bind ClassFile.ofTokens := by
  rw [ClassFile.ofSource]
  cases tokenize source with
  | error e => rfl
  | ok ts => exact (r.ofTokens_reword ts).symm

end

end Rewording

end PhpSharp.Php
