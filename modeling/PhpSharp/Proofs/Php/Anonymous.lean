/-
  Files with anonymous classes.

  * `Quiet`: runs of tokens that declare nothing, as the top level reads them: it steps over tokens
    that do not declare, and over functions and blocks of interfaces as a whole;
  * `AnonymousStatement` is a statement with `new class`, with or without arguments, a parent and
    interfaces, around any well-nested block;
  * `WithAnonymous.parse_named`: such statements record no class if what stands in them is quiet and
    their `class` is not followed by `extends` or `implements`. The top level takes a `class` with a
    name behind it for a declaration, and these two words are names: such an anonymous class
    is recorded under the word.
-/
import Mathlib.Data.List.Forall2
import PhpSharp.Proofs.Php.Imports

namespace PhpSharp.Php.Written

/-! ## Functions without a name -/

/-- Tokens in parentheses. -/
structure Group where
  opening : Mark '('
  inner : List Token
  nested : WellNested inner
  closing : Mark ')'

def Group.tokens (g : Group) : List Token := g.opening.token :: (g.inner ++ [g.closing.token])

/-- What may stand between the parameters and the body of a function: the type of its result, and
    the variables that it captures. -/
inductive Signature : List Token → Prop
  | nil : Signature []
  | plain {t : Token} {ts : List Token} (brace : t.isPunctuation '{' = false)
      (parenthesis : t.isPunctuation '(' = false) (semicolon : t.isPunctuation ';' = false) :
      Signature ts → Signature (t :: ts)
  | group {ts : List Token} (g : Group) : Signature ts → Signature (g.tokens ++ ts)

/-- A function or a closure, behind its word. -/
structure Callable where
  /-- The name, with a `&` before it -/
  front : List Token
  front_plain : ∀ t ∈ front, t.isPunctuation '(' = false
  parameters : Group
  signature : List Token
  isSignature : Signature signature
  body : Body

def Callable.tokens (c : Callable) : List Token :=
  c.front ++ (c.parameters.tokens ++ (c.signature ++ c.body.tokens))

section
variable (eof : Nat)

theorem Group.readBlock (g : Group) (rest : List Token) :
    readBlock eof (g.tokens ++ rest) = .ok (g.inner, rest) := by
  have h := readBlock_nested (o := g.opening.token) (c := g.closing.token) (b := .parenthesis) rfl
    rfl g.nested eof rest
  simpa [Group.tokens] using h

theorem Signature.readFunctionBody {ts : List Token} (h : Signature ts) (body : Body)
    (rest : List Token) :
    readFunctionBody eof (ts ++ (body.tokens ++ rest)) = .ok (body.inner?, rest) := by
  induction h with
  | nil => exact readFunctionBody_tokens eof body rest
  | plain brace parenthesis semicolon _ ih =>
    rw [List.cons_append, readFunctionBody_step ⟨brace, parenthesis, semicolon⟩]
    exact ih
  | @group ts g _ ih =>
    have hblock := g.readBlock eof (ts ++ (body.tokens ++ rest))
    rw [Group.tokens, List.cons_append] at hblock
    rw [Group.tokens, List.append_assoc, List.cons_append, readFunctionBody.eq_def]
    dsimp only
    rw [if_neg (by simp), if_neg (by simp), if_pos (by simp)]
    split
    · rename_i herror
      cases hblock.symm.trans herror
    · rename_i hok
      cases hblock.symm.trans hok
      exact ih

theorem Callable.readFunction (c : Callable) (rest : List Token) :
    readFunction eof (c.tokens ++ rest) = .ok (c.body.inner?, rest) := by
  have hdrop : (c.tokens ++ rest).dropWhile (fun t => !t.isPunctuation '(') =
      c.parameters.tokens ++ (c.signature ++ (c.body.tokens ++ rest)) := by
    rw [Callable.tokens, List.append_assoc,
      List.dropWhile_append_of_pos (by simpa using c.front_plain)]
    simp [Group.tokens]
  have hblock := c.parameters.readBlock eof (c.signature ++ (c.body.tokens ++ rest))
  rw [Group.tokens, List.cons_append] at hblock
  rw [Php.readFunction, hdrop, Group.tokens, List.cons_append]
  simp only [hblock]
  exact c.isSignature.readFunctionBody eof c.body rest

end

/-! ## Quiet runs -/

/-- Whether a name behind the token makes it a declaration. -/
def declares (t : Token) : Bool := t.isName "namespace" || t.isName "class" || t.opensOther

/-- **A run of tokens that declares nothing** if `next` follows it. `selected` tells whether the
    token before it makes its first one a member. -/
inductive Quiet (next : Token) : Bool → List Token → Prop
  /-- Nothing -/
  | nil : Quiet next false []
  /-- Any token behind `->` or `::` -/
  | member {t : Token} {ts : List Token} : Quiet next t.selectsMember ts → Quiet next true (t :: ts)
  /-- A token that does not declare, or with no name behind it -/
  | plain {t : Token} {ts : List Token} (notFunction : t.isName "function" = false)
      (undeclared : declares t = false ∨ ∀ u ∈ (ts ++ [next]).head?, u.name? = none) :
      Quiet next t.selectsMember ts → Quiet next false (t :: ts)
  /-- A function, a method or a closure -/
  | function {ts : List Token} (k : Keyword "function") (c : Callable) :
      Quiet next false ts → Quiet next false (k.token :: (c.tokens ++ ts))
  /-- An interface, a trait or an enumeration -/
  | other {ts : List Token} (o : OtherDeclaration) :
      Quiet next false ts → Quiet next false (o.tokens ++ ts)

namespace Quiet

variable {next u t : Token} {selected : Bool} {ts us : List Token}

theorem append (h : Quiet u selected ts) (hu : Quiet next false (u :: us)) :
    Quiet next selected (ts ++ u :: us) := by
  induction h with
  | nil => exact hu
  | member _ ih => exact .member ih
  | @plain t ts hf hundeclared _ ih =>
    refine .plain hf (hundeclared.imp_right fun hmark v hv => hmark v ?_) ih
    cases ts <;> exact hv
  | function k c _ ih =>
    rw [List.cons_append, List.append_assoc]
    exact .function k c ih
  | other o _ ih =>
    rw [List.append_assoc]
    exact .other o ih

theorem inert (ht : Inert t) (h : Quiet next false ts) : Quiet next false (t :: ts) :=
  .plain ht.notFunction (.inl (by simp [declares, ht.notNamespace, ht.notClass, ht.notOther]))
    (by rwa [ht.selectsMember])

/-- Brackets around a quiet run. -/
theorem bracket {c d : Char} (o : Mark c) (e : Mark d) (h : Quiet e.token false us)
    (hts : Quiet next false ts) : Quiet next false (o.token :: (us ++ e.token :: ts)) :=
  .inert (.mark o) (h.append (.inert (.mark e) hts))

/-- **A quiet run is stepped over.** -/
theorem readDeclarations {before : List Token} (h : Quiet next selected ts)
    (hb : before.head?.any Token.selectsMember = selected) (eof : Nat) (rest : List Token) :
    ∃ before', before'.head?.any Token.selectsMember = false ∧
      Php.readDeclarations eof before (ts ++ next :: rest) =
        Php.readDeclarations eof before' (next :: rest) := by
  induction h generalizing before with
  | nil => exact ⟨before, hb, rfl⟩
  | @member t ts _ ih =>
    obtain ⟨before', hb', he⟩ := @ih (t :: before) (by simp)
    refine ⟨before', hb', Eq.trans ?_ he⟩
    rw [List.cons_append, Php.readDeclarations.eq_def]
    simp only [hb, if_true]
  | @plain t ts hf hundeclared _ ih =>
    obtain ⟨before', hb', he⟩ := @ih (t :: before) (by simp)
    refine ⟨before', hb', Eq.trans ?_ he⟩
    rw [List.cons_append]
    refine readDeclarations_skip hb hf ?_
    rcases hundeclared with hdeclares | hmark
    · right
      simpa [declares, and_assoc] using hdeclares
    · left
      intro v hv
      refine hmark v ?_
      cases ts <;> exact hv
  | @function ts k c _ ih =>
    obtain ⟨before', hb', he⟩ := @ih [] rfl
    refine ⟨before', hb', Eq.trans ?_ he⟩
    rw [List.cons_append, List.append_assoc]
    exact readDeclarations_function hb k (c.readFunction eof _)
  | @other ts o _ ih =>
    obtain ⟨before', hb', he⟩ := @ih [] rfl
    refine ⟨before', hb', Eq.trans ?_ he⟩
    have hblock := @skipToBlock_tokens eof o (ts ++ next :: rest)
    simp only [OtherDeclaration.tokens, List.append_assoc, List.cons_append, List.nil_append]
    exact readDeclarations_other hb o.word o.name hblock

/-- A quiet run and the semicolon behind it. -/
theorem readDeclarations_stop {before : List Token} {stop : Mark ';'}
    (h : Quiet stop.token false ts) (hb : before.head?.any Token.selectsMember = false)
    (eof : Nat) (rest : List Token) : ∃ before', Fresh before' ∧
      Php.readDeclarations eof before (ts ++ stop.token :: rest) =
        Php.readDeclarations eof before' rest := by
  obtain ⟨before', hb', he⟩ := h.readDeclarations hb eof rest
  have hstop := Inert.mark stop
  refine ⟨stop.token :: before', by simp [Fresh], he.trans ?_⟩
  exact readDeclarations_skip hb' hstop.notFunction
    (.inr ⟨hstop.notNamespace, hstop.notClass, hstop.notOther⟩)

end Quiet

/-! ## Anonymous classes -/

/-- The name of a class or an interface that another one is derived from. -/
structure Supertype extends Interface where
  notReserved : ∀ w ∈ reservedWords, Text.sameLetters text w = false

/-- `new class(…) extends Parent implements I, J { … }` -/
structure AnonymousClass where
  new : Keyword "new"
  keyword : Keyword "class"
  arguments? : Option Group
  parent? : Option (Keyword "extends" × Supertype)
  interfaces? : Option (Keyword "implements" × Listing Supertype)
  opening : Mark '{'
  body : List Token
  nested : WellNested body
  closing : Mark '}'

namespace AnonymousClass

def interfaceTokens (a : AnonymousClass) : List Token :=
  match a.interfaces? with
  | some (k, names) => k.token :: names.tokens fun n => [n.token]
  | none => []

/-- From the arguments to the brace. -/
def heritage (a : AnonymousClass) : List Token :=
  match a.parent? with
  | some (k, n) => k.token :: n.token :: a.interfaceTokens
  | none => a.interfaceTokens

def tokens (a : AnonymousClass) : List Token :=
  a.new.token :: a.keyword.token :: ((a.arguments?.map Group.tokens).getD [] ++
    (a.heritage ++ a.opening.token :: (a.body ++ [a.closing.token])))

/-- The word behind `class`, if it is `extends` or `implements`. -/
def word? (a : AnonymousClass) : Option Name :=
  match a.arguments?, a.parent?, a.interfaces? with
  | none, some (k, _), _ => some ⟨k.text, k.line⟩
  | none, none, some (k, _) => some ⟨k.text, k.line⟩
  | _, _, _ => none

/-- **The class can be stepped over:** its word is not followed by `extends` or `implements`, and
    nothing in its arguments and in its block declares. -/
structure Harmless (a : AnonymousClass) : Prop where
  word : a.word? = none
  arguments : ∀ g ∈ a.arguments?, Quiet g.closing.token false g.inner
  body : Quiet a.closing.token false a.body

end AnonymousClass

theorem Supertype.inert {n : Supertype} (h : Text.sameLetters n.text "enum" = false) :
    Inert n.token :=
  ImportName.inert ⟨n.toName, n.notReserved⟩ h

theorem Supertype.notFunction (n : Supertype) : n.token.isName "function" = false :=
  n.notReserved "function" (by simp [reservedWords])

section
variable {next : Token} {ts : List Token}

/-- Names with commas between them are quiet before a mark. -/
theorem Quiet.listing (names : Listing Supertype) {c : Char} (m : Mark c)
    (h : Quiet next false (m.token :: ts)) :
    Quiet next false (names.tokens (fun n => [n.token]) ++ m.token :: ts) := by
  obtain ⟨n, more⟩ := names
  induction more generalizing n with
  | nil => exact .plain n.notFunction (.inr (by simp)) h
  | cons n' more ih =>
    obtain ⟨comma, n'⟩ := n'
    exact .plain n.notFunction (.inr (by simp)) (.inert (.mark comma) (ih n'))

namespace AnonymousClass

variable {a : AnonymousClass}

theorem quiet_interfaces (h : Quiet next false (a.opening.token :: ts)) :
    Quiet next false (a.interfaceTokens ++ a.opening.token :: ts) := by
  unfold interfaceTokens
  split
  · rename_i k names _
    exact .inert (.keyword k (by decide)) (.listing names a.opening h)
  · exact h

/-- A parent of the name `enum` with interfaces behind it is taken for an enumeration, with the
    block of the class for its own. -/
theorem quiet_enumeration {n : Supertype} (hn : Text.sameLetters n.text "enum" = true)
    {k : Keyword "implements"} {names : Listing Supertype} (hi : a.interfaces? = some (k, names))
    (h : Quiet next false ts) : Quiet next false (n.token :: (a.interfaceTokens ++
      a.opening.token :: (a.body ++ a.closing.token :: ts))) := by
  have hnames : ∀ t ∈ names.tokens (fun n => [n.token]), t.isPunctuation '{' = false := by
    intro t ht
    simp only [Listing.tokens, List.singleton_append, List.mem_cons, List.mem_flatMap] at ht
    rcases ht with rfl | ⟨m, -, rfl | rfl | hm⟩
    · rfl
    · simp
    · rfl
    · cases hm
  let o : OtherDeclaration := ⟨.enum ⟨n.text, n.line, hn⟩, ⟨k.text, k.line⟩,
    names.tokens fun n => [n.token], hnames, a.opening, a.body, a.nested, a.closing⟩
  have htokens : n.token :: (a.interfaceTokens ++
      a.opening.token :: (a.body ++ a.closing.token :: ts)) = o.tokens ++ ts := by
    simp [o, interfaceTokens, hi, OtherDeclaration.tokens, OtherWord.token, Keyword.token,
      Name.token]
  exact htokens ▸ .other o h

/-- What a class is derived from is quiet before its block. -/
theorem quiet_heritage (hbody : Quiet a.closing.token false a.body) (h : Quiet next false ts) :
    Quiet next false (a.heritage ++ a.opening.token :: (a.body ++ a.closing.token :: ts)) := by
  have hinterfaces := quiet_interfaces (hbody.bracket a.opening a.closing h)
  unfold heritage
  split
  · rename_i k n _
    refine .inert (.keyword k (by decide)) ?_
    rw [List.append_eq, List.cons_append]
    cases hn : Text.sameLetters n.text "enum" with
    | false => exact .inert (Supertype.inert hn) hinterfaces
    | true =>
      cases hi : a.interfaces? with
      | none =>
        have hnone : a.interfaceTokens = [] := by rw [interfaceTokens, hi]
        rw [hnone] at hinterfaces ⊢
        exact .plain n.notFunction (.inr (by simp)) hinterfaces
      | some i => exact quiet_enumeration hn hi h
  · exact hinterfaces

/-- A class without arguments and without a word behind `class` is derived from nothing. -/
theorem heritage_eq_nil (hg : a.arguments? = none) (hword : a.word? = none) : a.heritage = [] := by
  unfold word? at hword
  cases hp : a.parent? with
  | some p => simp [hg, hp] at hword
  | none =>
    cases hi : a.interfaces? with
    | some i => simp [hg, hp, hi] at hword
    | none => simp [heritage, interfaceTokens, hp, hi]

/-- **An anonymous class is quiet** if it is harmless, with what stands in it. -/
theorem quiet (h : a.Harmless) (hts : Quiet next false ts) : Quiet next false (a.tokens ++ ts) := by
  have hheritage := quiet_heritage h.body hts
  have hclass : a.keyword.token.isName "function" = false := by simp [Text.sameLetters]
  have hnew : Inert a.new.token := .keyword a.new (by decide)
  cases hg : a.arguments? with
  | none =>
    have hnone := heritage_eq_nil hg h.word
    rw [hnone] at hheritage
    have htokens : a.tokens ++ ts = a.new.token :: a.keyword.token ::
        (a.opening.token :: (a.body ++ a.closing.token :: ts)) := by
      simp [tokens, hg, hnone]
    rw [htokens]
    exact .inert hnew (.plain hclass (.inr (by simp)) hheritage)
  | some g =>
    have htokens : a.tokens ++ ts = a.new.token :: a.keyword.token :: (g.opening.token ::
        (g.inner ++ g.closing.token :: (a.heritage ++
          a.opening.token :: (a.body ++ a.closing.token :: ts)))) := by
      simp [tokens, hg, Group.tokens]
    rw [htokens]
    exact .inert hnew (.plain hclass (.inr (by simp))
      ((h.arguments g hg).bracket g.opening g.closing hheritage))

end AnonymousClass

end

/-! ## Statements -/

/-- A statement with an anonymous class in it: `$x = new class { … };` -/
structure AnonymousStatement where
  front : List Token
  anonymous : AnonymousClass
  behind : List Token
  stop : Mark ';'

namespace AnonymousStatement

def tokens (s : AnonymousStatement) : List Token :=
  s.front ++ (s.anonymous.tokens ++ (s.behind ++ [s.stop.token]))

/-- Nothing in the statement declares. -/
structure Harmless (s : AnonymousStatement) : Prop where
  front : Quiet s.anonymous.new.token false s.front
  anonymous : s.anonymous.Harmless
  behind : Quiet s.stop.token false s.behind

end AnonymousStatement

section
variable (eof : Nat) {before : List Token}

/-- **A harmless statement is stepped over**, up to the start of the next one. -/
theorem readDeclarations_harmless (hb : Fresh before) {s : AnonymousStatement} (h : s.Harmless)
    (rest : List Token) :
    ∃ before', Fresh before' ∧
      readDeclarations eof before (s.tokens ++ rest) = readDeclarations eof before' rest := by
  have hquiet : Quiet s.stop.token false (s.front ++ (s.anonymous.tokens ++ s.behind)) :=
    h.front.append (AnonymousClass.quiet h.anonymous h.behind)
  have htokens : s.tokens ++ rest =
      s.front ++ (s.anonymous.tokens ++ s.behind) ++ s.stop.token :: rest := by
    simp [AnonymousStatement.tokens]
  rw [htokens]
  exact hquiet.readDeclarations_stop hb.selectsMember eof rest

end

/-! ## Classes that are recorded -/

namespace AnonymousClass

/-- The class that is recorded for an anonymous one with a word behind `class`: the word is its
    name, and what is derived from interfaces only has none. -/
def recorded (a : AnonymousClass) (word : Name) (members : List Member) : ClassDecl where
  name := word.text
  isAbstract := false
  parent? := none
  interfaces := match a.parent?, a.interfaces? with
    | some _, some (_, names) => names.items.map fun n => n.text
    | _, _ => []
  constants := members.flatMap Member.constants
  methods := members.filterMap Member.method?
  line := a.keyword.line

end AnonymousClass

section
variable {eof : Nat} {name : String} {before : List Token}

/-- A name that no `implements` stands before is left out of the head. -/
theorem readHead_skip (i : Interface) (rest : List Token) :
    readHead eof name false (i.token :: rest) = readHead eof name false rest := by
  rw [readHead, if_neg (by simp), if_neg (by simp [i.notExtends]),
    if_neg (by simp [i.notImplements])]
  simp

theorem readHead_skips (names : Listing Supertype) (rest : List Token) :
    readHead eof name false (names.tokens (fun n => [n.token]) ++ rest) =
      readHead eof name false rest := by
  obtain ⟨i, more⟩ := names
  induction more generalizing i with
  | nil => exact readHead_skip i.toInterface rest
  | cons m more ih =>
    obtain ⟨comma, j⟩ := m
    have hlisting :
        Listing.tokens ⟨i, (comma, j) :: more⟩ (fun n : Supertype => [n.token]) ++ rest =
        i.token :: comma.token ::
          (Listing.tokens ⟨j, more⟩ (fun n : Supertype => [n.token]) ++ rest) := by
      simp [Listing.tokens]
    rw [hlisting, readHead_skip i.toInterface, readHead_comma, ih]

theorem readHead_supertypes (names : Listing Supertype) (rest : List Token) :
    readHead eof name true (names.tokens (fun n => [n.token]) ++ rest) =
      (readHead eof name true rest).map fun (head, rest) =>
        ({ head with interfaces := names.items.map (fun n => n.text) ++ head.interfaces },
          rest) := by
  have h := @readHead_interfaces eof name
    ⟨names.first.toInterface, names.more.map fun (m, n) => (m, n.toInterface)⟩ rest
  simpa [Listing.tokens, Listing.items, List.flatMap_map, Function.comp_def] using h

theorem readHead_brace (opening : Mark '{') (implementing : Bool) (rest : List Token) :
    readHead eof name implementing (opening.token :: rest) = .ok ({}, rest) := by
  rw [readHead, if_pos (by simp)]
  simp

theorem readHead_implements (k : Keyword "implements") (rest : List Token) :
    readHead eof name false (k.token :: rest) = readHead eof name true rest := by
  rw [readHead, if_neg (by simp), if_neg (by simp [Text.sameLetters]),
    if_pos (by simp [Text.sameLetters])]
  simp

theorem readHead_interfaceTokens (a : AnonymousClass) (rest : List Token) :
    readHead eof name false (a.interfaceTokens ++ a.opening.token :: rest) =
      .ok ({ interfaces := match a.interfaces? with
        | some (_, names) => names.items.map fun n => n.text
        | none => [] }, rest) := by
  unfold AnonymousClass.interfaceTokens
  cases a.interfaces? with
  | none => exact readHead_brace a.opening false rest
  | some i =>
    obtain ⟨k, names⟩ := i
    dsimp only
    rw [List.cons_append, readHead_implements, readHead_supertypes, readHead_brace]
    simp [Except.map]

/-- **An anonymous class with a word behind `class` is read as a class of that name.** -/
theorem AnonymousClass.readClass_recorded (eof : Nat) {a : AnonymousClass} {word : Name}
    (hword : a.word? = some word) {members : List Member}
    (hbody : a.body = members.flatMap Member.tokens) (rest : List Token) :
    ∃ ts, a.tokens ++ rest = a.new.token :: a.keyword.token :: word.token :: ts ∧
      readClass eof false a.keyword.line (word.token :: ts) =
        .ok (a.recorded word members, rest) := by
  have hread : ∀ {ts : List Token} {interfaces : List String},
      readHead eof word.text false ts =
        .ok ({ interfaces }, a.body ++ a.closing.token :: rest) →
      readClass eof false a.keyword.line (word.token :: ts) =
        .ok ({
          name := word.text, isAbstract := false, parent? := none, interfaces
          constants := members.flatMap Member.constants
          methods := members.filterMap Member.method?, line := a.keyword.line }, rest) := by
    intro ts interfaces hhead
    rw [readClass, expectName_name]
    simp only [hhead, hbody, readMembers_tokens]
    rfl
  unfold word? at hword
  split at hword
  · rename_i k n hg hp
    cases hword
    refine ⟨n.token :: (a.interfaceTokens ++
      a.opening.token :: (a.body ++ a.closing.token :: rest)), ?_, ?_⟩
    · simp [tokens, heritage, hg, hp, Keyword.token, Name.token]
    · refine (hread ((readHead_skip n.toInterface _).trans (readHead_interfaceTokens a _))).trans ?_
      rw [recorded, hp]
      cases a.interfaces? <;> rfl
  · rename_i k names hg hp hi
    cases hword
    refine ⟨names.tokens (fun n => [n.token]) ++
      a.opening.token :: (a.body ++ a.closing.token :: rest), ?_, ?_⟩
    · simp [tokens, heritage, interfaceTokens, hg, hp, hi, Keyword.token, Name.token]
    · refine (hread ((readHead_skips names _).trans (readHead_brace a.opening false _))).trans ?_
      rw [recorded, hp, hi]
  · cases hword

end

/-! ## Files -/

/-- What stands at the top level of a file with anonymous classes. -/
inductive Piece
  | declaration (d : TopLevel)
  | anonymous (s : AnonymousStatement)

namespace Piece

def tokens : Piece → List Token
  | declaration d => d.tokens
  | anonymous s => s.tokens

def declaration? : Piece → Option TopLevel
  | declaration d => some d
  | anonymous _ => none

/-- **The classes that are recorded for a piece:** the one that it declares, none for a harmless
    anonymous class, and one for an anonymous class with a word behind `class`. -/
inductive Gives : Piece → List ClassDecl → Prop
  | declaration (d : TopLevel) : Gives (declaration d) d.class?.toList
  | harmless {s : AnonymousStatement} (h : s.Harmless) : Gives (anonymous s) []
  | word {s : AnonymousStatement} {word : Name} {members : List Member}
      (front : Quiet s.anonymous.new.token false s.front)
      (hword : s.anonymous.word? = some word)
      (body : s.anonymous.body = members.flatMap Member.tokens)
      (behind : Quiet s.stop.token false s.behind) :
      Gives (anonymous s) [s.anonymous.recorded word members]

end Piece

section
variable (eof : Nat) {before : List Token}

theorem readDeclarations_piece (hb : Fresh before) {p : Piece} {cs : List ClassDecl}
    (h : p.Gives cs) (rest : List Token) :
    ∃ before', Fresh before' ∧ readDeclarations eof before (p.tokens ++ rest) =
      (readDeclarations eof before' rest).map (cs.map .classDecl ++ ·) := by
  cases h with
  | declaration d => exact readDeclarations_item hb d rest
  | @harmless s h =>
    obtain ⟨before', hb', he⟩ := readDeclarations_harmless eof hb h rest
    refine ⟨before', hb', he.trans ?_⟩
    cases readDeclarations eof before' rest <;> rfl
  | @word s word members front hword body behind =>
    have hnew : Inert s.anonymous.new.token := .keyword s.anonymous.new (by decide)
    obtain ⟨ts, htokens, hclass⟩ := AnonymousClass.readClass_recorded eof hword body
      (s.behind ++ s.stop.token :: rest)
    have hall : Piece.tokens (.anonymous s) ++ rest = s.front ++ s.anonymous.new.token ::
        s.anonymous.keyword.token :: word.token :: ts := by
      rw [← htokens]
      simp [Piece.tokens, AnonymousStatement.tokens]
    obtain ⟨before₁, hb₁, hfront⟩ := front.readDeclarations hb.selectsMember
      eof (s.anonymous.keyword.token :: word.token :: ts)
    have hconcrete : isAbstractAfter (s.anonymous.new.token :: before₁) = false := by
      simp [isAbstractAfter, Text.sameLetters]
    obtain ⟨before', hb', hbehind⟩ := @Quiet.readDeclarations_stop _ [] _ behind rfl eof rest
    refine ⟨before', hb', ?_⟩
    rw [hall, hfront, readDeclarations_skip hb₁ hnew.notFunction
      (.inr ⟨hnew.notNamespace, hnew.notClass, hnew.notOther⟩),
      readDeclarations_class (by simp) s.anonymous.keyword word (by rw [hconcrete]; exact hclass),
      hbehind]
    rfl

theorem readDeclarations_pieces (hb : Fresh before) {pieces : List Piece}
    {css : List (List ClassDecl)} (h : List.Forall₂ Piece.Gives pieces css) :
    readDeclarations eof before (pieces.flatMap Piece.tokens) =
      .ok (css.flatten.map .classDecl) := by
  induction h generalizing before with
  | nil => simp [readDeclarations]
  | @cons p cs pieces css hp _ ih =>
    obtain ⟨before', hb', he⟩ := readDeclarations_piece eof hb hp
      (pieces.flatMap Piece.tokens)
    rw [List.flatMap_cons, he, ih hb', List.flatten_cons, List.map_append]
    rfl

end

/-- A file of declarations, and statements with anonymous classes between them. -/
structure WithAnonymous where
  nameSpace? : Option NamespaceStatement
  pieces : List Piece

namespace WithAnonymous

def tokens (f : WithAnonymous) : List Token :=
  (f.nameSpace?.map NamespaceStatement.tokens).getD [] ++ f.pieces.flatMap Piece.tokens

/-- The file with its declarations only. -/
def named (f : WithAnonymous) : File where
  nameSpace? := f.nameSpace?
  items := f.pieces.filterMap Piece.declaration?

/-- No statement of the file declares. -/
def Harmless (f : WithAnonymous) : Prop := ∀ s, .anonymous s ∈ f.pieces → s.Harmless

theorem ofTokens_gives (f : WithAnonymous) {css : List (List ClassDecl)}
    (h : List.Forall₂ Piece.Gives f.pieces css) :
    ClassFile.ofTokens f.tokens = .ok ⟨f.named.classFile.nameSpace?, css.flatten⟩ := by
  obtain ⟨nameSpace?, pieces⟩ := f
  rw [ClassFile.ofTokens]
  cases nameSpace? with
  | none =>
    have hnil : Fresh [] := by simp [Fresh]
    simp only [tokens, Option.map_none, Option.getD_none, List.nil_append,
      readDeclarations_pieces _ hnil h]
    exact congrArg Except.ok (ofDeclarations_append [] _)
  | some n =>
    simp only [tokens, Option.map_some, Option.getD_some]
    rw [readDeclarations_nameSpace, readDeclarations_pieces _ (by simp [Fresh]) h]
    exact congrArg Except.ok (ofDeclarations_append [_] _)

/-- **Anonymous classes are not recorded** if they are harmless: a file of declarations, and
    statements with such classes between them, is read and gives its named classes and no others.

    With a word behind `class`, and a block of members, an anonymous class is recorded under this
    word. For any file of harmless and such ones it is told what is recorded. -/
theorem parse_named (f : WithAnonymous) :
    (f.Harmless → ClassFile.ofTokens f.tokens = .ok f.named.classFile) ∧
      ∀ css, List.Forall₂ Piece.Gives f.pieces css →
        ClassFile.ofTokens f.tokens = .ok ⟨f.named.classFile.nameSpace?, css.flatten⟩ := by
  refine ⟨fun h => ?_, fun css hcss => f.ofTokens_gives hcss⟩
  have hgives : List.Forall₂ Piece.Gives f.pieces
      (f.pieces.map fun p => (p.declaration?.bind TopLevel.class?).toList) := by
    rw [List.forall₂_map_right_iff, List.forall₂_same]
    intro p hp
    cases p with
    | declaration d => exact .declaration d
    | anonymous s => exact .harmless (h s hp)
  have hclasses : (f.pieces.map fun p => (p.declaration?.bind TopLevel.class?).toList).flatten =
      f.named.classFile.classes := by
    show _ = (f.pieces.filterMap Piece.declaration?).filterMap TopLevel.class?
    rw [← List.flatMap_def, List.filterMap_filterMap, List.filterMap_eq_flatMap_toList]
  rw [f.ofTokens_gives hgives, hclasses]

end WithAnonymous

/-- `return new class extends P { };` -/
def hiddenBody : List Token :=
  [⟨.name "return", 2⟩, ⟨.name "new", 2⟩, ⟨.name "class", 2⟩, ⟨.name "extends", 2⟩, ⟨.name "P", 2⟩,
    ⟨.punctuation '{', 2⟩, ⟨.punctuation '}', 2⟩, ⟨.punctuation ';', 2⟩]

theorem hiddenBody_nested : WellNested hiddenBody :=
  .plain rfl rfl trivial (.plain rfl rfl trivial (.plain rfl rfl trivial (.plain rfl rfl trivial
    (.plain rfl rfl trivial (@Nested.block _ ⟨.punctuation '{', 2⟩ [] ⟨.punctuation '}', 2⟩ _ .brace
      rfl rfl .nil (.plain rfl rfl trivial .nil))))))

/-- `function f($x): I { return new class extends P { }; }`, behind its word -/
def hiddenMethod : Callable where
  front := [⟨.name "f", 2⟩]
  front_plain := by decide
  parameters := ⟨⟨2⟩, [⟨.variable "x", 2⟩], .plain rfl rfl trivial .nil, ⟨2⟩⟩
  signature := [⟨.punctuation ':', 2⟩, ⟨.name "I", 2⟩]
  isSignature := .plain rfl rfl rfl (.plain rfl rfl rfl .nil)
  body := .block ⟨2⟩ hiddenBody hiddenBody_nested ⟨2⟩

theorem hiddenMethod_nested : WellNested hiddenMethod.tokens :=
  .plain rfl rfl trivial (@Nested.block _ ⟨.punctuation '(', 2⟩ [⟨.variable "x", 2⟩]
    ⟨.punctuation ')', 2⟩ _ .parenthesis rfl rfl (.plain rfl rfl trivial .nil)
    (.plain rfl rfl trivial (.plain rfl rfl trivial (@Nested.block _ ⟨.punctuation '{', 2⟩
      hiddenBody ⟨.punctuation '}', 2⟩ _ .brace rfl rfl hiddenBody_nested .nil))))

/-- `new class(1) extends Enum implements I, J { const HIDDEN = 1; function f($x): I { … } }` -/
def hiddenClass : AnonymousClass where
  new := .plain _ 1
  keyword := .plain _ 1
  arguments? := some ⟨⟨1⟩, [⟨.number "1", 1⟩], .plain rfl rfl trivial .nil, ⟨1⟩⟩
  parent? := some (.plain _ 1, ⟨⟨⟨"Enum", 1⟩, by decide, by decide⟩, by decide⟩)
  interfaces? := some (.plain _ 1, ⟨⟨⟨⟨"I", 1⟩, by decide, by decide⟩, by decide⟩,
    [(⟨1⟩, ⟨⟨⟨"J", 1⟩, by decide, by decide⟩, by decide⟩)]⟩)
  opening := ⟨1⟩
  body := ⟨.name "const", 2⟩ :: ⟨.name "HIDDEN", 2⟩ :: ⟨.punctuation '=', 2⟩ ::
    ⟨.number "1", 2⟩ :: ⟨.punctuation ';', 2⟩ ::
    (Keyword.plain "function" 2).token :: (hiddenMethod.tokens ++ [])
  nested := .plain rfl rfl trivial (.plain rfl rfl trivial (.plain rfl rfl trivial
    (.plain rfl rfl trivial (.plain rfl rfl trivial (.plain rfl rfl trivial
      (hiddenMethod_nested.append .nil))))))
  closing := ⟨3⟩

theorem hiddenClass_harmless : hiddenClass.Harmless where
  word := rfl
  arguments g hg := by
    cases hg
    exact .plain rfl (.inl (by decide)) .nil
  body := .plain (by decide) (.inl (by decide)) (.plain (by decide) (.inl (by decide))
    (.plain rfl (.inl (by decide)) (.plain rfl (.inl (by decide)) (.plain rfl (.inl (by decide))
      (.function (.plain _ 2) hiddenMethod .nil)))))

/-- `final class Ad { }` -/
def namedClass : Class where
  modifiers := [.isFinal (.plain _ 4)]
  atMostTwo := by decide
  keyword := .plain _ 4
  name := ⟨"Ad", 4⟩
  parent? := none
  interfaces? := none
  opening := ⟨4⟩
  members := []
  closing := ⟨4⟩

/-- `$ad = new class(1) … { … }; final class Ad { }` -/
def hidingFile : WithAnonymous where
  nameSpace? := none
  pieces := [.anonymous ⟨[⟨.variable "ad", 1⟩, ⟨.punctuation '=', 1⟩], hiddenClass, [], ⟨3⟩⟩,
    .declaration (.classes namedClass)]

/-- `private const string A = 'a';` -/
def exposedConstant : Member where
  lead := ⟨none, [.visible .privateMember (.plain _ 1)], by decide⟩
  item := .constants {
    keyword := .plain _ 1
    type := [⟨.name "string", 1⟩]
    type_parts := by decide
    constants := {
      first := {
        name := ⟨"A", 1⟩
        equals := ⟨1⟩
        value := [⟨.string "a", 1⟩]
        value_ne := by decide
        value_nested := .plain rfl rfl (by decide) .nil }
      more := [] }
    stop := ⟨1⟩ }

/-- `new class extends P { private const string A = 'a'; }` -/
def exposedClass : AnonymousClass where
  new := .plain _ 1
  keyword := .plain _ 1
  arguments? := none
  parent? := some (.plain _ 1, ⟨⟨⟨"P", 1⟩, by decide, by decide⟩, by decide⟩)
  interfaces? := none
  opening := ⟨1⟩
  body := exposedConstant.tokens
  nested := .plain rfl rfl trivial (.plain rfl rfl trivial (.plain rfl rfl trivial
    (.plain rfl rfl trivial (.plain rfl rfl trivial (.plain rfl rfl trivial
      (.plain rfl rfl trivial .nil))))))
  closing := ⟨1⟩

/-- `new class extends P { … }; final class Ad { }` -/
def exposingFile : WithAnonymous where
  nameSpace? := none
  pieces := [.anonymous ⟨[], exposedClass, [], ⟨1⟩⟩, .declaration (.classes namedClass)]

theorem WithAnonymous.parse_named_hidingFile :
    (ClassFile.ofTokens hidingFile.tokens).map (·.classes.map ClassDecl.name) = .ok ["Ad"] ∧
      (ClassFile.ofTokens exposingFile.tokens).map (·.classes.map ClassDecl.name) =
        .ok ["extends", "Ad"] := by
  obtain ⟨hnamed, -⟩ := hidingFile.parse_named
  obtain ⟨-, hgives⟩ := exposingFile.parse_named
  have hharmless : hidingFile.Harmless := by
    intro s hs
    rcases List.mem_cons.1 hs with hs | hs
    · cases hs
      exact ⟨.plain rfl (.inl (by decide)) (.plain rfl (.inl (by decide)) .nil),
        hiddenClass_harmless, .nil⟩
    · simp at hs
  rw [hnamed hharmless, hgives [[exposedClass.recorded ⟨"extends", 1⟩ [exposedConstant]],
    [namedClass.decl]]
    (.cons (.word .nil rfl rfl .nil) (.cons (.declaration (.classes namedClass)) .nil))]
  exact ⟨rfl, rfl⟩

end PhpSharp.Php.Written
