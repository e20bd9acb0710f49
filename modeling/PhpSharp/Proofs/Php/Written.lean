/-
  Class files as they are written: syntax trees that keep every token with its line.

  A tree holds the words, marks and runs of tokens that a file consists of; keywords are in any
  letter case, and runs that class files do not look into (parameters, bodies, values) are any
  well-nested tokens.

  * `tokens` prints a tree;
  * `Class.decl` and `File.classFile` are what a tree declares.
-/
import PhpSharp.Php.ClassFile.Reader
import PhpSharp.Proofs.Php.Nesting

namespace PhpSharp.Php.Written

/-! ## Words and marks -/

/-- A keyword, in any letter case. -/
structure Keyword (word : String) where
  text : String
  line : Nat
  spells : Text.sameLetters text word = true

/-- The keyword in the letters that it is known by. -/
def Keyword.plain (word : String) (line : Nat) : Keyword word where
  text := word
  line := line
  spells := beq_self_eq_true _

/-- A name. -/
structure Name where
  text : String
  line : Nat

/-- A character that is a token of its own. -/
structure Mark (c : Char) where
  line : Nat

def Keyword.token {word : String} (k : Keyword word) : Token := ⟨.name k.text, k.line⟩

def Name.token (n : Name) : Token := ⟨.name n.text, n.line⟩

def Mark.token {c : Char} (m : Mark c) : Token := ⟨.punctuation c, m.line⟩

section
variable {word : String} (k : Keyword word) (n : Name) {c : Char} (m : Mark c)

/-- Texts that differ only in letter case are the same words. -/
theorem sameLetters_congr {s t : String} (h : Text.sameLetters s t = true) (u : String) :
    Text.sameLetters s u = Text.sameLetters t u := by
  have h' := eq_of_beq h
  simp only [Text.sameLetters, h']

@[simp] theorem Keyword.isName_token (w : String) :
    k.token.isName w = Text.sameLetters word w := sameLetters_congr k.spells w

@[simp] theorem Keyword.name?_token : k.token.name? = some k.text := rfl
@[simp] theorem Keyword.isPunctuation_token (d : Char) : k.token.isPunctuation d = false := rfl
@[simp] theorem Keyword.opens?_token : k.token.opens? = none := rfl
@[simp] theorem Keyword.selectsMember_token : k.token.selectsMember = false := rfl

@[simp] theorem Name.name?_token : n.token.name? = some n.text := rfl
@[simp] theorem Name.isName_token (w : String) : n.token.isName w = Text.sameLetters n.text w := rfl
@[simp] theorem Name.isPunctuation_token (d : Char) : n.token.isPunctuation d = false := rfl
@[simp] theorem Name.opens?_token : n.token.opens? = none := rfl
@[simp] theorem Name.selectsMember_token : n.token.selectsMember = false := rfl

@[simp] theorem Mark.name?_token : m.token.name? = none := rfl
@[simp] theorem Mark.isName_token (w : String) : m.token.isName w = false := rfl
@[simp] theorem Mark.opens?_token : m.token.opens? = Bracket.ofOpening? c := rfl
@[simp] theorem Mark.closes?_token : m.token.closes? = Bracket.ofClosing? c := rfl
@[simp] theorem Mark.selectsMember_token : m.token.selectsMember = false := rfl

@[simp] theorem Mark.isPunctuation_token (d : Char) : m.token.isPunctuation d = decide (c = d) := by
  by_cases h : c = d <;> simp [Token.isPunctuation, Mark.token, h]

end

/-- One or more things with commas between them. -/
structure Listing (α : Type) where
  first : α
  more : List (Mark ',' × α) := []

def Listing.items {α : Type} (l : Listing α) : List α := l.first :: l.more.map Prod.snd

def Listing.tokens {α : Type} (l : Listing α) (print : α → List Token) : List Token :=
  print l.first ++ l.more.flatMap fun (comma, a) => comma.token :: print a

/-! ## Constants -/

/-- Whether a token can be part of the type of a constant. -/
def isTypePart (t : Token) : Bool :=
  t.name?.isSome || t.isPunctuation '?' || t.isPunctuation '|'

/-- `NAME = value` -/
structure Constant where
  name : Name
  equals : Mark '='
  value : List Token
  value_ne : value ≠ []
  value_nested : Nested (fun t => t.isPunctuation ',' = false ∧ t.isPunctuation ';' = false) value

def Constant.tokens (c : Constant) : List Token := c.name.token :: c.equals.token :: c.value

def Constant.decl (c : Constant) : ConstantDecl := ⟨c.name.text, c.value, c.name.line⟩

/-- `const type NAME = value, NAME = value;` -/
structure ConstantStatement where
  keyword : Keyword "const"
  type : List Token
  type_parts : ∀ t ∈ type, isTypePart t = true
  constants : Listing Constant
  stop : Mark ';'

def ConstantStatement.tokens (s : ConstantStatement) : List Token :=
  s.keyword.token :: (s.type ++ (s.constants.tokens Constant.tokens ++ [s.stop.token]))

/-! ## Functions -/

/-- What a declaration ends with. -/
inductive Body
  /-- `{ … }` -/
  | block (opening : Mark '{') (body : List Token) (nested : WellNested body) (closing : Mark '}')
  /-- `;` -/
  | none (stop : Mark ';')

def Body.tokens : Body → List Token
  | block opening body _ closing => opening.token :: (body ++ [closing.token])
  | none stop => [stop.token]

/-- The tokens between the braces. -/
def Body.inner? : Body → Option (List Token)
  | block _ body _ _ => some body
  | none _ => .none

/-- `function &name(parameters): type { … }` -/
structure Function where
  keyword : Keyword "function"
  reference? : Option (Mark '&')
  name : Name
  opening : Mark '('
  parameters : List Token
  parameters_nested : WellNested parameters
  closing : Mark ')'
  /-- The type of the result, with its colon. -/
  result : List Token
  result_plain : ∀ t ∈ result, t.isPunctuation '{' = false ∧ t.isPunctuation '(' = false ∧
    t.isPunctuation ';' = false
  body : Body

/-- From the parameters on. -/
def Function.tail (f : Function) : List Token :=
  f.opening.token :: (f.parameters ++ f.closing.token :: (f.result ++ f.body.tokens))

def Function.tokens (f : Function) : List Token :=
  f.keyword.token :: ((f.reference?.map Mark.token).toList ++ f.name.token :: f.tail)

/-! ## Members -/

/-- The word for a visibility. -/
def visibilityWord : Visibility → String
  | .publicMember => "public"
  | .protectedMember => "protected"
  | .privateMember => "private"

/-- A word before a member. -/
inductive ModifierWord
  | visible (v : Visibility) (k : Keyword (visibilityWord v))
  | isStatic (k : Keyword "static")
  | isAbstract (k : Keyword "abstract")
  | isFinal (k : Keyword "final")
  | isVar (k : Keyword "var")
  | isReadonly (k : Keyword "readonly")

namespace ModifierWord

def token : ModifierWord → Token
  | visible _ k => k.token
  | isStatic k | isAbstract k | isFinal k | isVar k | isReadonly k => k.token

def visibility? : ModifierWord → Option Visibility
  | visible v _ => some v
  | _ => none

def staticWord : ModifierWord → Bool
  | isStatic _ => true
  | _ => false

end ModifierWord

/-- A documentation comment. -/
structure Doc where
  text : String
  line : Nat

def Doc.token (d : Doc) : Token := ⟨.docComment d.text, d.line⟩

/-- What stands before a member: a comment, and modifiers in any order. -/
structure Lead where
  doc? : Option Doc
  modifiers : List ModifierWord
  oneVisibility : (modifiers.filterMap ModifierWord.visibility?).length ≤ 1

namespace Lead

def tokens (l : Lead) : List Token :=
  (l.doc?.map Doc.token).toList ++ l.modifiers.map ModifierWord.token

/-- The visibility among the modifiers. -/
def visibility (l : Lead) : Visibility :=
  ((l.modifiers.filterMap ModifierWord.visibility?).head?).getD .publicMember

end Lead

/-- Whether a token starts another member than a property, or belongs before one. -/
def startsMember (t : Token) : Bool :=
  (match t.kind with
    | .docComment _ => true
    | _ => false) ||
  ["public", "protected", "private", "static", "abstract", "final", "var", "readonly", "const",
    "function", "use"].any t.isName

/-- `= value` -/
structure Initializer where
  equals : Mark '='
  value : List Token
  nested : Nested (fun t => t.isPunctuation ';' = false) value

def Initializer.tokens (i : Initializer) : List Token := i.equals.token :: i.value

/-- `type $variable = value;` -/
structure Property where
  type : List Token
  type_nested : Nested (fun t => t.isPunctuation ';' = false) type
  type_head : ∀ t ∈ type.head?, startsMember t = false
  name : String
  /-- The line of the variable. -/
  line : Nat
  value? : Option Initializer
  stop : Mark ';'

def Property.tokens (p : Property) : List Token :=
  p.type ++ ⟨.variable p.name, p.line⟩ ::
    ((p.value?.map Initializer.tokens).getD [] ++ [p.stop.token])

/-- `use Trait, Trait;` or `use Trait { … }` -/
structure TraitUse where
  keyword : Keyword "use"
  traits : Listing Name
  body : Body

def TraitUse.tokens (u : TraitUse) : List Token :=
  u.keyword.token :: (u.traits.tokens (fun n => [n.token]) ++ u.body.tokens)

/-- A member without what stands before it. -/
inductive Item
  | constants (s : ConstantStatement)
  | method (f : Function)
  | property (p : Property)
  | traits (u : TraitUse)

def Item.tokens : Item → List Token
  | constants s => s.tokens
  | method f => f.tokens
  | property p => p.tokens
  | traits u => u.tokens

/-- A member of a class. -/
structure Member where
  lead : Lead
  item : Item

namespace Member

def tokens (m : Member) : List Token := m.lead.tokens ++ m.item.tokens

/-- The constants that a member declares. -/
def constants (m : Member) : List ConstantDecl :=
  match m.item with
  | .constants s => s.constants.items.map Constant.decl
  | _ => []

/-- The method that a member declares. -/
def method? (m : Member) : Option MethodDecl :=
  match m.item with
  | .method f => some {
      name := f.name.text, line := f.name.line, body? := f.body.inner?
      doc? := m.lead.doc?.map Doc.text, visibility := m.lead.visibility
      isStatic := m.lead.modifiers.any ModifierWord.staticWord }
  | _ => none

end Member

/-! ## Classes -/

/-- A word before `class`. -/
inductive ClassModifier
  | isAbstract (k : Keyword "abstract")
  | isFinal (k : Keyword "final")
  | isReadonly (k : Keyword "readonly")

namespace ClassModifier

def token : ClassModifier → Token
  | isAbstract k => k.token
  | isFinal k => k.token
  | isReadonly k => k.token

def abstractWord : ClassModifier → Bool
  | isAbstract _ => true
  | _ => false

end ClassModifier

/-- The name of an interface, which is no word of a class's head. -/
structure Interface extends Name where
  notExtends : Text.sameLetters text "extends" = false
  notImplements : Text.sameLetters text "implements" = false

/-- `abstract class Name extends Parent implements I, J { … }` -/
structure Class where
  modifiers : List ClassModifier
  /-- A class is not both abstract and final. -/
  atMostTwo : modifiers.length ≤ 2
  keyword : Keyword "class"
  name : Name
  parent? : Option (Keyword "extends" × Name)
  interfaces? : Option (Keyword "implements" × Listing Interface)
  opening : Mark '{'
  members : List Member
  closing : Mark '}'

namespace Class

/-- From the name to the brace. -/
def head (c : Class) : List Token :=
  (match c.parent? with
    | some (k, n) => [k.token, n.token]
    | none => []) ++
  (match c.interfaces? with
    | some (k, names) => k.token :: names.tokens fun n => [n.token]
    | none => []) ++ [c.opening.token]

def tokens (c : Class) : List Token :=
  c.modifiers.map ClassModifier.token ++ c.keyword.token :: c.name.token ::
    (c.head ++ (c.members.flatMap Member.tokens ++ [c.closing.token]))

/-- What a class declares. -/
def decl (c : Class) : ClassDecl where
  name := c.name.text
  isAbstract := c.modifiers.any ClassModifier.abstractWord
  parent? := c.parent?.map fun (_, n) => n.text
  interfaces := match c.interfaces? with
    | some (_, names) => names.items.map fun n => n.text
    | none => []
  constants := c.members.flatMap Member.constants
  methods := c.members.filterMap Member.method?
  line := c.keyword.line

end Class

/-! ## Files -/

/-- A word for a declaration with a block that is no class. -/
inductive OtherWord
  | interface (k : Keyword "interface")
  | trait (k : Keyword "trait")
  | enum (k : Keyword "enum")

def OtherWord.token : OtherWord → Token
  | interface k => k.token
  | trait k => k.token
  | enum k => k.token

/-- An interface, a trait or an enumeration. -/
structure OtherDeclaration where
  word : OtherWord
  name : Name
  /-- What stands between the name and the brace. -/
  head : List Token
  head_plain : ∀ t ∈ head, t.isPunctuation '{' = false
  opening : Mark '{'
  body : List Token
  body_nested : WellNested body
  closing : Mark '}'

def OtherDeclaration.tokens (o : OtherDeclaration) : List Token :=
  o.word.token :: o.name.token :: (o.head ++ o.opening.token :: (o.body ++ [o.closing.token]))

/-- `use Name;` -/
structure Import where
  keyword : Keyword "use"
  name : Name
  notFunction : Text.sameLetters name.text "function" = false
  stop : Mark ';'

def Import.tokens (i : Import) : List Token := [i.keyword.token, i.name.token, i.stop.token]

/-- What stands at the top level of a file. -/
inductive TopLevel
  | classes (c : Class)
  | other (o : OtherDeclaration)
  | function (f : Function)
  | imports (i : Import)

namespace TopLevel

def tokens : TopLevel → List Token
  | classes c => c.tokens
  | other o => o.tokens
  | function f => f.tokens
  | imports i => i.tokens

def class? : TopLevel → Option ClassDecl
  | classes c => some c.decl
  | _ => none

end TopLevel

/-- `namespace Name;` -/
structure NamespaceStatement where
  keyword : Keyword "namespace"
  name : Name
  stop : Mark ';'

def NamespaceStatement.tokens (n : NamespaceStatement) : List Token :=
  [n.keyword.token, n.name.token, n.stop.token]

/-- A file. -/
structure File where
  nameSpace? : Option NamespaceStatement
  items : List TopLevel

namespace File

def tokens (f : File) : List Token :=
  (f.nameSpace?.map NamespaceStatement.tokens).getD [] ++ f.items.flatMap TopLevel.tokens

/-- What a file declares. Its namespace is told without a backslash in front. -/
def classFile (f : File) : ClassFile where
  nameSpace? := f.nameSpace?.map fun n =>
    String.ofList (n.name.text.toList.dropWhile (· == '\\'))
  classes := f.items.filterMap TopLevel.class?

end File

end PhpSharp.Php.Written
