/-
  Files with import statements.

  * `ImportStatement` is every form of `use` at the top level: names with or without an alias,
    imports of functions and constants, and groups;
  * `WithImports.parse_withoutImports`: a file of imports and classes gives what it gives without
    the imports, if no import says `function` and none gives an alias to a class of the name
    `enum` (`harmless`). The top level takes the first word for the start of a function and the
    second for the start of an enumeration, and steps over the code behind it up to the end of a
    block.
-/
import PhpSharp.Proofs.Php.RoundTrip

namespace PhpSharp.Php.Written

/-! ## Statements -/

/-- The words that no import can have for a name. -/
def reservedWords : List String := ["function", "namespace", "class", "interface", "trait"]

/-- A name that can be imported. -/
structure ImportName extends Name where
  notReserved : ∀ w ∈ reservedWords, Text.sameLetters text w = false

/-- `Name` or `Name as Alias` -/
structure ImportClause where
  name : ImportName
  alias? : Option (Keyword "as" × ImportName)

/-- What is imported if it is no class. -/
inductive ImportKind
  | function (k : Keyword "function")
  | const (k : Keyword "const")

/-- What an import statement names. -/
inductive ImportBody
  /-- `Name, Name as Alias` -/
  | names (clauses : Listing ImportClause)
  /-- `Prefix\{Name, const NAME as ALIAS,}` -/
  | group (start : ImportName) (opening : Mark '{')
      (clauses : Listing (Option ImportKind × ImportClause)) (trailing? : Option (Mark ','))
      (closing : Mark '}')

/-- `use …;`, `use function …;` or `use const …;` -/
structure ImportStatement where
  keyword : Keyword "use"
  kind? : Option ImportKind
  body : ImportBody
  stop : Mark ';'

def ImportKind.token : ImportKind → Token
  | function k => k.token
  | const k => k.token

def ImportClause.tokens (c : ImportClause) : List Token :=
  c.name.token :: match c.alias? with
    | some (k, a) => [k.token, a.token]
    | none => []

/-- A clause of a group, behind its own kind. -/
def groupTokens (c : Option ImportKind × ImportClause) : List Token :=
  (c.1.map ImportKind.token).toList ++ c.2.tokens

def ImportBody.tokens : ImportBody → List Token
  | names clauses => clauses.tokens ImportClause.tokens
  | group start opening clauses trailing? closing =>
    start.token :: opening.token :: (clauses.tokens groupTokens ++
      ((trailing?.map Mark.token).toList ++ [closing.token]))

def ImportStatement.tokens (i : ImportStatement) : List Token :=
  i.keyword.token :: ((i.kind?.map ImportKind.token).toList ++ (i.body.tokens ++ [i.stop.token]))

/-! ## What the top level steps over -/

/-- No import of functions. -/
def ImportKind.harmless : ImportKind → Bool
  | function _ => false
  | const _ => true

/-- No alias of a class whose name is `enum`. -/
def ImportClause.harmless (c : ImportClause) : Bool :=
  c.alias?.isNone || !Text.sameLetters c.name.text "enum"

def ImportBody.harmless : ImportBody → Bool
  | names clauses => clauses.items.all ImportClause.harmless
  | group _ _ clauses _ _ =>
    clauses.items.all fun c => c.1.all ImportKind.harmless && c.2.harmless

/-- The statement holds no word that the top level takes for the start of a declaration. -/
def ImportStatement.harmless (i : ImportStatement) : Bool :=
  i.kind?.all ImportKind.harmless && i.body.harmless

/-- A token that the top level steps over whatever stands behind it. -/
structure Inert (t : Token) : Prop where
  selectsMember : t.selectsMember = false
  notFunction : t.isName "function" = false
  notNamespace : t.isName "namespace" = false
  notClass : t.isName "class" = false
  notOther : t.opensOther = false

/-- Tokens that the top level steps over one by one if no name stands behind them. -/
structure SteppedOver (ts : List Token) : Prop where
  selectsMember : ∀ t ∈ ts, t.selectsMember = false
  skip : ∀ eof before rest, before.head?.any Token.selectsMember = false →
    (∀ next ∈ rest.head?, next.name? = none) →
    readDeclarations eof before (ts ++ rest) = readDeclarations eof (ts.reverse ++ before) rest

namespace SteppedOver

theorem nil : SteppedOver [] := ⟨by simp, fun _ _ _ _ _ => rfl⟩

theorem cons {t : Token} {ts : List Token} (ht : Inert t) (h : SteppedOver ts) :
    SteppedOver (t :: ts) where
  selectsMember u hu := by
    rcases List.mem_cons.1 hu with rfl | hu
    · exact ht.selectsMember
    · exact h.selectsMember u hu
  skip eof before rest hb hrest := by
    rw [List.cons_append, readDeclarations_skip hb ht.notFunction
      (.inr ⟨ht.notNamespace, ht.notClass, ht.notOther⟩),
      h.skip eof (t :: before) rest (by simp [ht.selectsMember]) hrest]
    simp

/-- Before a mark, a word is stepped over whatever it is, but for the word of a function. -/
theorem single {t : Token} (ht : t.selectsMember = false) (hf : t.isName "function" = false) :
    SteppedOver [t] where
  selectsMember u hu := by rwa [List.mem_singleton.1 hu]
  skip eof before rest hb hrest := readDeclarations_skip hb hf (.inl hrest)

theorem head?_reverse {before ts : List Token} (h : SteppedOver ts)
    (hb : before.head?.any Token.selectsMember = false) :
    (ts.reverse ++ before).head?.any Token.selectsMember = false := by
  cases hts : ts.reverse with
  | nil => exact hb
  | cons t ts' => simp [h.selectsMember t (List.mem_reverse.1 (hts ▸ List.mem_cons_self))]

theorem append {ts us : List Token} (ht : SteppedOver ts) (hu : SteppedOver us)
    (hmark : ∀ next ∈ us.head?, next.name? = none) : SteppedOver (ts ++ us) where
  selectsMember t hmem := (List.mem_append.1 hmem).elim (ht.selectsMember t) (hu.selectsMember t)
  skip eof before rest hb hrest := by
    have hhead : ∀ next ∈ (us ++ rest).head?, next.name? = none := by
      cases us with
      | nil => exact hrest
      | cons u us => exact hmark
    rw [List.append_assoc, ht.skip eof before _ hb hhead,
      hu.skip eof _ rest (ht.head?_reverse hb) hrest]
    simp

end SteppedOver

theorem Inert.mark {c : Char} (m : Mark c) : Inert m.token :=
  ⟨rfl, rfl, rfl, rfl, by simp [Token.opensOther]⟩

theorem Inert.keyword {word : String} (k : Keyword word)
    (h : ∀ w ∈ "enum" :: reservedWords, Text.sameLetters word w = false) : Inert k.token := by
  simp only [reservedWords, List.forall_mem_cons] at h
  obtain ⟨he, hf, hns, hc, hi, ht, -⟩ := h
  exact ⟨rfl, by simp [hf], by simp [hns], by simp [hc], by simp [Token.opensOther, he, hi, ht]⟩

theorem ImportName.inert (n : ImportName) (he : Text.sameLetters n.text "enum" = false) :
    Inert n.token := by
  have h := n.notReserved
  simp only [reservedWords, List.forall_mem_cons] at h
  obtain ⟨hf, hns, hc, hi, ht, -⟩ := h
  exact ⟨rfl, hf, hns, hc, by simp [Token.opensOther, he, hi, ht]⟩

theorem ImportName.steppedOver (n : ImportName) : SteppedOver [n.token] :=
  .single rfl (n.notReserved "function" (by simp [reservedWords]))

theorem ImportClause.steppedOver {c : ImportClause} (h : c.harmless = true) :
    SteppedOver c.tokens := by
  obtain ⟨name, alias?⟩ := c
  cases alias? with
  | none => exact name.steppedOver
  | some a =>
    obtain ⟨k, a⟩ := a
    have hname : Inert name.token := name.inert (by simpa [ImportClause.harmless] using h)
    have hk : Inert k.token := .keyword k (by decide)
    exact .cons hname (.cons hk a.steppedOver)

theorem ImportKind.inert {k : ImportKind} (h : k.harmless = true) : Inert k.token := by
  cases k with
  | function k => cases h
  | const k => exact .keyword k (by decide)

theorem SteppedOver.kind {kind? : Option ImportKind} {ts : List Token}
    (hk : kind?.all ImportKind.harmless = true) (h : SteppedOver ts) :
    SteppedOver ((kind?.map ImportKind.token).toList ++ ts) := by
  cases kind? with
  | none => exact h
  | some k => exact .cons (k.inert hk) h

theorem SteppedOver.listing {α : Type} {print : α → List Token} (l : Listing α)
    (h : ∀ a ∈ l.items, SteppedOver (print a)) : SteppedOver (l.tokens print) := by
  obtain ⟨a, more⟩ := l
  refine .append (h a (by simp [Listing.items])) ?_ ?_
  · have hmore : ∀ m ∈ more, SteppedOver (print m.2) := fun m hm =>
      h m.2 (List.mem_cons_of_mem _ (List.mem_map_of_mem hm))
    clear h
    induction more with
    | nil => exact .nil
    | cons m more ih =>
      rw [List.flatMap_cons]
      refine .append (.cons (.mark m.1) (hmore m List.mem_cons_self))
        (ih fun m' hm' => hmore m' (List.mem_cons_of_mem _ hm')) ?_
      cases more <;> simp
  · cases more <;> simp

theorem ImportBody.steppedOver {b : ImportBody} (h : b.harmless = true) :
    SteppedOver b.tokens := by
  cases b with
  | names clauses =>
    have hclauses := List.all_eq_true.1 h
    exact .listing clauses fun c hc => ImportClause.steppedOver (hclauses c hc)
  | group start opening clauses trailing? closing =>
    have hclauses : SteppedOver (clauses.tokens groupTokens) := .listing clauses fun c hc => by
      have hc := List.all_eq_true.1 h c hc
      rw [Bool.and_eq_true] at hc
      exact .kind hc.1 (ImportClause.steppedOver hc.2)
    have hend : SteppedOver ((trailing?.map Mark.token).toList ++ [closing.token]) := by
      cases trailing? with
      | none => exact .cons (.mark closing) .nil
      | some comma => exact .cons (.mark comma) (.cons (.mark closing) .nil)
    have hinner : SteppedOver (opening.token :: (clauses.tokens groupTokens ++
        ((trailing?.map Mark.token).toList ++ [closing.token]))) := by
      refine .cons (.mark opening) (hclauses.append hend ?_)
      cases trailing? <;> simp
    exact start.steppedOver.append hinner (by simp)

section
variable {eof : Nat} {before : List Token}

/-- **A harmless import is stepped over**, up to the start of the next statement. -/
theorem readDeclarations_import (hb : Fresh before) {i : ImportStatement} (h : i.harmless = true)
    (rest : List Token) :
    ∃ before', Fresh before' ∧
      readDeclarations eof before (i.tokens ++ rest) = readDeclarations eof before' rest := by
  obtain ⟨hkind, hbody⟩ := Bool.and_eq_true_iff.1 h
  have huse : Inert i.keyword.token := .keyword i.keyword (by decide)
  have hstop := Inert.mark i.stop
  have hstatement := SteppedOver.cons huse (.kind hkind (ImportBody.steppedOver hbody))
  generalize hts : i.keyword.token :: ((i.kind?.map ImportKind.token).toList ++ i.body.tokens) =
    statement at hstatement
  have htokens : i.tokens ++ rest = statement ++ i.stop.token :: rest := by
    simp [← hts, ImportStatement.tokens]
  refine ⟨i.stop.token :: (statement.reverse ++ before), by simp [Fresh], ?_⟩
  rw [htokens, hstatement.skip eof before _ hb.selectsMember (by simp),
    readDeclarations_skip (hstatement.head?_reverse hb.selectsMember) hstop.notFunction
      (.inr ⟨hstop.notNamespace, hstop.notClass, hstop.notOther⟩)]

end

/-! ## Files -/

/-- A statement of a file: an import or a class. -/
inductive Statement
  | imports (i : ImportStatement)
  | classes (c : Class)

def Statement.tokens : Statement → List Token
  | imports i => i.tokens
  | classes c => c.tokens

/-- The class that a statement is. -/
def Statement.class? : Statement → Option Class
  | imports _ => none
  | classes c => some c

def Statement.harmless : Statement → Bool
  | imports i => i.harmless
  | classes _ => true

/-- A file of imports and classes. -/
structure WithImports where
  nameSpace? : Option NamespaceStatement
  statements : List Statement

namespace WithImports

def tokens (f : WithImports) : List Token :=
  (f.nameSpace?.map NamespaceStatement.tokens).getD [] ++ f.statements.flatMap Statement.tokens

/-- The file with its imports removed. -/
def withoutImports (f : WithImports) : File where
  nameSpace? := f.nameSpace?
  items := (f.statements.filterMap Statement.class?).map .classes

/-- No import holds a word that the top level takes for the start of a declaration. -/
def harmless (f : WithImports) : Bool := f.statements.all Statement.harmless

end WithImports

theorem readDeclarations_statements {eof : Nat} {before : List Token} (hb : Fresh before)
    (statements : List Statement) (h : statements.all Statement.harmless = true) :
    readDeclarations eof before (statements.flatMap Statement.tokens) =
      .ok (((statements.filterMap Statement.class?).map Class.decl).map .classDecl) := by
  induction statements generalizing before with
  | nil => simp [readDeclarations]
  | cons s statements ih =>
    obtain ⟨hs, hstatements⟩ := Bool.and_eq_true_iff.1 h
    rw [List.flatMap_cons]
    cases s with
    | imports i =>
      obtain ⟨before', hb', hi⟩ := @readDeclarations_import eof before hb i hs
        (statements.flatMap Statement.tokens)
      rw [Statement.tokens, hi, ih hb' hstatements]
      rfl
    | classes c =>
      obtain ⟨before', hb', hc⟩ := @readDeclarations_item eof before hb (.classes c)
        (statements.flatMap Statement.tokens)
      rw [Statement.tokens, show c.tokens = (TopLevel.classes c).tokens from rfl, hc,
        ih hb' hstatements]
      rfl

/-- **Imports hide no classes.** A file of imports and classes is read, and gives what it gives
    without the imports: its namespace and all its classes. -/
theorem WithImports.parse_withoutImports (f : WithImports) (h : f.harmless = true) :
    ClassFile.ofTokens f.tokens = .ok f.withoutImports.classFile ∧
      ClassFile.ofTokens f.withoutImports.tokens = .ok f.withoutImports.classFile := by
  refine ⟨?_, ofTokens_tokens f.withoutImports⟩
  obtain ⟨nameSpace?, statements⟩ := f
  have hclasses : ((statements.filterMap Statement.class?).map TopLevel.classes).filterMap
      TopLevel.class? = (statements.filterMap Statement.class?).map Class.decl := by
    simp [List.filterMap_map, Function.comp_def, TopLevel.class?]
  simp only [withoutImports, File.classFile, hclasses]
  have hread := fun {before} (hb : Fresh before) =>
    @readDeclarations_statements (ClassFile.lastLine (tokens ⟨nameSpace?, statements⟩)) before hb
      statements h
  rw [ClassFile.ofTokens]
  cases nameSpace? with
  | none =>
    have hnil : Fresh [] := by simp [Fresh]
    simp only [tokens, Option.map_none, Option.getD_none, List.nil_append] at hread ⊢
    rw [hread hnil]
    exact congrArg Except.ok (ofDeclarations_append [] _)
  | some n =>
    simp only [tokens, Option.map_some, Option.getD_some] at hread ⊢
    rw [readDeclarations_nameSpace, hread (by simp [Fresh])]
    exact congrArg Except.ok (ofDeclarations_append [_] _)

/-- `use Sdk\Ad as Base; use const Sdk\ID; use Sdk\{Campaign, const NAME as LABEL,};
    abstract class Ad { }` -/
def importingFile : WithImports where
  nameSpace? := none
  statements := [
    .imports ⟨.plain _ 1, none,
      .names ⟨⟨⟨⟨"Sdk\\Ad", 1⟩, by decide⟩, some (.plain _ 1, ⟨⟨"Base", 1⟩, by decide⟩)⟩, []⟩, ⟨1⟩⟩,
    .imports ⟨.plain _ 2, some (.const (.plain _ 2)),
      .names ⟨⟨⟨⟨"Sdk\\ID", 2⟩, by decide⟩, none⟩, []⟩, ⟨2⟩⟩,
    .imports ⟨.plain _ 3, none,
      .group ⟨⟨"Sdk\\", 3⟩, by decide⟩ ⟨3⟩
        ⟨(none, ⟨⟨⟨"Campaign", 3⟩, by decide⟩, none⟩),
          [(⟨3⟩, some (.const (.plain _ 3)),
            ⟨⟨⟨"NAME", 3⟩, by decide⟩, some (.plain _ 3, ⟨⟨"LABEL", 3⟩, by decide⟩)⟩)]⟩
        (some ⟨3⟩) ⟨3⟩, ⟨3⟩⟩,
    .classes {
      modifiers := [.isAbstract (.plain _ 4)]
      atMostTwo := by decide
      keyword := .plain _ 4
      name := ⟨"Ad", 4⟩
      parent? := none
      interfaces? := none
      opening := ⟨4⟩
      members := []
      closing := ⟨4⟩ }]

theorem WithImports.parse_withoutImports_importingFile :
    importingFile.tokens.length = 26 ∧ importingFile.harmless = true ∧
      (ClassFile.ofTokens importingFile.tokens).map (·.classes.map ClassDecl.name) =
        .ok ["Ad"] := by
  obtain ⟨hread, -⟩ := importingFile.parse_withoutImports (by decide)
  rw [hread]
  exact ⟨rfl, by decide, rfl⟩

end PhpSharp.Php.Written
