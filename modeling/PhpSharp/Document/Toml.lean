/-
  Reading TOML.

  A text is a list of statements: a value for a name, or the name of the table that the
  statements after it are about. `Statement.list` reads them, and `Build` puts them together:
  no name has two values, and a table that has been written out is not added to.
-/
import PhpSharp.Document.TomlScalar

namespace PhpSharp.Document.Toml

/-! ## Tables under construction -/

/-- What a name stands for while a document is read. -/
inductive Item
  /-- A value that is complete. -/
  | value (d : Document)
  /-- A table. `isNamed` if it has a heading of its own, `isDotted` if it was made by a name
      with points in it. -/
  | table (isNamed isDotted : Bool) (entries : List (String × Item))
  /-- A list of tables, the last of which is open, last first. -/
  | tables (entries : List (List (String × Item)))

/-- The entries of a table under construction. -/
abbrev Entries := List (String × Item)

mutual

/-- An item as a document. -/
def Item.document : Item → Document
  | .value d => d
  | .table _ _ entries => .table (documentEntries entries)
  | .tables entries => .list (documentTables entries).reverse

/-- Entries as those of a document. -/
def documentEntries : List (String × Item) → List (String × Document)
  | [] => []
  | (name, item) :: rest => (name, item.document) :: documentEntries rest

/-- Tables as documents. -/
def documentTables : List (List (String × Item)) → List Document
  | [] => []
  | entries :: rest => .table (documentEntries entries) :: documentTables rest

end

/-- The entries with another item for a name, which is put last if it is new. -/
def setItem (name : String) (item : Item) : Entries → Entries
  | [] => [(name, item)]
  | (n, old) :: rest => if n = name then (n, item) :: rest else (n, old) :: setItem name item rest

/-- Changes the table that a heading or the first parts of a name lead to. With `isDotted` the
    tables on the way may not have a heading. -/
def within (isDotted : Bool) (change : Entries → Option Entries) :
    List String → Entries → Option Entries
  | [], es => change es
  | name :: path, es =>
    match es.lookup name with
    | none => (within isDotted change path []).map fun inner =>
      setItem name (.table false isDotted inner) es
    | some (.value _) => none
    | some (.table isNamed wasDotted inner) =>
      if isDotted && isNamed then none
      else (within isDotted change path inner).map fun inner =>
        setItem name (.table isNamed wasDotted inner) es
    | some (.tables []) => none
    | some (.tables (inner :: others)) =>
      if isDotted then none
      else (within isDotted change path inner).map fun inner =>
        setItem name (.tables (inner :: others)) es

/-- Gives a name a value. -/
def assign (path : List String) (name : String) (d : Document) : Entries → Option Entries :=
  within true (fun es => if (es.lookup name).isSome then none else some (es ++ [(name, .value d)]))
    path

/-- Gives a table its heading. -/
def nameTable (name : String) (es : Entries) : Option Entries :=
  match es.lookup name with
  | none => some (es ++ [(name, .table true false [])])
  | some (.table false false inner) => some (setItem name (.table true false inner) es)
  | some _ => none

/-- Opens one more table of a list. -/
def addTable (name : String) (es : Entries) : Option Entries :=
  match es.lookup name with
  | none => some (es ++ [(name, .tables [[]])])
  | some (.tables inner) => some (setItem name (.tables ([] :: inner)) es)
  | some _ => none

/-! ## Spaces and names -/

/-- Without the blanks in front. -/
def skipBlanks (cs : List Char) : List Char := cs.dropWhile fun c => c = ' ' || c = '\t'

/-- After a comment, if there is one. -/
def skipComment : List Char → Option (List Char)
  | '#' :: cs =>
    let rest := cs.dropWhile isText
    match rest with
    | [] | '\n' :: _ | '\r' :: '\n' :: _ => some rest
    | _ => none
  | cs => some cs

/-- After blanks, comments and line feeds. `fuel` bounds their number. -/
def skipSpace : Nat → List Char → Option (List Char)
  | 0, _ => none
  | fuel + 1, cs =>
    match skipBlanks cs with
    | '\n' :: rest => skipSpace fuel rest
    | '\r' :: '\n' :: rest => skipSpace fuel rest
    | '#' :: rest => (skipComment ('#' :: rest)).bind (skipSpace fuel)
    | rest => some rest

/-- Whether a name without quotes can have the character. -/
def isKeyChar (c : Char) : Bool := c.isAlphanum || c = '_' || c = '-'

/-- One part of a name. -/
def keyPart (cs : List Char) : Option (String × List Char) :=
  match cs with
  | '"' :: rest => basicString [] (rest.length + 1) rest
  | '\'' :: rest => literalString [] rest
  | cs =>
    let name := cs.takeWhile isKeyChar
    if name = [] then none else some (String.ofList name, cs.dropWhile isKeyChar)

/-- How deep lists and tables may stand inside each other, and how many parts a name may have. -/
def maxDepth : Nat := 80

/-- Parts of a name with points between them. `fuel` bounds their number. -/
def keyParts : Nat → List Char → Option ((List String × String) × List Char)
  | 0, _ => none
  | fuel + 1, cs => do
    let (part, rest) ← keyPart (skipBlanks cs)
    match skipBlanks rest with
    | '.' :: rest => do
      let ((path, last), rest) ← keyParts fuel rest
      some ((part :: path, last), rest)
    | rest => some (([], part), rest)

/-- A name. `fuel` bounds the number of its parts. -/
def key (fuel : Nat) (cs : List Char) : Option ((List String × String) × List Char) :=
  (keyParts fuel cs).filter fun ((path, _), _) => path.length < maxDepth

/-! ## Values -/

mutual

/-- A value inside some lists and tables. `fuel` bounds the steps of reading it. -/
def value (depth : Nat) : Nat → List Char → Option (Document × List Char)
  | 0, _ => none
  | fuel + 1, cs =>
    match cs with
    | '[' :: rest =>
      if depth = maxDepth then none
      else (items (depth + 1) fuel rest).map fun (ds, rest) => (.list ds, rest)
    | '\x7b' :: rest =>
      if depth = maxDepth then none
      else (members (depth + 1) fuel [] rest).map fun (es, rest) =>
        (.table (documentEntries es), rest)
    | '"' :: _ | '\'' :: _ => (string cs).map fun (s, rest) => (.string s, rest)
    | _ => bare cs

/-- The items of a list and its closing bracket. -/
def items (depth : Nat) : Nat → List Char → Option (List Document × List Char)
  | 0, _ => none
  | fuel + 1, cs => do
    match ← skipSpace fuel cs with
    | ']' :: rest => some ([], rest)
    | cs => do
      let (d, rest) ← value depth fuel cs
      match ← skipSpace fuel rest with
      | ',' :: rest => do
        let (ds, rest) ← items depth fuel rest
        some (d :: ds, rest)
      | ']' :: rest => some ([d], rest)
      | _ => none

/-- The members of a table in braces and its closing brace. -/
def members (depth : Nat) : Nat → Entries → List Char → Option (Entries × List Char)
  | 0, _, _ => none
  | fuel + 1, es, cs => do
    match ← skipSpace fuel cs with
    | '\x7d' :: rest => some (es, rest)
    | cs => do
      let ((path, name), rest) ← key fuel cs
      let rest ← after '=' rest
      let (d, rest) ← value depth fuel (skipBlanks rest)
      let es ← assign path name d es
      match ← skipSpace fuel rest with
      | ',' :: rest => members depth fuel es rest
      | '\x7d' :: rest => some (es, rest)
      | _ => none

end

/-! ## Documents -/

/-- The end of a line. -/
def endOfLine (cs : List Char) : Option (List Char) := do
  match ← skipComment (skipBlanks cs) with
  | [] => some []
  | '\n' :: rest | '\r' :: '\n' :: rest => some rest
  | _ => none

/-- A document that is read so far, and the table that the next values belong to. -/
structure Build where
  entries : Entries := []
  table : List String := []

/-- Reads a statement. -/
def statement (b : Build) (cs : List Char) : Option (Build × List Char) := do
  let fuel := cs.length + 1
  match cs with
  | '[' :: '[' :: rest => do
    let ((path, name), rest) ← key fuel rest
    let rest ← after ']' rest >>= after ']'
    let entries ← within false (addTable name) path b.entries
    some (⟨entries, path ++ [name]⟩, rest)
  | '[' :: rest => do
    let ((path, name), rest) ← key fuel rest
    let rest ← after ']' rest
    let entries ← within false (nameTable name) path b.entries
    some (⟨entries, path ++ [name]⟩, rest)
  | cs => do
    let ((path, name), rest) ← key fuel cs
    let (d, rest) ← value 0 fuel (skipBlanks (← after '=' rest))
    let entries ← within false (assign path name d) b.table b.entries
    some ({ b with entries }, rest)

/-- Reads statements to the end. `fuel` bounds their number. -/
def statements : Nat → Build → List Char → Option Build
  | 0, _, _ => none
  | fuel + 1, b, cs => do
    match ← skipSpace (cs.length + 1) cs with
    | [] => some b
    | cs => do
      let (b, rest) ← statement b cs
      statements fuel b (← endOfLine rest)

/-- The document of a text, if it is TOML. -/
def parse? (text : String) : Option Document :=
  let cs := match text.toList with
    | '\uFEFF' :: cs => cs
    | cs => cs
  (statements (cs.length + 1) {} cs).map fun b => .table (documentEntries b.entries)

end PhpSharp.Document.Toml
