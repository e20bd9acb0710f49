/-
  The tokens of a text of YAML, as its layout gives them.

  Outside brackets, blocks are opened and closed by the columns in which items and keys stand.
  A key has no mark of its own: whether a token starts a key is known at the colon behind it.
  So the reader keeps the last place where a key may have started, and puts the tokens that
  open the key in front of it when the colon comes.
-/
import PhpSharp.Document.Yaml.Property
import PhpSharp.Document.Yaml.Scalar

namespace PhpSharp.Document.Yaml

/-- A place where a key may have started. -/
structure PendingKey where
  place : Place
  /-- The number of tokens before it -/
  count : Nat
  /-- Whether it has to be a key, since the keys of the block stand in its column -/
  isNeeded : Bool

/-- Whether a key cannot reach up to a place: it is in one line and at most 1024 characters
    long. -/
def PendingKey.isOver (k : PendingKey) (p : Place) : Bool :=
  k.place.line < p.line || k.place.index + 1024 < p.index

/-- What is known of a text up to a place. -/
structure Layout where
  place : Place
  /-- The columns of the blocks that are open, the innermost first -/
  columns : List Nat
  /-- The places where keys may have started: outside brackets, and in each bracket that is
      open, the innermost first -/
  pending : List (Option PendingKey)
  /-- Whether a key may start here -/
  mayStartKey : Bool
  /-- The names of anchors, each with its number -/
  names : List (String × Nat)
  /-- The tokens, last first -/
  tokens : List Token
  /-- The number of tokens -/
  count : Nat

namespace Layout

/-- The layout at the start of a text. -/
def start (text : List Char) : Layout := ⟨.start text, [], [none], true, [], [], 0⟩

/-- Whether a bracket is open. -/
def isFlow (l : Layout) : Bool := l.pending.length > 1

/-- One more token, and the place behind it. -/
def emit (l : Layout) (t : Token) (p : Place) : Layout :=
  { l with tokens := t :: l.tokens, count := l.count + 1, place := p }

/-- A token put in front of those from a number on. -/
def insert (l : Layout) (count : Nat) (t : Token) : Layout :=
  { l with tokens := l.tokens.insertIdx (l.count - count) t, count := l.count + 1 }

/-! ## Blocks -/

/-- Opens a block at a column, in front of the tokens from a number on, if the column is further
    to the right than that of the innermost block. -/
def openBlock (l : Layout) (column count : Nat) (t : Token) : Layout :=
  if l.isFlow || l.columns.head?.any (column ≤ ·) then l
  else { l.insert count t with columns := column :: l.columns }

/-- Closes the blocks whose columns are further to the right than a column, or all of them. -/
def closeBlocks (l : Layout) (column? : Option Nat) : Layout :=
  if l.isFlow then l
  else
    let n := (l.columns.takeWhile fun c => column?.all (· < c)).length
    { l with
      columns := l.columns.drop n
      tokens := List.replicate n .blockEnd ++ l.tokens
      count := l.count + n }

/-! ## Keys -/

/-- The layout without a key from the last place where one may have started. -/
def dropKey (l : Layout) : Option Layout :=
  match l.pending with
  | some k :: ks => if k.isNeeded then none else some { l with pending := none :: ks }
  | _ => some l

/-- The layout without keys from places that are too far away. -/
def dropKeysOver (l : Layout) : Option Layout :=
  let isOver (k? : Option PendingKey) : Bool := k?.any (·.isOver l.place)
  if l.pending.any fun k? => isOver k? && k?.any (·.isNeeded) then none
  else some { l with pending := l.pending.map fun k? => if isOver k? then none else k? }

/-- A token that may start a key is about to be read. -/
def saveKey (l : Layout) : Option Layout :=
  if l.mayStartKey then do
    let l ← l.dropKey
    let isNeeded := !l.isFlow && l.columns.head? = some l.place.column
    some { l with pending := some ⟨l.place, l.count, isNeeded⟩ :: l.pending.tail }
  else some l

/-! ## Tokens -/

/-- Goes on to the next text, behind blanks, comments and line ends. A mark of the order of
    octets may start a line; a tab may not stand where a key may start. -/
def skipSpace (isFlow mayStartKey : Bool) (p : Place) : Bool × Place :=
  let p₁ := if p.column = 0 && p.rest.head? = some '\uFEFF' then p.skip 1 else p
  let p₂ := p₁.skipWhile fun c => c = ' ' || (c = '\t' && (isFlow || !mayStartKey))
  let p₃ := if p₂.rest.head? = some '#' then p₂.skipWhile fun c => !isBreak c else p₂
  match _h : p₃.nextLine? with
  | some (_, next) => skipSpace isFlow (mayStartKey || !isFlow) next
  | none => (mayStartKey, p₃)
termination_by p.rest.length
decreasing_by
  have h₁ : p₁.rest.length ≤ p.rest.length := by
    simp only [p₁]; split
    · exact Place.skip_length_le p 1
    · exact Nat.le_refl _
  have h₂ : p₂.rest.length ≤ p₁.rest.length := Place.skip_length_le _ _
  have h₃ : p₃.rest.length ≤ p₂.rest.length := by
    simp only [p₃]; split
    · exact Place.skip_length_le _ _
    · exact Nat.le_refl _
  exact Nat.lt_of_lt_of_le (Place.nextLine?_length_lt _h)
    (Nat.le_trans h₃ (Nat.le_trans h₂ h₁))

/-- A directive or the mark of a document: it closes all blocks. -/
def outermost (l : Layout) (t : Token) (next : Place) : Option Layout := do
  let l ← (l.closeBlocks none).dropKey
  some { l.emit t next with mayStartKey := false }

/-- An opening bracket or brace. -/
def openFlow (l : Layout) (t : Token) : Option Layout := do
  let l ← l.saveKey
  some { l.emit t (l.place.skip 1) with pending := none :: l.pending, mayStartKey := true }

/-- A closing bracket or brace. -/
def closeFlow (l : Layout) (t : Token) : Option Layout := do
  let l ← l.dropKey
  some { l.emit t (l.place.skip 1) with
    pending := if l.isFlow then l.pending.tail else l.pending
    mayStartKey := false }

/-- The mark between two items or entries. -/
def comma (l : Layout) : Option Layout := do
  let l ← l.dropKey
  some { l.emit .comma (l.place.skip 1) with mayStartKey := true }

/-- The mark of an item, or of a key that is not a simple one, opens a block of its kind. -/
def blockMark (l : Layout) (opening t : Token) (mayStartKey : Bool) : Option Layout := do
  if !l.isFlow && !l.mayStartKey then none
  else do
    let l ← (l.openBlock l.place.column l.count opening).dropKey
    some { l.emit t (l.place.skip 1) with mayStartKey := mayStartKey }

/-- The mark of a value. If a key may have started before it, it has. -/
def value (l : Layout) : Option Layout :=
  match l.pending with
  | some k :: ks =>
    let l := (l.insert k.count .key).openBlock k.place.column k.count .mappingStart
    some { l.emit .value (l.place.skip 1) with pending := none :: ks, mayStartKey := false }
  | _ =>
    if !l.isFlow && !l.mayStartKey then none
    else
      let l := l.openBlock l.place.column l.count .mappingStart
      some { l.emit .value (l.place.skip 1) with mayStartKey := !l.isFlow }

/-- An anchor. A name is known by the number of names when it was last given. -/
def anchor (l : Layout) : Option Layout := do
  let l ← l.saveKey
  let (name, next) ← name? (l.place.skip 1)
  let n := l.names.length
  some { l.emit (.anchor n) next with
    names := (name, n) :: l.names.filter (·.1 ≠ name)
    mayStartKey := false }

/-- A mention of a value. Its name has been given before. -/
def mention (l : Layout) : Option Layout := do
  let l ← l.saveKey
  let (name, next) ← name? (l.place.skip 1)
  let n ← l.names.lookup name
  some { l.emit (.mention n) next with mayStartKey := false }

/-- A tag. -/
def tag (l : Layout) : Option Layout := do
  let l ← l.saveKey
  let (t, next) ← tag? l.isFlow l.place
  some { l.emit t next with mayStartKey := false }

/-- A block of lines. -/
def lines (l : Layout) (style : Style) : Option Layout := do
  let l ← l.dropKey
  let (text, next) ← blockScalar (style = .folded) l.columns.head? (l.place.skip 1)
  some { l.emit (.scalar style (String.ofList text)) next with mayStartKey := true }

/-- A scalar between quotes. -/
def quotes (l : Layout) (isSingle : Bool) : Option Layout := do
  let l ← l.saveKey
  let (text, next) ← quoted isSingle [] .empty (l.place.skip 1)
  some { l.emit (.scalar .quoted (String.ofList text)) next with mayStartKey := false }

/-- A scalar without quotes. -/
def words (l : Layout) : Option Layout := do
  let l ← l.saveKey
  let indent := match l.columns.head? with
    | some column => column + 1
    | none => 0
  let (text, mayStartKey, next) ← plain l.isFlow indent [] .empty l.place
  some { l.emit (.scalar .plain (String.ofList text)) next with mayStartKey := mayStartKey }

/-- The token that starts here, with the characters from here on. -/
def token (l : Layout) : List Char → Option Layout
  | [] => none
  | c :: cs =>
    if l.place.column = 0 && c = '%' then do
      let (t, next) ← directive? l.place
      l.outermost t next
    else if l.place.atDocumentMark then
      l.outermost (if c = '-' then .documentStart else .documentEnd) (l.place.skip 3)
    else if c = '[' then l.openFlow .listStart
    else if c = '\x7b' then l.openFlow .tableStart
    else if c = ']' then l.closeFlow .listEnd
    else if c = '\x7d' then l.closeFlow .tableEnd
    else if c = ',' then l.comma
    else if c = '-' && endsWord cs then l.blockMark .sequenceStart .item true
    else if c = '?' && (l.isFlow || endsWord cs) then
      l.blockMark .mappingStart .key (!l.isFlow)
    else if c = ':' && (l.isFlow || endsWord cs) then l.value
    else if c = '*' then l.mention
    else if c = '&' then l.anchor
    else if c = '!' then l.tag
    else if c = '|' && !l.isFlow then l.lines .literal
    else if c = '>' && !l.isFlow then l.lines .folded
    else if c = '\'' then l.quotes true
    else if c = '"' then l.quotes false
    else if startsPlain l.isFlow (c :: cs) then l.words
    else none

/-- The tokens of a text from here on. Each step reads a character, so as many steps as there are
    characters are enough. -/
def read : Nat → Layout → Option (List Token)
  | 0, _ => none
  | fuel + 1, l => do
    let (mayStartKey, next) := skipSpace l.isFlow l.mayStartKey l.place
    let l ← { l with mayStartKey := mayStartKey, place := next }.dropKeysOver
    match l.place.rest with
    | [] => do
      let l ← (l.closeBlocks none).dropKey
      some l.tokens.reverse
    | cs => do
      let l ← (l.closeBlocks (some l.place.column)).token cs
      read fuel l

end Layout

/-- The tokens of a text. -/
def tokens? (text : List Char) : Option (List Token) :=
  (Layout.start text).read (text.length + 1)

end PhpSharp.Document.Yaml
