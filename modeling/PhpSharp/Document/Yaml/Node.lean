/-
  The values of a text of YAML.

  `Node.ofTokens?` reads the one document that a text may have. Values may have a number, by
  which other places of the text mention them; a value may mention itself.
-/
import PhpSharp.Document.Yaml.Token

namespace PhpSharp.Document.Yaml

/-- A value. -/
inductive Node
  | scalar (style : Style) (tag : Option String) (text : String)
  | list (items : List Node)
  /-- A mapping; its keys may be any values. -/
  | table (entries : List (Node × Node))
  /-- A value with a number -/
  | named (n : Nat) (value : Node)
  /-- The value with a number -/
  | mention (n : Nat)
  deriving Repr, Inhabited

namespace Node

/-- What stands where a value is missing. -/
def missing : Node := .scalar .plain none ""

/-! ## What stands before a value -/

/-- Handles of tags with their meanings. -/
abbrev Handles := List (String × String)

/-- The handles that need no directive. -/
def knownHandles : Handles := [("!", "!"), ("!!", "tag:yaml.org,2002:")]

/-- The number and the tag of a value. -/
structure Properties where
  number? : Option Nat
  tag? : Option String
  deriving DecidableEq, Repr

/-- The tag that a handle and a suffix stand for. -/
def wholeTag? (handles : Handles) (name suffix : String) : Option String :=
  if name = "" then some suffix else (handles.lookup name).map (· ++ suffix)

/-- A number and a tag, in either order; both may be missing. -/
def properties (handles : Handles) : List Token → Option (Properties × List Token)
  | .anchor n :: .tag name suffix :: ts | .tag name suffix :: .anchor n :: ts =>
    (wholeTag? handles name suffix).map fun tag => (⟨some n, some tag⟩, ts)
  | .anchor n :: ts => some (⟨some n, none⟩, ts)
  | .tag name suffix :: ts =>
    (wholeTag? handles name suffix).map fun tag => (⟨none, some tag⟩, ts)
  | ts => some (⟨none, none⟩, ts)

/-- A value with its number, if it has one. -/
def withNumber (number? : Option Nat) (value : Node) : Node :=
  match number? with
  | some n => .named n value
  | none => value

/-! ## Values

Each reader takes the tokens that follow and returns those behind what it has read. The number
in front of them bounds the steps; four for each token are enough. -/

/-- Whether the value of a key or an item is missing, in a block. -/
def isMissingInBlock : List Token → Bool
  | .key :: _ | .value :: _ | .blockEnd :: _ => true
  | _ => false

/-- A value that is missing behind a number or a tag. -/
def readMissing (p : Properties) (ts : List Token) : Option (Node × List Token) :=
  if p = ⟨none, none⟩ then none else some (.scalar .plain p.tag? "", ts)

/-- Where a value stands, which decides how it may be written. -/
inductive Position
  /-- In brackets -/
  | flow
  /-- An item of a block, or the whole document -/
  | block
  /-- A key or value of a block, where a sequence needs no indentation -/
  | entry
  deriving DecidableEq, Repr

section
variable (handles : Handles)

mutual

/-- A value. -/
def read (position : Position) : Nat → List Token → Option (Node × List Token)
  | 0, _ => none
  | _ + 1, .mention n :: ts => some (.mention n, ts)
  | fuel + 1, ts => do
    let (p, ts) ← properties handles ts
    let (value, ts) ← match ts with
      | .scalar style text :: ts => some (.scalar style p.tag? text, ts)
      | .listStart :: ts => (readList true fuel ts).map fun (ds, ts) => (.list ds, ts)
      | .tableStart :: ts => (readTable true fuel ts).map fun (es, ts) => (.table es, ts)
      | .item :: _ =>
        if position = .entry then
          (readItems fuel ts).map fun (ds, ts) => (.list ds, ts)
        else readMissing p ts
      | .sequenceStart :: ts =>
        if position = .flow then none
        else (readSequence fuel ts).map fun (ds, ts) => (.list ds, ts)
      | .mappingStart :: ts =>
        if position = .flow then none
        else (readMapping fuel ts).map fun (es, ts) => (.table es, ts)
      | ts => readMissing p ts
    some (withNumber p.number? value, ts)

/-- The items of a sequence that is indented, and its end. -/
def readSequence : Nat → List Token → Option (List Node × List Token)
  | 0, _ => none
  | fuel + 1, .item :: ts => do
    let (d, ts) ← match ts with
      | .item :: _ | .blockEnd :: _ => some (missing, ts)
      | ts => read .block fuel ts
    (readSequence fuel ts).map fun (ds, ts) => (d :: ds, ts)
  | _ + 1, .blockEnd :: ts => some ([], ts)
  | _ + 1, _ => none

/-- The items of a sequence that is not indented. -/
def readItems : Nat → List Token → Option (List Node × List Token)
  | 0, _ => none
  | fuel + 1, .item :: ts => do
    let (d, ts) ← match ts with
      | .item :: _ => some (missing, ts)
      | ts => if isMissingInBlock ts then some (missing, ts) else read .block fuel ts
    (readItems fuel ts).map fun (ds, ts) => (d :: ds, ts)
  | _ + 1, ts => some ([], ts)

/-- The entries of a mapping that is indented, and its end. -/
def readMapping : Nat → List Token → Option (List (Node × Node) × List Token)
  | 0, _ => none
  | fuel + 1, .key :: ts => do
    let (name, ts) ← if isMissingInBlock ts then some (missing, ts) else read .entry fuel ts
    let (value, ts) ← match ts with
      | .value :: ts =>
        if isMissingInBlock ts then some (missing, ts) else read .entry fuel ts
      | ts => some (missing, ts)
    (readMapping fuel ts).map fun (es, ts) => ((name, value) :: es, ts)
  | _ + 1, .blockEnd :: ts => some ([], ts)
  | _ + 1, _ => none

/-- The items of a list in brackets, and the bracket. All but the first follow a comma. -/
def readList (isFirst : Bool) : Nat → List Token → Option (List Node × List Token)
  | 0, _ => none
  | _ + 1, .listEnd :: ts => some ([], ts)
  | fuel + 1, ts => do
    let ts ← match ts with
      | .comma :: ts => if isFirst then none else some ts
      | ts => if isFirst then some ts else none
    match ts with
    | .listEnd :: ts => some ([], ts)
    | .key :: ts => do
      let (entry, ts) ← readPair fuel ts
      (readList false fuel ts).map fun (ds, ts) => (.table [entry] :: ds, ts)
    | ts => do
      let (d, ts) ← read .flow fuel ts
      (readList false fuel ts).map fun (ds, ts) => (d :: ds, ts)

/-- An entry as an item of a list, after the start of its key. A missing key takes with it the
    mark behind it. -/
def readPair : Nat → List Token → Option ((Node × Node) × List Token)
  | 0, _ => none
  | fuel + 1, ts => do
    let (name, ts) ← match ts with
      | .value :: ts | .comma :: ts | .listEnd :: ts => some (missing, ts)
      | ts => read .flow fuel ts
    let (value, ts) ← match ts with
      | .value :: .comma :: ts => some (missing, .comma :: ts)
      | .value :: .listEnd :: ts => some (missing, .listEnd :: ts)
      | .value :: ts => read .flow fuel ts
      | ts => some (missing, ts)
    some ((name, value), ts)

/-- The entries of a table in braces, and the brace. All but the first follow a comma; a key may
    be without a value. -/
def readTable (isFirst : Bool) : Nat → List Token → Option (List (Node × Node) × List Token)
  | 0, _ => none
  | _ + 1, .tableEnd :: ts => some ([], ts)
  | fuel + 1, ts => do
    let ts ← match ts with
      | .comma :: ts => if isFirst then none else some ts
      | ts => if isFirst then some ts else none
    match ts with
    | .tableEnd :: ts => some ([], ts)
    | .key :: ts => do
      let (name, ts) ← match ts with
        | .value :: _ | .comma :: _ | .tableEnd :: _ => some (missing, ts)
        | ts => read .flow fuel ts
      let (value, ts) ← match ts with
        | .value :: .comma :: ts => some (missing, .comma :: ts)
        | .value :: .tableEnd :: ts => some (missing, .tableEnd :: ts)
        | .value :: ts => read .flow fuel ts
        | ts => some (missing, ts)
      (readTable false fuel ts).map fun (es, ts) => ((name, value) :: es, ts)
    | ts => do
      let (name, ts) ← read .flow fuel ts
      (readTable false fuel ts).map fun (es, ts) => ((name, missing) :: es, ts)

end

end

/-! ## Documents -/

/-- The directives before a document: at most one version, which is known, and handles, each
    once. The tokens behind them come with the handles. -/
def directives (hasVersion : Bool) (handles : Handles) :
    List Token → Option (Handles × List Token)
  | .version major minor :: ts =>
    if !hasVersion && major = 1 && (minor = 1 || minor = 2) then directives true handles ts
    else none
  | .handle name meaning :: ts =>
    if (handles.lookup name).isSome then none
    else directives hasVersion ((name, meaning) :: handles) ts
  | ts => some (handles ++ knownHandles, ts)

/-- Whether a document ends without a value. -/
def isMissingInDocument : List Token → Bool
  | [] | .version _ _ :: _ | .handle _ _ :: _ | .documentStart :: _ | .documentEnd :: _ => true
  | _ => false

/-- The value of a text that is one document. A text without tokens has no value. -/
def ofTokens? (tokens : List Token) : Option Node := do
  let fuel := 4 * tokens.length + 4
  let (d, rest) ← match tokens with
    | [] => some (missing, [])
    | .version _ _ :: _ | .handle _ _ :: _ | .documentStart :: _ =>
      match directives false [] tokens with
      | some (handles, .documentStart :: ts) =>
        if isMissingInDocument ts then some (missing, ts) else read handles .block fuel ts
      | _ => none
    | ts => read knownHandles .block fuel ts
  if (rest.dropWhile (· = .documentEnd)).isEmpty then some d else none

end Node

end PhpSharp.Document.Yaml
