/-
  The tokens of YAML. Indentation has become tokens of its own, which open and close blocks.
-/
import PhpSharp.Document.Basic

namespace PhpSharp.Document.Yaml

/-- How a scalar is written. -/
inductive Style
  /-- `text` -/
  | plain
  /-- `'text'` or `"text"` -/
  | quoted
  /-- A block of lines after `|` -/
  | literal
  /-- A block of lines after `>` -/
  | folded
  deriving DecidableEq, Repr

/-- A token of a text. -/
inductive Token
  /-- `%YAML 1.2` -/
  | version (major minor : Nat)
  /-- `%TAG !name! meaning` -/
  | handle (name meaning : String)
  /-- `---` -/
  | documentStart
  /-- `...` -/
  | documentEnd
  /-- The first item of a sequence that is indented -/
  | sequenceStart
  /-- The first key of a mapping that is indented -/
  | mappingStart
  /-- The end of a block that is indented -/
  | blockEnd
  /-- `[` -/
  | listStart
  /-- `]` -/
  | listEnd
  /-- An opening brace -/
  | tableStart
  /-- A closing brace -/
  | tableEnd
  /-- `,` -/
  | comma
  /-- `-` before an item -/
  | item
  /-- The start of a key, with or without `?` -/
  | key
  /-- `:` before a value -/
  | value
  /-- `&name`, with the number of the name -/
  | anchor (n : Nat)
  /-- `*name`, with the number of the name -/
  | mention (n : Nat)
  /-- `!name!suffix`; without a name, the suffix is all of the tag -/
  | tag (name suffix : String)
  | scalar (style : Style) (text : String)
  deriving DecidableEq, Repr

end PhpSharp.Document.Yaml
