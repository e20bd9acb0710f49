/-
  Settings as documents: the tree they are written as, and the settings that a tree stands for.

  A setting that is missing has its default, and members that are not known do not matter. The
  formats differ in whether a list may stand for a table (`Format`).
-/
import PhpSharp.Document.Basic
import PhpSharp.Php.Numeral
import PhpSharp.Settings.Basic

namespace PhpSharp.Settings

open Sdk (PerKind)

/-! ## Writing -/

/-- A table with one value per kind. -/
def perKindDocument (p : PerKind String) : Document :=
  .table [("object", .string p.object), ("fields", .string p.fields), ("values", .string p.values)]

/-- A header as a tree. -/
def headerDocument (h : CSharp.Header) : Document :=
  .table [("usings", .ofTexts h.usings), ("copyright", .ofTexts h.copyright),
    ("license", .ofTexts h.license)]

/-- Settings as a tree. -/
def document (s : Settings) : Document :=
  .table [("sdk_root", .string s.sdkRoot.text), ("output_root", .string s.outputRoot.text),
    ("inputs", perKindDocument (s.inputs.map Path.text)),
    ("outputs", perKindDocument (s.outputs.map Path.text)),
    ("namespaces", perKindDocument s.namespaces),
    ("source_namespaces", perKindDocument s.sourceNamespaces),
    ("denylist", .ofTexts s.denylist), ("extension", .string s.extension),
    ("jobs", .integer s.jobs), ("object_base", .string s.profile.objectBase),
    ("enumeration_base", .string s.profile.enumerationBase),
    ("header", headerDocument s.profile.header)]

/-! ## Reading -/

/-- The format that a tree comes from. -/
inductive Format
  /-- A list may stand for a table with its members in order, with no item left over. -/
  | json
  /-- A list may stand for a table, and items left over do not matter. All other values have to
      be there, also those of members that are not known: a number that is too large is not. -/
  | toml
  /-- A list is no table. -/
  | yaml
  deriving DecidableEq, Repr

/-- Whether no value is missing in the members that are not known, where that matters. -/
def Format.admits (format : Format) (names : List String) (entries : List (String × Document)) :
    Bool :=
  match format with
  | .json | .yaml => true
  | .toml => entries.all fun (name, d) => names.contains name || !d.hasNull

/-- The members of a table. Those of the given names occur once. -/
def members? (format : Format) (names : List String) :
    Document → Option (List (String × Document))
  | .table entries =>
    if ((entries.map Prod.fst).filter names.contains).Nodup && format.admits names entries then
      some entries
    else none
  | .plain "" => some []
  | .list items =>
    match format with
    | .json => if items.length ≤ names.length then some (names.zip items) else none
    | .toml => some (names.zip items)
    | .yaml => none
  | _ => none

/-- A text. -/
def text? : Document → Option String
  | .string s | .plain s => some s
  | _ => none

/-- A list of texts. -/
def texts? : Document → Option (List String)
  | .list items => items.mapM text?
  | .plain "" => some []
  | _ => none

/-- The natural number that a scalar without quotes spells: decimal without a zero in front, or
    in one of the bases with a mark. -/
def plainNat? (s : String) : Option Nat :=
  let digits := match s.toList with
    | '+' :: cs => cs
    | cs => cs
  match digits with
  | '0' :: 'x' :: ds => Php.natOfDigits? 16 ds
  | '0' :: 'o' :: ds => Php.natOfDigits? 8 ds
  | '0' :: 'b' :: ds => Php.natOfDigits? 2 ds
  | '0' :: _ :: _ => none
  | ds => Php.natOfDigits? 10 ds

/-- A count: a number of 64 bits without a sign. -/
def count? : Document → Option Nat
  | .integer n => if 0 ≤ n && n < Decimal.twoTo 64 then some n.toNat else none
  | .plain s => (plainNat? s).filter (· < Decimal.twoTo 64)
  | _ => none

/-- The member of a name, read by `read`, or the default if it is missing. -/
def memberOr {α : Type} (entries : List (String × Document)) (name : String) (default : α)
    (read : Document → Option α) : Option α :=
  match entries.lookup name with
  | none => some default
  | some d => read d

/-- A table with a text per kind; all three are needed. -/
def perKind? (format : Format) (d : Document) : Option (PerKind String) := do
  let entries ← members? format ["object", "fields", "values"] d
  pure ⟨← (← entries.lookup "object") |> text?, ← (← entries.lookup "fields") |> text?,
    ← (← entries.lookup "values") |> text?⟩

/-- A header. -/
def header? (format : Format) (d : Document) : Option CSharp.Header := do
  let entries ← members? format ["usings", "copyright", "license"] d
  pure ⟨← memberOr entries "usings" defaultHeader.usings texts?,
    ← memberOr entries "copyright" defaultHeader.copyright texts?,
    ← memberOr entries "license" defaultHeader.license texts?⟩

/-- The names of all settings, in the order in which a list gives them. -/
def names : List String :=
  ["sdk_root", "output_root", "inputs", "outputs", "namespaces", "source_namespaces", "denylist",
    "extension", "jobs", "object_base", "enumeration_base", "header"]

/-- The settings that a tree stands for. -/
def ofDocument? (format : Format) (d : Document) : Option Settings := do
  let entries ← members? format names d
  let path? (d : Document) : Option Path := (text? d).map Path.mk
  let paths? (d : Document) : Option (PerKind Path) := (perKind? format d).map (·.map Path.mk)
  pure {
    sdkRoot := ← memberOr entries "sdk_root" defaults.sdkRoot path?
    outputRoot := ← memberOr entries "output_root" defaults.outputRoot path?
    inputs := ← memberOr entries "inputs" defaults.inputs paths?
    outputs := ← memberOr entries "outputs" defaults.outputs paths?
    namespaces := ← memberOr entries "namespaces" defaults.namespaces (perKind? format)
    sourceNamespaces :=
      ← memberOr entries "source_namespaces" defaults.sourceNamespaces (perKind? format)
    denylist := ← memberOr entries "denylist" defaults.denylist texts?
    extension := ← memberOr entries "extension" defaults.extension text?
    jobs := ← memberOr entries "jobs" defaults.jobs count?
    profile := {
      objectBase := ← memberOr entries "object_base" defaults.profile.objectBase text?
      enumerationBase :=
        ← memberOr entries "enumeration_base" defaults.profile.enumerationBase text?
      header := ← memberOr entries "header" defaults.profile.header (header? format) } }

end PhpSharp.Settings
