/-
  Log entries as they are printed, in the formats of a log.
-/
import PhpSharp.Document.Json
import PhpSharp.Log.Settings

namespace PhpSharp.Log

/-- An entry to be read: a line with the level and the message, and one for each field. -/
def Entry.lines (e : Entry) : List String :=
  (e.level.word ++ " " ++ e.message) :: e.fields.map fun (name, text) => s!"    {name}: {text}"

/-- An entry as a document. -/
def Entry.document (e : Entry) : Document :=
  .table [("level", .string e.level.word), ("fields", .table
    (("message", .string e.message) :: e.fields.map fun (name, text) => (name, .string text)))]

/-- An entry in a format. -/
def Entry.printed (e : Entry) : Format → String
  | .pretty => "\n".intercalate e.lines
  | .json => e.document.compact

end PhpSharp.Log
