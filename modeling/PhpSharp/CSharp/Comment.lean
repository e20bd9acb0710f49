/-
  C# documentation comments: texts as one line of XML.
-/
import PhpSharp.Text.Blank

namespace PhpSharp.CSharp

/-- How a character is written in XML. -/
def xmlChar (c : Char) : List Char :=
  if c = '&' then "&amp;".toList
  else if c = '<' then "&lt;".toList
  else if c = '>' then "&gt;".toList
  else [c]

/-- How a text is written in XML. -/
def xmlEscape (text : String) : String := String.ofList (text.toList.flatMap xmlChar)

/-- The words of a text on one line, as XML. -/
def commentText (text : String) : String :=
  xmlEscape (String.ofList (Text.oneLine text.toList))

/-- A line of a comment with the given text. -/
def commentLine (text : String) : String := if text = "" then "///" else "/// " ++ commentText text

end PhpSharp.CSharp
