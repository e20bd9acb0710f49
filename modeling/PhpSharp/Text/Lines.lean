/-
  A text as the lines it is written in.
-/

namespace PhpSharp.Text

/-- The lines, a line feed between two of them. -/
def joinLines : List String → String
  | [] => ""
  | [line] => line
  | line :: lines => line ++ "\n" ++ joinLines lines

end PhpSharp.Text
