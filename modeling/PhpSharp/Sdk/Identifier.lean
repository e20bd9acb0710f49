/-
  Names of classes: which names generated code can use, the name that a file stands for, and
  the full name of a class in a namespace.
-/
import PhpSharp.Text.Blank

namespace PhpSharp.Sdk

/-- The C# keywords. -/
def reservedWords : List String :=
  ["abstract", "as", "base", "bool", "break", "byte", "case", "catch", "char", "checked",
    "class", "const", "continue", "decimal", "default", "delegate", "do", "double", "else",
    "enum", "event", "explicit", "extern", "false", "finally", "fixed", "float", "for",
    "foreach", "goto", "if", "implicit", "in", "int", "interface", "internal", "is", "lock",
    "long", "namespace", "new", "null", "object", "operator", "out", "override", "params",
    "private", "protected", "public", "readonly", "ref", "return", "sbyte", "sealed", "short",
    "sizeof", "stackalloc", "static", "string", "struct", "switch", "this", "throw", "true",
    "try", "typeof", "uint", "ulong", "unchecked", "unsafe", "ushort", "using", "virtual",
    "void", "volatile", "while"]

/-- Whether an identifier can start with the character: an ASCII letter or `_`. -/
def isIdentifierStart (c : Char) : Bool := c.isAlpha || c == '_'

/-- Whether an identifier can go on with the character: an ASCII letter, a digit or `_`. -/
def isIdentifierChar (c : Char) : Bool := c.isAlphanum || c == '_'

/-- Whether the name is an ASCII identifier. -/
def isIdentifier (name : String) : Bool :=
  match name.toList with
  | [] => false
  | c :: cs => isIdentifierStart c && cs.all isIdentifierChar

/-- Whether generated code can use the name. -/
def isClassName (name : String) : Bool := isIdentifier name && !reservedWords.contains name

/-- The name of a file up to its first point. -/
def shortName (fileName : String) : String :=
  String.ofList (fileName.toList.takeWhile (· ≠ '.'))

/-- A namespace without the backslashes around it. -/
def bareNamespace (name : String) : String :=
  String.ofList (Text.dropEndWhile (· = '\\') (name.toList.dropWhile (· = '\\')))

/-- The full name of a class in a namespace, which may be written with backslashes around it. -/
def qualify (nameSpace name : String) : String :=
  let bare := bareNamespace nameSpace
  if bare = "" then "\\" ++ name else "\\" ++ bare ++ "\\" ++ name

end PhpSharp.Sdk
