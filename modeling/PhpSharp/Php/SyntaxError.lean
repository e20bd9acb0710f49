/-
  What can be wrong with a PHP source, as causes, and the one place where each cause is
  put into words.
-/

namespace PhpSharp.Php

/-- What a name was expected for. -/
inductive NameRole
  | ofNamespace
  | ofClass
  | ofParent
  | ofMethod
  deriving DecidableEq, Repr

def NameRole.words : NameRole → String
  | .ofNamespace => "namespace name"
  | .ofClass => "class name"
  | .ofParent => "parent class"
  | .ofMethod => "method name"

/-- The causes of a syntax error. -/
inductive SyntaxFault
  /-- A quoted string runs to the end of the file. -/
  | unterminatedString
  /-- A block comment runs to the end of the file. -/
  | unterminatedComment
  /-- An attribute `#[` runs to the end of the file. -/
  | unterminatedAttribute
  /-- `<<<` is not followed by a label. -/
  | heredocWithoutLabel
  /-- The label of a heredoc opens with a quote and does not close with it. -/
  | malformedHeredocLabel
  /-- No line closes the heredoc of that label. -/
  | unterminatedHeredoc (label : String)
  /-- A declaration lacks its name. -/
  | expectedName (role : NameRole)
  /-- No block follows a declaration that has one. -/
  | expectedBlock
  /-- A block does not start with a bracket. -/
  | expectedBracket
  /-- A bracket closes another one than the last that was opened. -/
  | mismatchedBracket (found expected : Char)
  /-- A bracket is never closed. -/
  | unclosedBracket (opening : Char)
  /-- The file ends inside the head of a class. -/
  | classWithoutBody (name : String)
  /-- The file ends inside the body of a class. -/
  | classNotClosed (name : String)
  /-- Something other than names stands before the `=` of a constant. -/
  | malformedConstant
  /-- No name stands before the `=` of a constant. -/
  | constantWithoutName
  /-- The file ends inside the value of a constant. -/
  | constantNotTerminated (name : String)
  /-- Nothing stands between the `=` and the end of a constant. -/
  | constantWithoutValue (name : String)
  /-- The file ends before the body of a function. -/
  | functionWithoutBody
  deriving DecidableEq, Repr

/-- The cause in words. -/
def SyntaxFault.message : SyntaxFault → String
  | .unterminatedString => "unterminated string literal"
  | .unterminatedComment => "unterminated comment"
  | .unterminatedAttribute => "unterminated attribute"
  | .heredocWithoutLabel => "heredoc without a label"
  | .malformedHeredocLabel => "malformed heredoc label"
  | .unterminatedHeredoc label => s!"unterminated heredoc '{label}'"
  | .expectedName role => "expected " ++ role.words
  | .expectedBlock => "expected '\x7b'"
  | .expectedBracket => "expected an opening bracket"
  | .mismatchedBracket found expected => s!"unexpected '{found}', expected '{expected}'"
  | .unclosedBracket opening => s!"unclosed '{opening}'"
  | .classWithoutBody name => s!"class {name} has no body"
  | .classNotClosed name => s!"class {name} is not closed"
  | .malformedConstant => "malformed constant declaration"
  | .constantWithoutName => "constant without a name"
  | .constantNotTerminated name => s!"constant {name} is not terminated"
  | .constantWithoutValue name => s!"constant {name} has no value"
  | .functionWithoutBody => "function without a body"

/-- A fault and the line where it shows, counted from one. -/
structure SyntaxError where
  line : Nat
  fault : SyntaxFault
  deriving DecidableEq, Repr

/-- The error as a report prints it. -/
def SyntaxError.message (e : SyntaxError) : String := s!"line {e.line}: " ++ e.fault.message

end PhpSharp.Php
