/-
  Calls in method bodies: the two that fetch the objects on an edge, and the arguments
  they are given.
-/
import PhpSharp.Php.Block
import PhpSharp.Php.Expression
import PhpSharp.Sdk.Descriptor

namespace PhpSharp.Reflection

open Php (Token)

/-- The arguments of a call, from the tokens behind its opening parenthesis. `current` holds
    the tokens of the argument under way, last first, and `depth` counts the brackets open in
    it. An empty argument is dropped only at the end. -/
def argumentsFrom (depth : Nat) (current : List Token) : List Token → List (List Token)
  | [] => []
  | t :: ts =>
    if t.opens?.isSome then argumentsFrom (depth + 1) (t :: current) ts
    else if t.closes?.isSome then
      if depth = 0 then if current = [] then [] else [current.reverse]
      else argumentsFrom (depth - 1) (t :: current) ts
    else if t.isPunctuation ',' && depth = 0 then current.reverse :: argumentsFrom 0 [] ts
    else argumentsFrom depth (t :: current) ts

/-- The arguments of a call, from the tokens behind its opening parenthesis. -/
def splitArguments (ts : List Token) : List (List Token) := argumentsFrom 0 [] ts

/-- The methods of the base class that fetch the objects on an edge. -/
def connectionCalls : List (String × Sdk.ConnectionKind) :=
  [("getManyByConnection", .synchronous), ("getOneByConnection", .synchronous),
    ("getManyByConnectionAsync", .asynchronous), ("getOneByConnectionAsync", .asynchronous)]

/-- How the method of a name fetches, if it is one of `connectionCalls`. -/
def connectionKind? (name : String) : Option Sdk.ConnectionKind :=
  (connectionCalls.find? fun (call, _) => Text.sameLetters call name).map Prod.snd

/-- The connection call `$this->name(` at the start, and its arguments. -/
def connectionCallAt? : List Token → Option (Sdk.ConnectionKind × List (List Token))
  | ⟨.variable "this", _⟩ :: ⟨.arrow, _⟩ :: name :: paren :: ts =>
    if paren.isPunctuation '(' then
      (name.name?.bind connectionKind?).map fun kind => (kind, splitArguments ts)
    else none
  | _ => none

/-- The first connection call of a body. -/
def connectionCall? : List Token → Option (Sdk.ConnectionKind × List (List Token))
  | [] => none
  | t :: ts => (connectionCallAt? (t :: ts)).or (connectionCall? ts)

/-- The request `new ApiRequest(` at the start, and its arguments. -/
def requestAt? : List Token → Option (List (List Token))
  | word :: name :: paren :: ts =>
    if word.isName "new" && paren.isPunctuation '(' &&
        name.name?.any fun n => Text.sameLetters (Php.unqualified n) "ApiRequest"
    then some (splitArguments ts) else none
  | _ => none

/-- The first request of a body. -/
def request? : List Token → Option (List (List Token))
  | [] => none
  | t :: ts => (requestAt? (t :: ts)).or (request? ts)

/-- The class that an argument names: `X::className()` or `X::class`. -/
def referencedClass? : List Token → Option String
  | [scope, ⟨.doubleColon, _⟩, name, opening, closing] =>
    if name.isName "className" && opening.isPunctuation '(' && closing.isPunctuation ')' then
      scope.name?.map Php.unqualified
    else none
  | [scope, ⟨.doubleColon, _⟩, name] =>
    if name.isName "class" then scope.name?.map Php.unqualified else none
  | _ => none

/-- Whether an argument is the HTTP method GET: `RequestInterface::METHOD_GET` or `'GET'`. -/
def isGet : List Token → Bool
  | [scope, ⟨.doubleColon, _⟩, name] =>
    scope.name?.any (fun n => Text.sameLetters (Php.unqualified n) "RequestInterface") &&
      name.isName "METHOD_GET"
  | [⟨.string s, _⟩] => Text.sameLetters s "GET"
  | _ => false

end PhpSharp.Reflection
