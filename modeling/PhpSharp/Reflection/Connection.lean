/-
  The facts of an object: its endpoint and its connections.

  * `endpoint?` is what `getEndpoint` returns, if that is a constant expression;
  * `connection` decides whether a method is a connection and which edge it fetches. An edge
    may be that of another class, whose source `lookUp` reads and remembers;
  * `objectFacts` collects the connections of a class in the order of its methods.
-/
import PhpSharp.Log.Entry
import PhpSharp.Php.ClassFile.Reader
import PhpSharp.Reflection.Call
import PhpSharp.Reflection.Constants
import PhpSharp.Reflection.Documentation

namespace PhpSharp.Reflection

open Php (Token ClassDecl MethodDecl EvalFault)

/-- Why the edge of a connection is not known. -/
inductive ConnectionFault
  /-- The expression for the edge has no value. -/
  | noValue (fault : EvalFault)
  /-- The call names neither an edge nor a class. -/
  | noReference
  /-- The endpoint of the class that the call names is not known, or empty. -/
  | unknownReference (className : String)
  /-- The request has too few arguments for an HTTP method. -/
  | noHttpMethod
  /-- The request is not a GET. -/
  | notGet
  /-- The request has too few arguments for a path. -/
  | noPath
  /-- The path has no edge. -/
  | nodeItself
  deriving DecidableEq, Repr

/-- The fault in words. -/
def ConnectionFault.message : ConnectionFault → String
  | .noValue fault => fault.message
  | .noReference => "no endpoint argument and no referenced class"
  | .unknownReference name => "endpoint of referenced class " ++ name ++ " is unknown"
  | .noHttpMethod => "request has no HTTP method argument"
  | .notGet => "request is not a GET"
  | .noPath => "request has no path argument"
  | .nodeItself => "request targets the node itself"

/-! ## Endpoints -/

/-- What a body that only returns gives back: `return E;` -/
def returned? : List Token → Option (List Token)
  | [] => none
  | t :: ts =>
    if t.isName "return" && ts.getLast?.any (·.isPunctuation ';') then some ts.dropLast else none

/-- The endpoint of a class: empty if it has no `getEndpoint`, and not known if that returns
    something other than a constant expression. -/
def endpoint? (c : ClassDecl) : Option String :=
  match c.method? "getEndpoint" with
  | none => some ""
  | some m => ((m.body?.bind returned?).bind fun expression =>
    (Php.Scope.evaluate ⟨c.name, knownConstants c⟩ expression).toOption)

/-- The entries that reading the constants of an object leaves in the log. -/
def redeclaredEntries (c : ClassDecl) : List Log.Entry :=
  (redeclared c).map fun name =>
    ⟨.debug, "Ignoring redeclared constant", [("class", c.name), ("constant", name)]⟩

/-! ## Other classes -/

/-- What is known of other classes: for each name that was looked up, its endpoint. -/
abbrev Memo := List (String × Option String)

/-- The class of a name in a source, if the source can be read and declares it. -/
def findClass? (source? : Option String) (name : String) : Option ClassDecl :=
  source?.bind fun source => (Php.ClassFile.ofSource source).toOption.bind (·.class? name)

/-- The endpoint of another class, and what is known and logged afterwards. `sources` gives the
    source of a class; it is asked once for each name. -/
def lookUp (sources : String → Option String) (memo : Memo) (name : String) :
    Option String × Memo × List Log.Entry :=
  match memo.lookup name with
  | some endpoint? => (endpoint?, memo, [])
  | none =>
    let class? := findClass? (sources name) name
    let found? := class?.bind endpoint?
    (found?, (name, found?) :: memo, (class?.map redeclaredEntries).getD [])

/-! ## Connections -/

/-- Whether a method can be a connection: public, not static, with a body, and neither
    `getEndpoint` nor a magic method. -/
def isCandidate (m : MethodDecl) : Bool :=
  m.visibility == .publicMember && !m.isStatic && m.body?.isSome &&
    !Text.sameLetters m.name "getEndpoint" && !m.name.toList.take 2 == ['_', '_']

/-- How a method fetches, and how it names the edge. -/
inductive EdgeSource
  /-- An expression -/
  | expression (tokens : List Token)
  /-- The endpoint of the class that an argument names -/
  | reference (argument? : Option (List Token))
  /-- The path of a request with these arguments -/
  | request (arguments : List (List Token))
  deriving DecidableEq, Repr

/-- The connection that a body makes: that of its first connection call, or else of its first
    request. -/
def edgeSource? (body : List Token) : Option (Sdk.ConnectionKind × EdgeSource) :=
  match connectionCall? body with
  | some (kind, arguments) =>
    match arguments[3]? with
    | some expression => some (kind, .expression expression)
    | none => some (kind, .reference arguments.head?)
  | none => (request? body).map fun arguments => (.synchronous, .request arguments)

/-- The other class whose endpoint a method needs. -/
def otherClass? (className : String) : EdgeSource → Option String
  | .reference argument? =>
    (argument?.bind referencedClass?).filter fun name =>
      !(Text.sameLetters name "self" || Text.sameLetters name "static" || name == className)
  | _ => none

/-- A value, or the reason why its expression has none. -/
def evaluated (s : Php.Scope) (expression : List Token) : Except ConnectionFault String :=
  match s.evaluate expression with
  | .ok value => .ok value
  | .error fault => .error (.noValue fault)

/-- The edge of a request: the path of a GET without the slashes in front. -/
def requestedEdge (s : Php.Scope) (arguments : List (List Token)) :
    Except ConnectionFault String :=
  match arguments[2]? with
  | none => .error .noHttpMethod
  | some method =>
    if isGet method then
      match arguments[3]? with
      | none => .error .noPath
      | some path =>
        match evaluated s path with
        | .error fault => .error fault
        | .ok path =>
          match path.toList.dropWhile (· = '/') with
          | [] => .error .nodeItself
          | edge => .ok (String.ofList edge)
    else .error .notGet

/-- The edge that the endpoint of a class is. -/
def referencedEdge (name : String) : Option String → Except ConnectionFault String
  | none | some "" => .error (.unknownReference name)
  | some endpoint => .ok endpoint

/-- The edge of a connection in a class; `own?` is the endpoint of the class itself and
    `other?` that of another class. -/
def edge (s : Php.Scope) (own? : Option String) (other? : String → Option String) :
    EdgeSource → Except ConnectionFault String
  | .expression tokens => evaluated s tokens
  | .request arguments => requestedEdge s arguments
  | .reference argument? =>
    match argument?.bind referencedClass? with
    | none => .error .noReference
    | some name =>
      match otherClass? s.className (.reference argument?) with
      | none => referencedEdge name own?
      | some other => referencedEdge name (other? other)

/-- The connection that a method is, if it is one; what is known of other classes afterwards;
    and the entries for the log. -/
def connection (sources : String → Option String) (c : ClassDecl) (memo : Memo) (m : MethodDecl) :
    Option Sdk.Connection × Memo × List Log.Entry :=
  match (m.body?.filter fun _ => isCandidate m).bind edgeSource? with
  | none => (none, memo, [])
  | some (kind, source) =>
    let (other?, memo, entries) := match otherClass? c.name source with
      | none => (none, memo, [])
      | some name => lookUp sources memo name
    match edge ⟨c.name, knownConstants c⟩ (endpoint? c) (fun _ => other?) source with
    | .ok edge =>
      (some ⟨capitalize m.name, some edge, documentation m, kind⟩, memo, entries)
    | .error fault =>
      (none, memo, entries ++ [⟨.debug, "Dropping connection method with unresolvable endpoint",
        [("class", c.name), ("method", m.name), ("reason", fault.message)]⟩])

/-- The connections among the methods, in order, and the entries for the log. -/
def connections (sources : String → Option String) (c : ClassDecl) (memo : Memo) :
    List MethodDecl → List Sdk.Connection × List Log.Entry
  | [] => ([], [])
  | m :: ms =>
    let (connection?, memo, entries) := connection sources c memo m
    let (rest, more) := connections sources c memo ms
    (connection?.toList ++ rest, entries ++ more)

/-- The facts of an object, and the entries for the log. -/
def objectFacts (sources : String → Option String) (c : ClassDecl) :
    Sdk.Facts × List Log.Entry :=
  let found := connections sources c [] c.methods
  let missing : List Log.Entry := if endpoint? c = none then
    [⟨.debug, "getEndpoint() does not return a constant expression", [("class", c.name)]⟩] else []
  (.object (endpoint? c) found.1, redeclaredEntries c ++ missing ++ found.2)

/-- The other classes whose endpoints the facts of an object need. -/
def otherClasses (c : ClassDecl) : List String :=
  (c.methods.filterMap fun m =>
    ((m.body?.filter fun _ => isCandidate m).bind edgeSource?).bind fun (_, source) =>
      otherClass? c.name source).eraseDups

end PhpSharp.Reflection
