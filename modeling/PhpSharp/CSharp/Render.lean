/-
  The C# source generated for a class.

  Every file opens with the same header (`headerLines`). Below it, an object gets its
  constructor, its endpoint and one method per connection that has an edge (`methodLines`);
  an enumeration gets one line per constant (`constantLine`).
-/
import PhpSharp.CSharp.Literal
import PhpSharp.CSharp.Comment
import PhpSharp.Sdk.Descriptor
import PhpSharp.Text.Lines
import PhpSharp.Text.Timestamp

namespace PhpSharp.CSharp

open Sdk (Connection ConnectionKind Constants Descriptor Facts Kind)

/-- What stands at the top of every generated file. -/
structure Header where
  /-- The namespaces to import. -/
  usings : List String
  /-- The lines on who holds the rights. -/
  copyright : List String
  /-- The lines on who may use them. -/
  license : List String
  deriving DecidableEq, Repr

/-- What the generated files of a run have in common. -/
structure Profile where
  /-- The base class of objects. -/
  objectBase : String
  /-- The base class of enumerations. -/
  enumerationBase : String
  header : Header
  deriving DecidableEq, Repr

/-- Why no source can be generated for a class. -/
inductive Fault
  /-- Its facts have not been read. -/
  | notReflected
  /-- Its facts are those of another kind. -/
  | otherFacts (kind : Kind)
  /-- It is an object without a known endpoint. -/
  | noEndpoint
  /-- A reason in words. -/
  | stated (reason : String)
  deriving DecidableEq, Repr

/-- The fault in words. -/
def Fault.message : Fault → String
  | .notReflected => "descriptor has not been reflected"
  | .otherFacts kind => "reflected facts do not match kind '" ++ kind.key ++ "'"
  | .noEndpoint => "endpoint is undefined"
  | .stated reason => reason

/-- The comment at the top: the two texts, with an empty line between them if both have
    lines. -/
def bannerLines (h : Header) : List String :=
  let gap := if h.copyright ≠ [] && h.license ≠ [] then [""] else []
  (h.copyright ++ gap ++ h.license).map commentLine

/-- The header of a file generated from the class of that name. -/
def headerLines (h : Header) (qualifiedName : String) (date : String) : List String :=
  h.usings.map (fun u => "using " ++ u ++ ";") ++
  ["", "/// <summary>"] ++ bannerLines h ++
  ["/// </summary>", "/// <date>" ++ date ++ "</date>", "///", "/// <remarks>",
    "/// This file was automatically generated by sdkport from the PHP class",
    "/// " ++ qualifiedName ++ ". Edits will be lost on the next conversion.",
    "/// </remarks>", ""]

/-- A class in its namespace, around the lines of its members. -/
def classLines (nameSpace name base : String) (members : List String) : List String :=
  ["namespace " ++ nameSpace, "\x7b", "    public class " ++ name ++ " : " ++ base, "    \x7b"] ++
  members ++ ["    \x7d", "\x7d"]

/-- The declaration of a constant. -/
def constantLine (name value : String) : String :=
  "        public const string " ++ name ++ " = \"" ++ escape value ++ "\";"

/-- The member of the base class that fetches a connection. -/
def fetchCall : ConnectionKind → String
  | .synchronous => "GetManyByConnection"
  | .asynchronous => "GetManyByConnectionAsync"

/-- The constructor of an object and the method that gives its endpoint. -/
def objectLines (name endpoint : String) : List String :=
  ["        /// <inheritdoc />",
    "        /// <summary>",
    "        /// Initializes a new instance of the <see cref=\"" ++ name ++ "\"/> class.",
    "        /// </summary>",
    "        /// <param name=\"client\">The client.</param>",
    "        /// <param name=\"id\">The identifier.</param>",
    "        /// <param name=\"parentId\">The parent identifier.</param>",
    "        public " ++ name ++ "(FacebookClient client, string id, string parentId = null)" ++
      " : base(client, id, parentId) \x7b \x7d",
    "",
    "        /// <inheritdoc />",
    "        /// <summary>Gets the endpoint of the API call.</summary>",
    "        /// <returns>Endpoint URL</returns>",
    "        protected override string GetEndpoint()",
    "        \x7b",
    "            return \"" ++ escape endpoint ++ "\";",
    "        \x7d"]

/-- The method that fetches a connection from an edge, after an empty line. -/
def methodLines (c : Connection) (edge : String) : List String :=
  ["",
    "        /// <summary>",
    "        /// " ++ commentText c.documentation ++ ".",
    "        /// </summary>",
    "        /// <param name=\"fields\">The fields.</param>",
    "        /// <param name=\"parameters\">The parameters.</param>",
    "        /// <returns>The result of <see cref=\"" ++ fetchCall c.kind ++ "\"/>.</returns>",
    "        public object " ++ c.name ++
      "(string[] fields = null, Dictionary<string, object> parameters = null)",
    "        \x7b",
    "            return " ++ fetchCall c.kind ++ "(\"" ++ escape edge ++ "\", fields, parameters);",
    "        \x7d"]

/-- The lines of a connection; one without an edge has none. -/
def connectionLines (c : Connection) : List String :=
  match c.endpoint? with
  | some edge => methodLines c edge
  | none => []

/-- The members of the class generated from some facts, and the base of that class. -/
def memberLines (p : Profile) (d : Descriptor) (facts : Facts) :
    Except Fault (String × List String) :=
  match d.kind, facts with
  | .object, .object none _ => .error .noEndpoint
  | .object, .object (some endpoint) connections =>
    .ok (p.objectBase, objectLines d.shortName endpoint ++ connections.flatMap connectionLines)
  | .fields, .enumeration constants | .values, .enumeration constants =>
    .ok (p.enumerationBase, constants.entries.map fun (name, value) => constantLine name value)
  | kind, _ => .error (.otherFacts kind)

/-- The source generated for a class at a point in time. -/
def render (p : Profile) (d : Descriptor) (date : Text.Timestamp) : Except Fault String :=
  match d.facts? with
  | none => .error .notReflected
  | some facts => (memberLines p d facts).map fun (base, members) =>
    Text.joinLines (headerLines p.header d.qualifiedName date.text ++
      classLines d.nameSpace d.shortName base members)

end PhpSharp.CSharp
