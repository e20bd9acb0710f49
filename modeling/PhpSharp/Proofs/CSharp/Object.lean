/-
  The source generated for an object: the line of its endpoint and one block of lines per
  connection that has an edge, among texts that depend on neither.

  * `render_object`: the text as a whole;
  * `declaresMethod`: the block of a connection declares a method that makes the call;
  * `object_faithful`: both together, and what a reader of the literals gets back.
-/
import Mathlib.Data.List.Basic
import PhpSharp.Proofs.CSharp.Enumeration

namespace PhpSharp.CSharp

open Sdk (Connection ConnectionKind Descriptor)

/-! ## The lines around the endpoint -/

/-- The lines above that of the endpoint. -/
def linesAboveEndpoint (p : Profile) (d : Descriptor) (date : Text.Timestamp) : List String :=
  headerLines p.header d.qualifiedName date.text ++
    ["namespace " ++ d.nameSpace, "\x7b",
      "    public class " ++ d.shortName ++ " : " ++ p.objectBase, "    \x7b"] ++
    (objectLines d.shortName "").take 14

/-- The line of the endpoint. -/
def endpointLine (endpoint : String) : String :=
  "            return \"" ++ escape endpoint ++ "\";"

/-- The block of a connection, if it has an edge. -/
def connectionText? (c : Connection) : Option String :=
  c.endpoint?.map fun edge => terminated (methodLines c edge)

theorem terminated_cons (l : String) (ls : List String) :
    terminated (l :: ls) = l ++ "\n" ++ terminated ls := String.join_cons

theorem terminated_connections (connections : List Connection) :
    terminated (connections.flatMap connectionLines) =
      String.join (connections.filterMap connectionText?) := by
  induction connections with
  | nil => rfl
  | cons c cs ih =>
    rw [List.flatMap_cons, terminated_append, ih, List.filterMap_cons]
    simp only [connectionLines, connectionText?]
    cases c.endpoint? with
    | none => exact String.empty_append
    | some edge => exact String.join_cons.symm

theorem objectLines_eq (name endpoint : String) :
    objectLines name endpoint =
      (objectLines name "").take 14 ++ [endpointLine endpoint, "        \x7d"] := rfl

/-- **The endpoint stands in one line and every connection in one block**, in order. -/
theorem render_object (p : Profile) (d : Descriptor) (date : Text.Timestamp) (endpoint : String)
    (connections : List Connection) :
    render p { d with
        kind := .object
        facts? := some (.object (some endpoint) connections) } date =
      .ok (terminated (linesAboveEndpoint p d date) ++ (endpointLine endpoint ++ "\n") ++
        "        \x7d\n" ++ String.join (connections.filterMap connectionText?) ++
        "    \x7d\n\x7d") := by
  have hlines : headerLines p.header d.qualifiedName date.text ++
      classLines d.nameSpace d.shortName p.objectBase
        (objectLines d.shortName endpoint ++ connections.flatMap connectionLines) =
      (linesAboveEndpoint p d date ++ endpointLine endpoint :: "        \x7d" ::
        connections.flatMap connectionLines) ++ ["    \x7d", "\x7d"] := by
    rw [objectLines_eq, linesAboveEndpoint, classLines]
    simp only [List.append_assoc, List.cons_append, List.nil_append]
  simp only [render, memberLines, Except.map, hlines]
  rw [joinLines_append _ (List.cons_ne_nil _ _), terminated_append, terminated_cons,
    terminated_cons, terminated_connections]
  simp only [String.append_assoc]
  rfl

/-- Connections without an edge add nothing. -/
theorem filterMap_connectionText (connections : List Connection) :
    (connections.filter (·.endpoint?.isSome)).filterMap connectionText? =
      connections.filterMap connectionText? := by
  rw [List.filterMap_filter]
  refine List.filterMap_congr fun c _ => ?_
  unfold connectionText?
  cases c.endpoint? <;> rfl

/-! ## The block of a connection -/

/-- The method of the base class that a generated method calls. -/
inductive Fetches : ConnectionKind → String → Prop
  | synchronous : Fetches .synchronous "GetManyByConnection"
  | asynchronous : Fetches .asynchronous "GetManyByConnectionAsync"

theorem fetches_fetchCall (kind : ConnectionKind) : Fetches kind (fetchCall kind) := by
  cases kind with
  | synchronous => exact .synchronous
  | asynchronous => exact .asynchronous

/-- A literal is read as the value, exactly if that holds none of the separators that end a line. -/
def ReadsBack (value literal : String) : Prop :=
  readLiteral literal.toList = some value.toList ↔
    '\u2028' ∉ value.toList ∧ '\u2029' ∉ value.toList

/-- The text declares a method and nothing else: under a comment, the method of that name returns
    what the call with the literal of the edge gives. -/
def DeclaresMethod (name : String) (kind : ConnectionKind) (edge text : String) : Prop :=
  ∃ comment call literal,
    (∀ line ∈ comment, line = "" ∨ "        ///".toList <+: line.toList) ∧ Fetches kind call ∧
    ReadsBack edge literal ∧
    text = terminated comment ++
      ("        public object " ++ name ++
        "(string[] fields = null, Dictionary<string, object> parameters = null)" ++ "\n") ++
      "        \x7b\n" ++
      ("            return " ++ call ++ "(\"" ++ literal ++ "\", fields, parameters);" ++ "\n") ++
      "        \x7d\n"

/-- The lines above the declaration. -/
def commentLines (c : Connection) : List String := (methodLines c "").take 7

theorem comment_of_mem_commentLines {c : Connection} {line : String} (h : line ∈ commentLines c) :
    line = "" ∨ "        ///".toList <+: line.toList := by
  have happend : ∀ {s : String} (t : String), "        ///".toList <+: s.toList →
      "        ///".toList <+: (s ++ t).toList := fun t hs => by
    rw [String.toList_append]
    exact hs.trans (List.prefix_append ..)
  simp only [commentLines, methodLines, List.take_succ_cons, List.take_zero, List.mem_cons,
    List.not_mem_nil, or_false] at h
  rcases h with rfl | rfl | rfl | rfl | rfl | rfl | rfl
  · exact .inl rfl
  · exact .inr (by decide)
  · exact .inr (happend _ (happend _ (by decide)))
  · exact .inr (by decide)
  · exact .inr (by decide)
  · exact .inr (by decide)
  · exact .inr (happend _ (happend _ (by decide)))

theorem methodLines_eq (c : Connection) (edge : String) :
    methodLines c edge = commentLines c ++
      ["        public object " ++ c.name ++
          "(string[] fields = null, Dictionary<string, object> parameters = null)",
        "        \x7b",
        "            return " ++ fetchCall c.kind ++ "(\"" ++ escape edge ++
          "\", fields, parameters);",
        "        \x7d"] := rfl

theorem terminated_methodLines (c : Connection) (edge : String) :
    terminated (methodLines c edge) = terminated (commentLines c) ++
      ("        public object " ++ c.name ++
        "(string[] fields = null, Dictionary<string, object> parameters = null)" ++ "\n") ++
      "        \x7b\n" ++
      ("            return " ++ fetchCall c.kind ++ "(\"" ++ escape edge ++
        "\", fields, parameters);" ++ "\n") ++
      "        \x7d\n" := by
  rw [methodLines_eq, terminated_append, terminated_cons, terminated_cons, terminated_cons,
    terminated_cons]
  simp only [String.append_assoc]
  rfl

/-- **The block of a connection** declares a method that fetches the edge. -/
theorem declaresMethod (c : Connection) (edge : String) :
    DeclaresMethod c.name c.kind edge (terminated (methodLines c edge)) :=
  ⟨commentLines c, fetchCall c.kind, escape edge, fun _ => comment_of_mem_commentLines,
    fetches_fetchCall c.kind, readLiteral_eq_some_iff edge, terminated_methodLines c edge⟩

/-! ## Summary -/

/-- **An object keeps its endpoint and its connections.** In the source generated for it, the
    endpoint stands in one line, and behind it come the blocks of the connections that have an
    edge, in order, among texts that depend on none of them. The block of a connection depends on
    that connection only; it declares the method of its name, that calls the method for its kind
    with the literal of its edge. Every literal is read back as what it stands for, unless that
    holds a line or paragraph separator; and connections without an edge can be left out. -/
theorem object_faithful (p : Profile) (d : Descriptor) (date : Text.Timestamp) :
    (∃ above between below : String, ∀ (endpoint : String) (connections : List Connection),
      let source (connections : List Connection) := render p { d with
        kind := .object
        facts? := some (.object (some endpoint) connections) } date
      source connections =
        .ok (above ++ ("            return \"" ++ escape endpoint ++ "\";" ++ "\n") ++ between ++
          String.join (connections.filterMap connectionText?) ++ below) ∧
      source (connections.filter (·.endpoint?.isSome)) = source connections) ∧
    (∀ endpoint, ReadsBack endpoint (escape endpoint)) ∧
    (∀ name documentation kind, connectionText? ⟨name, none, documentation, kind⟩ = none) ∧
    ∀ name edge documentation kind, ∃ block,
      connectionText? ⟨name, some edge, documentation, kind⟩ = some block ∧
        DeclaresMethod name kind edge block := by
  refine ⟨⟨terminated (linesAboveEndpoint p d date), "        \x7d\n", "    \x7d\n\x7d", ?_⟩,
    readLiteral_eq_some_iff, fun _ _ _ => rfl, ?_⟩
  · intro endpoint connections source
    have hsource := render_object p d date endpoint
    refine ⟨hsource connections, ?_⟩
    exact (hsource _).trans (by rw [filterMap_connectionText, ← hsource connections])
  · intro name edge documentation kind
    exact ⟨_, rfl, declaresMethod ⟨name, some edge, documentation, kind⟩ edge⟩

end PhpSharp.CSharp
