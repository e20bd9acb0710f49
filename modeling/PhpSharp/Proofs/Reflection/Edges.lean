/-
  The edges of the connections of an object: each connection has one, and it is empty only if the
  method states an empty edge itself.

  * `edge_eq_ok_empty_iff`: an edge that is looked up in a class or in a path is never empty;
  * `connectionOf_empty_iff`: which methods are connections with an empty edge;
  * `edges_nonempty_unless_stated`: all connections of an object.
-/
import PhpSharp.Proofs.Reflection.Connections

namespace PhpSharp.Reflection

open Php (Token ClassDecl MethodDecl)

variable {sources : String → Option String} {c : ClassDecl} {m : MethodDecl}

/-! ## Empty edges -/

theorem requestedEdge_ne_empty {s : Php.Scope} {arguments : List (List Token)} :
    requestedEdge s arguments ≠ .ok "" := by
  intro h
  unfold requestedEdge at h
  split at h
  · cases h
  split at h
  · split at h
    · cases h
    split at h
    · cases h
    split at h
    · cases h
    · -- without its slashes, the path is not empty
      rename_i hsome
      rw [Except.ok.injEq, ← String.toList_inj, String.toList_ofList] at h
      exact hsome h
  · cases h

/-- Only an expression can be an edge that is empty. -/
theorem edge_eq_ok_empty_iff {s : Php.Scope} {own? : Option String}
    {other? : String → Option String} {source : EdgeSource} :
    edge s own? other? source = .ok "" ↔
      ∃ tokens, source = .expression tokens ∧ s.Derives .expression tokens "" := by
  cases source with
  | expression tokens =>
    simp only [edge, EdgeSource.expression.injEq, exists_eq_left', ← Php.Scope.evaluate_eq_ok_iff,
      evaluated]
    cases s.evaluate tokens <;> simp
  | reference argument? =>
    simp [edge_reference_eq_ok_iff]
  | request arguments =>
    simp [edge, requestedEdge_ne_empty]

theorem edgeSource?_eq_expression_iff {body : List Token} {kind : Sdk.ConnectionKind}
    {tokens : List Token} : edgeSource? body = some (kind, .expression tokens) ↔
      ∃ arguments, connectionCall? body = some (kind, arguments) ∧
        arguments[3]? = some tokens := by
  unfold edgeSource?
  cases connectionCall? body with
  | none => cases request? body <;> simp
  | some call =>
    obtain ⟨kind', arguments⟩ := call
    cases hfourth : arguments[3]? with
    | none => simp [hfourth]
    | some expression =>
      simp only [hfourth, Option.some.injEq, Prod.mk.injEq, EdgeSource.expression.injEq]
      constructor
      · rintro ⟨rfl, rfl⟩
        exact ⟨arguments, ⟨rfl, rfl⟩, hfourth⟩
      · rintro ⟨_, ⟨rfl, rfl⟩, h⟩
        exact ⟨rfl, Option.some.inj (hfourth.symm.trans h)⟩

/-! ## Connections -/

/-- The method states an edge that is empty: its first connection call has an argument for the
    edge, which is a constant expression without any text. -/
def StatesEmptyEdge (c : ClassDecl) (m : MethodDecl) : Prop :=
  ∃ body kind arguments expression, m.body? = some body ∧
    connectionCall? body = some (kind, arguments) ∧ arguments[3]? = some expression ∧
    (⟨c.name, knownConstants c⟩ : Php.Scope).Derives .expression expression ""

theorem connectionOf_eq_some_iff {connection : Sdk.Connection} :
    connectionOf sources c m = some connection ↔
      ∃ body kind source edge, m.body? = some body ∧ Eligible m ∧
        edgeSource? body = some (kind, source) ∧
        Reflection.edge ⟨c.name, knownConstants c⟩ (endpoint? c) (foreignEndpoint? sources)
          source = .ok edge ∧
        connection = ⟨capitalize m.name, some edge, documentation m, kind⟩ := by
  rw [connectionOf, Option.bind_eq_some_iff]
  constructor
  · rintro ⟨⟨kind, source⟩, hsource, h⟩
    obtain ⟨body, hbody, heligible, hsource⟩ := connectionSource?_eq_some_iff.1 hsource
    obtain ⟨edge, hedge, rfl⟩ := Option.map_eq_some_iff.1 h
    exact ⟨body, kind, source, edge, hbody, heligible, hsource, toOption_eq_some_iff.1 hedge, rfl⟩
  · rintro ⟨body, kind, source, edge, hbody, heligible, hsource, hedge, rfl⟩
    exact ⟨(kind, source), connectionSource?_eq_some_iff.2 ⟨body, hbody, heligible, hsource⟩,
      Option.map_eq_some_iff.2 ⟨edge, toOption_eq_some_iff.2 hedge, rfl⟩⟩

/-- A method is a connection with an empty edge exactly if it states one. -/
theorem connectionOf_empty_iff :
    (∃ connection, connectionOf sources c m = some connection ∧ connection.endpoint? = some "") ↔
      Eligible m ∧ StatesEmptyEdge c m := by
  constructor
  · rintro ⟨connection, hconnection, hempty⟩
    obtain ⟨body, kind, source, edge, hbody, heligible, hsource, hedge, rfl⟩ :=
      connectionOf_eq_some_iff.1 hconnection
    obtain rfl : edge = "" := Option.some.inj hempty
    obtain ⟨expression, rfl, hderives⟩ := edge_eq_ok_empty_iff.1 hedge
    obtain ⟨arguments, hcall, hfourth⟩ := edgeSource?_eq_expression_iff.1 hsource
    exact ⟨heligible, body, kind, arguments, expression, hbody, hcall, hfourth, hderives⟩
  · rintro ⟨heligible, body, kind, arguments, expression, hbody, hcall, hfourth, hderives⟩
    exact ⟨_, connectionOf_eq_some_iff.2 ⟨body, kind, .expression expression, "", hbody, heligible,
      edgeSource?_eq_expression_iff.2 ⟨arguments, hcall, hfourth⟩,
      edge_eq_ok_empty_iff.2 ⟨expression, rfl, hderives⟩, rfl⟩, rfl⟩

/-- **Every connection of an object has an edge**, and the edge is not empty unless the method
    states an empty one in its call. An endpoint of a class and a path of a request never give an
    empty edge. -/
theorem edges_nonempty_unless_stated {expected : Sdk.PerKind String} {d : Sdk.Descriptor}
    (hk : d.kind = .object) {source : String} {facts : Sdk.Facts}
    (h : (reflect expected sources d source).1 = .ok facts) :
    ∃ c connections, findClass? (some source) d.shortName = some c ∧
      facts = .object (endpoint? c) connections ∧
      (∀ connection ∈ connections, ∃ m ∈ c.methods, Eligible m ∧
        connection.name = capitalize m.name ∧
        ∃ edge, connection.endpoint? = some edge ∧ (edge = "" ↔ StatesEmptyEdge c m)) ∧
      ((∃ connection ∈ connections, connection.endpoint? = some "") ↔
        ∃ m ∈ c.methods, Eligible m ∧ StatesEmptyEdge c m) := by
  obtain ⟨c, hc, rfl⟩ := (reflect_object_eq_ok_iff hk).1 h
  refine ⟨c, c.methods.filterMap (connectionOf sources c), hc, objectFacts_eq sources c, ?_, ?_⟩
  · intro connection hmem
    obtain ⟨m, hm, hconnection⟩ := List.mem_filterMap.1 hmem
    obtain ⟨body, kind, source, edge, -, heligible, -, -, rfl⟩ :=
      connectionOf_eq_some_iff.1 hconnection
    refine ⟨m, hm, heligible, rfl, edge, rfl, ?_⟩
    have hempty : (∃ connection, connectionOf sources c m = some connection ∧
        connection.endpoint? = some "") ↔ Eligible m ∧ StatesEmptyEdge c m := connectionOf_empty_iff
    simpa only [hconnection, Option.some.injEq, exists_eq_left', heligible, true_and] using hempty
  · constructor
    · rintro ⟨connection, hmem, hempty⟩
      obtain ⟨m, hm, hconnection⟩ := List.mem_filterMap.1 hmem
      exact ⟨m, hm, connectionOf_empty_iff.1 ⟨connection, hconnection, hempty⟩⟩
    · rintro ⟨m, hm, hstates⟩
      obtain ⟨connection, hconnection, hempty⟩ := connectionOf_empty_iff.2 hstates
      exact ⟨connection, List.mem_filterMap.2 ⟨m, hm, hconnection⟩, hempty⟩

/-- A class whose methods state the edges `ads` and, as `null`, an empty one. -/
def adWithEdges : String :=
  "<?php class Ad \x7b " ++
  "function getAds() \x7b $this->getManyByConnection(A::class, $f, $p, 'ads'); \x7d " ++
  "function getNode() \x7b $this->getManyByConnection(A::class, $f, $p, null); \x7d \x7d"

/-- The class before its source is read. -/
def adUnread : Sdk.Descriptor := ⟨.object, "Ad", "Sdk", "\\Sdk\\Ad", ⟨"Ad.php"⟩, none⟩

theorem edges_nonempty_unless_stated_ad :
    let connections : List Sdk.Connection :=
      [⟨"GetAds", some "ads", "Get ads", .synchronous⟩,
        ⟨"GetNode", some "", "Get node", .synchronous⟩]
    adUnread.kind = .object ∧
      (reflect ⟨"", "", ""⟩ (fun _ => none) adUnread adWithEdges).1 =
        .ok (.object (some "") connections) ∧
      ∃ c, findClass? (some adWithEdges) "Ad" = some c ∧
        ∃ m ∈ c.methods, Eligible m ∧ StatesEmptyEdge c m := by
  intro connections
  have hfacts : (reflect ⟨"", "", ""⟩ (fun _ => none) adUnread adWithEdges).1 =
      .ok (.object (some "") connections) := by decide +kernel
  obtain ⟨c, found, hc, hfound, -, hstated⟩ := edges_nonempty_unless_stated rfl hfacts
  obtain ⟨-, rfl⟩ := Sdk.Facts.object.inj hfound
  exact ⟨rfl, hfacts, c, hc, hstated.1 ⟨_, .tail _ (.head _), rfl⟩⟩

end PhpSharp.Reflection
