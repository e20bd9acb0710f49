/-
  The connections of a class, method by method: what is remembered of other classes on the way
  never shows.

  * `connectionOf`: the connection that a method is, from the method and the sources alone;
  * `connections_eq`: whatever is remembered, the connections are those of the methods in order;
  * `connectionOf_reference`: a call that names a class fetches the endpoint of that class;
  * `mem_otherClasses_iff`: the classes that are needed are those that such calls name;
  * `reflect_congr`: the sources of all other classes have no part in facts, faults and log.
-/
import Mathlib.Data.List.Basic
import PhpSharp.Proofs.Php.ExpressionGrammar
import PhpSharp.Reflection.Reflect

namespace PhpSharp.Reflection

open Php (Token ClassDecl MethodDecl IsLastSegment)

variable {sources sources' : String → Option String} {c : ClassDecl} {m : MethodDecl}
  {memo : Memo} {name : String}

/-! ## Without a memory -/

/-- The endpoint of another class, read afresh. -/
def foreignEndpoint? (sources : String → Option String) (name : String) : Option String :=
  (findClass? (sources name) name).bind endpoint?

/-- How a method fetches and how it names the edge, if it can be a connection. -/
def connectionSource? (m : MethodDecl) : Option (Sdk.ConnectionKind × EdgeSource) :=
  (m.body?.filter fun _ => isCandidate m).bind edgeSource?

/-- The connection that a method is, if it is one. -/
def connectionOf (sources : String → Option String) (c : ClassDecl) (m : MethodDecl) :
    Option Sdk.Connection :=
  (connectionSource? m).bind fun (kind, source) =>
    (edge ⟨c.name, knownConstants c⟩ (endpoint? c) (foreignEndpoint? sources) source).toOption.map
      fun edge => ⟨capitalize m.name, some edge, documentation m, kind⟩

theorem connectionOf_source {kind : Sdk.ConnectionKind} {source : EdgeSource}
    (hs : connectionSource? m = some (kind, source)) :
    connectionOf sources c m =
      (edge ⟨c.name, knownConstants c⟩ (endpoint? c) (foreignEndpoint? sources) source).toOption.map
        fun edge => ⟨capitalize m.name, some edge, documentation m, kind⟩ := by
  rw [connectionOf, hs, Option.bind_some]

/-- An edge depends on the one other class that its source names. -/
theorem edge_congr {s : Php.Scope} {own? : Option String} {f g : String → Option String}
    {source : EdgeSource} (h : ∀ name ∈ otherClass? s.className source, f name = g name) :
    edge s own? f source = edge s own? g source := by
  cases source with
  | expression | request => rfl
  | reference argument? =>
    simp only [edge]
    cases argument?.bind referencedClass? with
    | none => rfl
    | some name =>
      cases hother : otherClass? s.className (.reference argument?) with
      | none => rfl
      | some other => exact congrArg (referencedEdge name) (h other hother)

theorem otherClass_of_mem (hm : m ∈ c.methods) {kind : Sdk.ConnectionKind} {source : EdgeSource}
    (hs : connectionSource? m = some (kind, source)) (hn : otherClass? c.name source = some name) :
    name ∈ otherClasses c := by
  rw [otherClasses, List.mem_eraseDups, List.mem_filterMap]
  exact ⟨m, hm, by rw [connectionSource?] at hs; rw [hs]; exact hn⟩

/-- The connections of a class depend on the sources of its other classes. -/
theorem filterMap_connectionOf_congr
    (h : ∀ name ∈ otherClasses c, sources name = sources' name) :
    c.methods.filterMap (connectionOf sources c) =
      c.methods.filterMap (connectionOf sources' c) := by
  refine List.filterMap_congr fun m hm => ?_
  cases hs : connectionSource? m with
  | none => rw [connectionOf, connectionOf, hs, Option.bind_none, Option.bind_none]
  | some found =>
    obtain ⟨kind, source⟩ := found
    rw [connectionOf_source hs, connectionOf_source hs, edge_congr fun name hname => ?_]
    rw [foreignEndpoint?, foreignEndpoint?, h name (otherClass_of_mem hm hs hname)]

/-! ## With a memory -/

/-- What is remembered of other classes is what their sources say. -/
def Remembers (sources : String → Option String) (memo : Memo) : Prop :=
  ∀ name endpoint?, memo.lookup name = some endpoint? → endpoint? = foreignEndpoint? sources name

theorem Remembers.nil : Remembers sources [] := fun _ _ h => nomatch h

theorem Remembers.cons (h : Remembers sources memo) :
    Remembers sources ((name, foreignEndpoint? sources name) :: memo) := by
  intro other endpoint? hlookup
  rw [List.lookup_cons] at hlookup
  split at hlookup
  · rename_i heq
    rw [← Option.some.inj hlookup, eq_of_beq heq]
  · exact h other endpoint? hlookup

theorem lookUp_eq (h : Remembers sources memo) (name : String) :
    (lookUp sources memo name).1 = foreignEndpoint? sources name ∧
      Remembers sources (lookUp sources memo name).2.1 := by
  unfold lookUp
  cases hlookup : memo.lookup name with
  | none => exact ⟨rfl, h.cons⟩
  | some endpoint? => exact ⟨h name endpoint? hlookup, h⟩

/-- What is found out about the class that a method needs, if it needs one. -/
def consult (sources : String → Option String) (memo : Memo) :
    Option String → Option String × Memo × List Log.Entry
  | none => (none, memo, [])
  | some name => lookUp sources memo name

theorem consult_eq (h : Remembers sources memo) (needed? : Option String) :
    (∀ name ∈ needed?, (consult sources memo needed?).1 = foreignEndpoint? sources name) ∧
      Remembers sources (consult sources memo needed?).2.1 := by
  cases needed? with
  | none => exact ⟨fun _ hname => (nomatch hname), h⟩
  | some name =>
    obtain ⟨hfound, hremembers⟩ := lookUp_eq h name
    exact ⟨fun other hother => Option.some.inj hother ▸ hfound, hremembers⟩

theorem connection_of_source (sources : String → Option String) {kind : Sdk.ConnectionKind}
    {source : EdgeSource} (hs : connectionSource? m = some (kind, source)) (memo : Memo) :
    let known := consult sources memo (otherClass? c.name source)
    (connection sources c memo m).1 =
        (edge ⟨c.name, knownConstants c⟩ (endpoint? c) (fun _ => known.1) source).toOption.map
          (fun edge => ⟨capitalize m.name, some edge, documentation m, kind⟩) ∧
      (connection sources c memo m).2.1 = known.2.1 := by
  rw [connectionSource?] at hs
  simp only [connection, hs]
  cases otherClass? c.name source with
  | none =>
    dsimp only [consult]
    split <;> simp [*, Except.toOption]
  | some name =>
    dsimp only [consult]
    split <;> simp [*, Except.toOption]

/-- One method: its connection does not show what is remembered, and that stays right. -/
theorem connection_eq (h : Remembers sources memo) (m : MethodDecl) :
    (connection sources c memo m).1 = connectionOf sources c m ∧
      Remembers sources (connection sources c memo m).2.1 := by
  cases hs : connectionSource? m with
  | none =>
    rw [connectionSource?] at hs
    simp only [connection, connectionOf, connectionSource?, hs]
    exact ⟨rfl, h⟩
  | some found =>
    obtain ⟨kind, source⟩ := found
    obtain ⟨hconnection, hmemo⟩ := connection_of_source sources (c := c) hs memo
    obtain ⟨hfound, hremembers⟩ := consult_eq h (otherClass? c.name source)
    refine ⟨?_, hmemo ▸ hremembers⟩
    rw [hconnection, connectionOf_source hs, edge_congr hfound]

/-- **What is remembered does not show**: the connections are those of the methods, in order. -/
theorem connections_eq (h : Remembers sources memo) (ms : List MethodDecl) :
    (connections sources c memo ms).1 = ms.filterMap (connectionOf sources c) := by
  induction ms generalizing memo with
  | nil => rfl
  | cons m ms ih =>
    obtain ⟨hconnection, hremembers⟩ := connection_eq (c := c) h m
    rw [List.filterMap_cons, ← hconnection, ← ih hremembers]
    dsimp only [connections]
    cases (connection sources c memo m).1 <;> rfl

theorem objectFacts_eq (sources : String → Option String) (c : ClassDecl) :
    (objectFacts sources c).1 =
      .object (endpoint? c) (c.methods.filterMap (connectionOf sources c)) :=
  congrArg (Sdk.Facts.object (endpoint? c)) (connections_eq .nil c.methods)

theorem toOption_eq_some_iff {ε α : Type} {x : Except ε α} {a : α} :
    x.toOption = some a ↔ x = .ok a := by
  cases x <;> simp [Except.toOption]

/-- The facts of a descriptor are those of the class of its name. -/
theorem reflect_eq_ok_iff {expected : Sdk.PerKind String} {d : Sdk.Descriptor} {source : String}
    {facts : Sdk.Facts} : (reflect expected sources d source).1 = .ok facts ↔
      ∃ c, findClass? (some source) d.shortName = some c ∧
        (classFacts sources c d.kind).1 = .ok facts := by
  rw [reflect, findClass?, Option.bind_some]
  cases Php.ClassFile.ofSource source with
  | error e => simp [Except.toOption]
  | ok file =>
    cases hclass : file.class? d.shortName with
    | none => simp [Except.toOption, hclass]
    | some c =>
      rcases hfacts : classFacts sources c d.kind with ⟨facts' | fault, entries⟩ <;>
        simp [Except.toOption, hclass, hfacts]

theorem reflect_object_eq_ok_iff {expected : Sdk.PerKind String} {d : Sdk.Descriptor}
    (hk : d.kind = .object) {source : String} {facts : Sdk.Facts} :
    (reflect expected sources d source).1 = .ok facts ↔
      ∃ c, findClass? (some source) d.shortName = some c ∧ (objectFacts sources c).1 = facts := by
  simp only [reflect_eq_ok_iff, hk, classFacts, Except.ok.injEq]

theorem classFacts_enumeration {kind : Sdk.Kind} (hk : kind ≠ .object) {facts : Sdk.Facts} :
    (classFacts sources c kind).1 = .ok facts ↔
      ∃ constants, enumerationConstants c = .ok constants ∧ .enumeration constants = facts := by
  cases kind with
  | object => exact absurd rfl hk
  | fields | values =>
    simp only [classFacts]
    cases enumerationConstants c <;> simp

/-! ## Which methods are connections -/

/-- A method that may be a connection. -/
structure Eligible (m : MethodDecl) : Prop where
  isPublic : m.visibility = .publicMember
  notStatic : m.isStatic = false
  hasBody : ∃ body, m.body? = some body
  /-- `getEndpoint` is none, in any letter case. -/
  notEndpoint : Text.sameLetters m.name "getEndpoint" = false
  /-- Magic methods are none. -/
  notMagic : ¬['_', '_'] <+: m.name.toList

theorem isCandidate_iff : isCandidate m = true ↔ Eligible m := by
  have hmagic : (m.name.toList.take 2 == ['_', '_']) = false ↔ ¬['_', '_'] <+: m.name.toList := by
    rw [List.prefix_iff_eq_take, beq_eq_false_iff_ne, ne_eq, eq_comm]
    rfl
  simp only [isCandidate, Bool.and_eq_true, beq_iff_eq, Bool.not_eq_true', hmagic,
    Option.isSome_iff_exists]
  exact ⟨fun ⟨⟨⟨⟨hp, hs⟩, hb⟩, he⟩, hm⟩ => ⟨hp, hs, hb, he, hm⟩,
    fun ⟨hp, hs, hb, he, hm⟩ => ⟨⟨⟨⟨hp, hs⟩, hb⟩, he⟩, hm⟩⟩

theorem connectionSource?_eq_some_iff {found : Sdk.ConnectionKind × EdgeSource} :
    connectionSource? m = some found ↔
      ∃ body, m.body? = some body ∧ Eligible m ∧ edgeSource? body = some found := by
  simp only [connectionSource?, Option.bind_eq_some_iff, Option.filter_eq_some_iff,
    isCandidate_iff, and_assoc]

theorem eligible_of_connectionOf {connection : Sdk.Connection}
    (h : connectionOf sources c m = some connection) : Eligible m := by
  obtain ⟨found, hfound, -⟩ := Option.bind_eq_some_iff.1 h
  obtain ⟨body, -, heligible, -⟩ := connectionSource?_eq_some_iff.1 hfound
  exact heligible

/-! ## Calls that name a class -/

/-- The argument names the class. -/
inductive Refers : List Token → String → Prop
  /-- `X::className()` -/
  | className {scope word name l₁ l₂ l₃ l₄ l₅} (hn : IsLastSegment name scope)
      (hw : Text.sameLetters word "className" = true) :
      Refers [⟨.name scope, l₁⟩, ⟨.doubleColon, l₂⟩, ⟨.name word, l₃⟩, ⟨.punctuation '(', l₄⟩,
        ⟨.punctuation ')', l₅⟩] name
  /-- `X::class` -/
  | keyword {scope word name l₁ l₂ l₃} (hn : IsLastSegment name scope)
      (hw : Text.sameLetters word "class" = true) :
      Refers [⟨.name scope, l₁⟩, ⟨.doubleColon, l₂⟩, ⟨.name word, l₃⟩] name

theorem unqualified_name?_iff {t : Token} : t.name?.map Php.unqualified = some name ↔
    ∃ scope line, t = ⟨.name scope, line⟩ ∧ IsLastSegment name scope := by
  obtain ⟨kind, line⟩ := t
  cases kind <;> simp [Token.name?, Php.unqualified_eq_iff]

theorem referencedClass?_eq_some_iff {argument : List Token} :
    referencedClass? argument = some name ↔ Refers argument name := by
  constructor
  · intro h
    unfold referencedClass? at h
    split at h
    · split at h
      · rename_i hmarks
        simp only [Bool.and_eq_true] at hmarks
        obtain ⟨⟨hword, hopening⟩, hclosing⟩ := hmarks
        obtain ⟨word, l₃, rfl, hw⟩ := Token.isName_iff.1 hword
        obtain ⟨scope, l₁, rfl, hn⟩ := unqualified_name?_iff.1 h
        rw [Token.eq_of_isPunctuation hopening, Token.eq_of_isPunctuation hclosing]
        exact .className hn hw
      · cases h
    · split at h
      · rename_i hword
        obtain ⟨word, l₃, rfl, hw⟩ := Token.isName_iff.1 hword
        obtain ⟨scope, l₁, rfl, hn⟩ := unqualified_name?_iff.1 h
        exact .keyword hn hw
      · cases h
    · cases h
  · intro h
    cases h with
    | className hn hw | keyword hn hw =>
      simp [referencedClass?, Token.isName, Token.isPunctuation, Token.name?, hw,
        Php.unqualified_eq_iff.2 hn]

/-- The name means the class itself. -/
def IsItself (className name : String) : Prop :=
  Text.sameLetters name "self" = true ∨ Text.sameLetters name "static" = true ∨ name = className

theorem isItself_iff {className : String} : IsItself className name ↔
    (Text.sameLetters name "self" || Text.sameLetters name "static" || name == className) =
      true := by
  simp only [IsItself, Bool.or_eq_true, beq_iff_eq, or_assoc]

theorem otherClass?_reference (className : String) {argument : List Token}
    (h : referencedClass? argument = some name) :
    (IsItself className name ∧ otherClass? className (.reference (some argument)) = none) ∨
      (¬IsItself className name ∧
        otherClass? className (.reference (some argument)) = some name) := by
  rw [otherClass?, Option.bind_some, h, Option.filter_some]
  by_cases hown : IsItself className name
  · rw [isItself_iff.1 hown]
    exact .inl ⟨hown, rfl⟩
  · rw [Bool.eq_false_iff.2 (mt isItself_iff.2 hown)]
    exact .inr ⟨hown, rfl⟩

theorem referencedEdge_eq_ok_iff {endpoint? : Option String} {edge : String} :
    referencedEdge name endpoint? = .ok edge ↔ endpoint? = some edge ∧ edge ≠ "" := by
  unfold referencedEdge
  split
  · simp
  · simp only [reduceCtorEq, Option.some.injEq, false_iff, not_and, not_not]
    exact fun h => h.symm
  · rename_i endpoint hne
    simp only [Except.ok.injEq, Option.some.injEq, iff_self_and]
    rintro rfl rfl
    exact hne rfl

theorem edge_reference_eq_ok_iff {s : Php.Scope} {own? : Option String}
    {other? : String → Option String} {argument? : Option (List Token)} {edge : String} :
    Reflection.edge s own? other? (.reference argument?) = .ok edge ↔
      ∃ argument name, argument? = some argument ∧ Refers argument name ∧ edge ≠ "" ∧
        ((IsItself s.className name ∧ own? = some edge) ∨
          (¬IsItself s.className name ∧ other? name = some edge)) := by
  cases argument? with
  | none => simp [Reflection.edge]
  | some argument =>
    cases hclass : referencedClass? argument with
    | none =>
      have hnone : ¬∃ name, Refers argument name := fun ⟨name, h⟩ =>
        nomatch hclass.symm.trans (referencedClass?_eq_some_iff.2 h)
      simp only [Reflection.edge, Option.bind_some, hclass, reduceCtorEq, false_iff]
      rintro ⟨argument', name, he, h, -⟩
      cases he
      exact hnone ⟨name, h⟩
    | some name =>
      have hname : ∀ name', Refers argument name' ↔ name' = name := fun name' => by
        rw [← referencedClass?_eq_some_iff, hclass, Option.some.injEq, eq_comm]
      simp only [Reflection.edge, Option.bind_some, hclass, Option.some.injEq,
        exists_and_left, exists_eq_left', hname, exists_eq_left]
      rcases otherClass?_reference s.className hclass with ⟨hown, hother⟩ | ⟨hown, hother⟩
      · simp only [hother, referencedEdge_eq_ok_iff, hown, true_and, not_true_eq_false, false_and,
          or_false, and_comm]
      · simp only [hother, referencedEdge_eq_ok_iff, hown, false_and, not_false_eq_true, true_and,
          false_or, and_comm]

/-- **A call that names a class** is a connection exactly if that class has an endpoint, which is
    not empty; and that is its edge. -/
theorem connectionOf_reference {body : List Token} {kind : Sdk.ConnectionKind}
    {arguments : List (List Token)} (hm : Eligible m) (hb : m.body? = some body)
    (hcall : connectionCall? body = some (kind, arguments)) (hlength : arguments.length < 4)
    {connection : Sdk.Connection} :
    connectionOf sources c m = some connection ↔
      ∃ argument name edge, arguments.head? = some argument ∧ Refers argument name ∧ edge ≠ "" ∧
        ((IsItself c.name name ∧ endpoint? c = some edge) ∨
          (¬IsItself c.name name ∧ foreignEndpoint? sources name = some edge)) ∧
        connection = ⟨capitalize m.name, some edge, documentation m, kind⟩ := by
  have hsource : connectionSource? m = some (kind, .reference arguments.head?) := by
    refine connectionSource?_eq_some_iff.2 ⟨body, hb, hm, ?_⟩
    have hnone : arguments[3]? = none := List.getElem?_eq_none (by omega)
    simp only [edgeSource?, hcall, hnone]
  rw [connectionOf_source hsource, Option.map_eq_some_iff]
  constructor
  · rintro ⟨edge, hedge, rfl⟩
    obtain ⟨argument, name, hhead, hrefers, hne, hend⟩ :=
      edge_reference_eq_ok_iff.1 (toOption_eq_some_iff.1 hedge)
    exact ⟨argument, name, edge, hhead, hrefers, hne, hend, rfl⟩
  · rintro ⟨argument, name, edge, hhead, hrefers, hne, hend, rfl⟩
    exact ⟨edge, toOption_eq_some_iff.2
      (edge_reference_eq_ok_iff.2 ⟨argument, name, hhead, hrefers, hne, hend⟩), rfl⟩

/-! ## Classes that are consulted -/

/-- **A class consults another one:** a method that may be a connection names it in its first
    connection call, which has no argument for the edge. -/
structure Consults (c : ClassDecl) (name : String) : Prop where
  other : ¬IsItself c.name name
  called : ∃ m ∈ c.methods, Eligible m ∧ ∃ body kind arguments argument, m.body? = some body ∧
    connectionCall? body = some (kind, arguments) ∧ arguments.length < 4 ∧
    arguments.head? = some argument ∧ Refers argument name

theorem edgeSource?_eq_reference_iff {body : List Token} {kind : Sdk.ConnectionKind}
    {argument? : Option (List Token)} : edgeSource? body = some (kind, .reference argument?) ↔
      ∃ arguments, connectionCall? body = some (kind, arguments) ∧ arguments.length < 4 ∧
        arguments.head? = argument? := by
  unfold edgeSource?
  cases connectionCall? body with
  | none => cases request? body <;> simp
  | some call =>
    obtain ⟨kind', arguments⟩ := call
    cases hfourth : arguments[3]? with
    | none =>
      have hlength := List.getElem?_eq_none_iff.1 hfourth
      simp only [hfourth, Option.some.injEq, Prod.mk.injEq, EdgeSource.reference.injEq]
      constructor
      · rintro ⟨rfl, rfl⟩
        exact ⟨arguments, ⟨rfl, rfl⟩, Nat.lt_succ_of_le hlength, rfl⟩
      · rintro ⟨_, ⟨rfl, rfl⟩, -, rfl⟩
        exact ⟨rfl, rfl⟩
    | some expression =>
      have hlength := (List.getElem?_eq_some_iff.1 hfourth).1
      simp only [hfourth, Option.some.injEq, Prod.mk.injEq, reduceCtorEq, and_false, false_iff]
      rintro ⟨_, ⟨-, rfl⟩, hshort, -⟩
      exact absurd hshort (Nat.not_lt.2 hlength)

/-- The other classes whose endpoints are needed are those that are consulted. -/
theorem mem_otherClasses_iff : name ∈ otherClasses c ↔ Consults c name := by
  rw [otherClasses, List.mem_eraseDups, List.mem_filterMap]
  constructor
  · rintro ⟨m, hm, hother⟩
    obtain ⟨⟨kind, source⟩, hsource, hother⟩ := Option.bind_eq_some_iff.1 hother
    obtain ⟨body, hbody, heligible, hedge⟩ := connectionSource?_eq_some_iff.1 hsource
    cases source with
    | expression | request => cases hother
    | reference argument? =>
      obtain ⟨arguments, hcall, hlength, rfl⟩ := edgeSource?_eq_reference_iff.1 hedge
      obtain ⟨hclass, hnot⟩ := Option.filter_eq_some_iff.1 hother
      obtain ⟨argument, hhead, hclass⟩ := Option.bind_eq_some_iff.1 hclass
      refine ⟨fun hown => ?_, m, hm, heligible, body, kind, arguments, argument, hbody, hcall,
        hlength, hhead, referencedClass?_eq_some_iff.1 hclass⟩
      rw [isItself_iff.1 hown] at hnot
      cases hnot
  · rintro ⟨hother, m, hm, heligible, body, kind, arguments, argument, hbody, hcall, hlength,
      hhead, hrefers⟩
    have hsource := connectionSource?_eq_some_iff.2
      ⟨body, hbody, heligible, edgeSource?_eq_reference_iff.2 ⟨arguments, hcall, hlength, rfl⟩⟩
    refine ⟨m, hm, Option.bind_eq_some_iff.2 ⟨_, hsource, ?_⟩⟩
    dsimp only
    rw [hhead]
    exact ((otherClass?_reference c.name (referencedClass?_eq_some_iff.2 hrefers)).resolve_left
      fun hown => hother hown.1).2

/-! ## The sources of other classes -/

/-- What is read for a method depends on looking up the class that it names. -/
theorem connection_congr
    (h : ∀ kind source, connectionSource? m = some (kind, source) →
      ∀ name ∈ otherClass? c.name source, ∀ memo,
        lookUp sources memo name = lookUp sources' memo name) (memo : Memo) :
    connection sources c memo m = connection sources' c memo m := by
  unfold connectionSource? at h
  unfold connection
  cases hedge : (m.body?.filter fun _ => isCandidate m).bind edgeSource? with
  | none => rfl
  | some found =>
    obtain ⟨kind, source⟩ := found
    dsimp only
    cases hother : otherClass? c.name source with
    | none => rfl
    | some name =>
      dsimp only
      rw [h kind source hedge name hother memo]

theorem connections_congr_needed {ms : List MethodDecl}
    (h : ∀ m ∈ ms, ∀ kind source, connectionSource? m = some (kind, source) →
      ∀ name ∈ otherClass? c.name source, ∀ memo,
        lookUp sources memo name = lookUp sources' memo name) (memo : Memo) :
    connections sources c memo ms = connections sources' c memo ms := by
  induction ms generalizing memo with
  | nil => rfl
  | cons m ms ih =>
    unfold connections
    rw [connection_congr (h m (List.mem_cons_self ..))]
    simp only [ih fun m hm => h m (List.mem_cons_of_mem _ hm)]

theorem neededClasses_object {d : Sdk.Descriptor} {source : String} (hk : d.kind = .object)
    (hc : findClass? (some source) d.shortName = some c) :
    neededClasses d source = otherClasses c := by
  simp only [neededClasses, hk, hc, Option.map_some, Option.getD_some]

/-- **The sources of other classes** have no part in the facts of a class, its fault or the log, but
    for those of the classes that it needs. -/
theorem reflect_congr {d : Sdk.Descriptor} {source : String}
    (h : ∀ name ∈ neededClasses d source, sources name = sources' name)
    (expected : Sdk.PerKind String) :
    reflect expected sources d source = reflect expected sources' d source := by
  unfold reflect
  cases hfile : Php.ClassFile.ofSource source with
  | error e => rfl
  | ok file =>
    dsimp only
    cases hclass : file.class? d.shortName with
    | none => rfl
    | some c =>
      have hfacts : classFacts sources c d.kind = classFacts sources' c d.kind := by
        cases hk : d.kind with
        | object =>
          have hfind : findClass? (some source) d.shortName = some c := by
            rw [findClass?, Option.bind_some, hfile]
            exact hclass
          rw [neededClasses_object hk hfind] at h
          have hsame : connections sources c [] c.methods = connections sources' c [] c.methods :=
            connections_congr_needed (fun m hm kind source hs name hn memo => by
              rw [lookUp, lookUp, h name (otherClass_of_mem hm hs hn)]) []
          simp only [classFacts, objectFacts, hsame]
        | fields => rfl
        | values => rfl
      dsimp only
      rw [hfacts]

end PhpSharp.Reflection
