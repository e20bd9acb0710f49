/-
  Objects that refer to one another, in a directory that does not change meanwhile.

  * `reflectFrom_object`: the facts of an object are those of its class, with the other classes
    read from the directory for objects;
  * `objectFacts_resolved`: its connections are those of its methods one by one, and a call that
    names a class fetches the endpoint that this class states in its own file.
-/
import PhpSharp.Proofs.Conversion.Process
import PhpSharp.Proofs.Reflection.Connections

namespace PhpSharp.Conversion

open Files (OsError)
open Php (ClassDecl MethodDecl)
open Reflection

variable {read : Path → Except OsError String} {st : Settings} {d : Sdk.Descriptor}
  {c : ClassDecl} {name edge : String}

/-! ## Reading an object -/

/-- The file of an object. -/
def objectFile (st : Settings) (name : String) : Path :=
  (st.inputDirectory .object).entry (name ++ ".php")

/-- The source of an object, as far as it can be read. -/
def objectSource? (read : Path → Except OsError String) (st : Settings) (name : String) :
    Option String :=
  (read (objectFile st name)).toOption

/-- **The facts of an object** are those of its class, with the other classes read from the
    directory for objects. -/
theorem reflectFrom_object (hk : d.kind = .object) {facts : Sdk.Facts} :
    (reflectFrom read st d).1 = .ok facts ↔
      ∃ c, findClass? (read d.sourceFile).toOption d.shortName = some c ∧
        (objectFacts (objectSource? read st) c).1 = facts := by
  unfold reflectFrom
  cases read d.sourceFile with
  | error e => simp [findClass?, Except.toOption]
  | ok source =>
    -- the sources that were fetched beforehand are all that the class asks for
    have hsources : ∀ c, findClass? (some source) d.shortName = some c → ∀ name ∈ otherClasses c,
        (((neededClasses d source).map fun name => (name, objectSource? read st name)).lookup
          name).join = objectSource? read st name := fun c hc name hname => by
      rw [neededClasses_object hk hc,
        List.lookup_graph (objectSource? read st) hname, Option.join_some]
    have hfacts : ∀ c, findClass? (some source) d.shortName = some c →
        (objectFacts (fun name => (((neededClasses d source).map fun name =>
          (name, objectSource? read st name)).lookup name).join) c).1 =
          (objectFacts (objectSource? read st) c).1 := fun c hc => by
      rw [objectFacts_eq, objectFacts_eq, filterMap_connectionOf_congr (hsources c hc)]
    have hok : ∀ {answer : Except Fault Sdk.Facts},
        answer.mapError (Error.reflection d.sourceFile) = .ok facts ↔ answer = .ok facts := by
      intro answer
      cases answer <;> simp [Except.mapError]
    refine hok.trans ((reflect_object_eq_ok_iff hk).trans (exists_congr fun c => ?_))
    exact and_congr_right fun hc => by rw [← hfacts c hc]; rfl

/-! ## Named endpoints -/

/-- The file of an object states this endpoint. -/
def StatesEndpoint (read : Path → Except OsError String) (st : Settings) (name edge : String) :
    Prop :=
  ∃ d connections, d.kind = .object ∧ d.shortName = name ∧ d.sourceFile = objectFile st name ∧
    (reflectFrom read st d).1 = .ok (.object (some edge) connections)

theorem statesEndpoint_iff :
    StatesEndpoint read st name edge ↔
      foreignEndpoint? (objectSource? read st) name = some edge := by
  rw [foreignEndpoint?, Option.bind_eq_some_iff]
  constructor
  · rintro ⟨d, connections, hk, rfl, hfile, hfacts⟩
    obtain ⟨c, hc, he⟩ := (reflectFrom_object hk).1 hfacts
    rw [objectFacts_eq, Sdk.Facts.object.injEq] at he
    rw [hfile] at hc
    exact ⟨c, hc, he.1⟩
  · rintro ⟨c, hc, he⟩
    refine ⟨⟨.object, name, "", "", objectFile st name, none⟩,
      c.methods.filterMap (connectionOf (objectSource? read st) c), rfl, rfl, rfl,
      (reflectFrom_object rfl).2 ⟨c, hc, ?_⟩⟩
    rw [objectFacts_eq, he]

/-- The class that the name means in a class has this endpoint: the class itself, or the one in
    the file of that name. -/
inductive NamedEndpoint (read : Path → Except OsError String) (st : Settings) (c : ClassDecl)
    (name edge : String) : Prop
  | own {connections} : IsItself c.name name →
      (objectFacts (objectSource? read st) c).1 = .object (some edge) connections →
      NamedEndpoint read st c name edge
  | other : ¬IsItself c.name name → StatesEndpoint read st name edge →
      NamedEndpoint read st c name edge

theorem namedEndpoint_iff :
    NamedEndpoint read st c name edge ↔
      (IsItself c.name name ∧ endpoint? c = some edge) ∨
        (¬IsItself c.name name ∧ foreignEndpoint? (objectSource? read st) name = some edge) := by
  rw [← statesEndpoint_iff]
  constructor
  · rintro (⟨hown, hfacts⟩ | ⟨hother, hstates⟩)
    · rw [objectFacts_eq, Sdk.Facts.object.injEq] at hfacts
      exact .inl ⟨hown, hfacts.1⟩
    · exact .inr ⟨hother, hstates⟩
  · rintro (⟨hown, he⟩ | ⟨hother, hstates⟩)
    · exact .own hown (by rw [objectFacts_eq, he])
    · exact .other hother hstates

/-! ## The connections of an object -/

/-- **The connections of an object** are those of its methods one by one, in order, whatever is
    remembered of other classes. Only eligible methods are connections, and a call that names a
    class is one exactly if that class has an endpoint that is not empty; and that is its edge. -/
theorem objectFacts_resolved (read : Path → Except OsError String) (st : Settings)
    (c : ClassDecl) :
    let sources := objectSource? read st
    let connection? := connectionOf sources c
    (objectFacts sources c).1 = .object (endpoint? c) (c.methods.filterMap connection?) ∧
    (∀ d, d.kind = .object → findClass? (read d.sourceFile).toOption d.shortName = some c →
      (reflectFrom read st d).1 = .ok (.object (endpoint? c) (c.methods.filterMap connection?))) ∧
    (∀ memo ms, Remembers sources memo →
      (connections sources c memo ms).1 = ms.filterMap connection?) ∧
    (∀ m connection, connection? m = some connection → Eligible m) ∧
    (∀ m body kind arguments connection, Eligible m → m.body? = some body →
      connectionCall? body = some (kind, arguments) → arguments.length < 4 →
      (connection? m = some connection ↔
        ∃ argument name edge, arguments.head? = some argument ∧ Refers argument name ∧
          edge ≠ "" ∧ NamedEndpoint read st c name edge ∧
          connection = ⟨capitalize m.name, some edge, documentation m, kind⟩)) := by
  refine ⟨objectFacts_eq _ c, fun d hk hc => ?_, fun memo ms h => connections_eq h ms,
    fun m connection h => eligible_of_connectionOf h, ?_⟩
  · exact (reflectFrom_object hk).2 ⟨c, hc, objectFacts_eq _ c⟩
  · intro m body kind arguments connection hm hb hcall hlength
    rw [connectionOf_reference hm hb hcall hlength]
    simp only [namedEndpoint_iff]

/-- `class Ad` with a method that fetches by the endpoint of `Campaign` -/
def adSource : String :=
  "<?php class Ad \x7b function getAll() \x7b " ++
    "$this->getManyByConnection(Campaign::class); \x7d \x7d"

/-- `class Campaign` with an endpoint -/
def campaignSource : String :=
  "<?php class Campaign \x7b function getEndpoint() \x7b return 'campaigns'; \x7d \x7d"

/-- A directory with these two classes. -/
def readAdAndCampaign (p : Path) : Except OsError String :=
  if p = objectFile .defaults "Ad" then .ok adSource
  else if p = objectFile .defaults "Campaign" then .ok campaignSource
  else .error .notFound

/-- The argument of the call -/
def adArgument : List Php.Token :=
  [⟨.name "Campaign", 1⟩, ⟨.doubleColon, 1⟩, ⟨.name "class", 1⟩]

/-- The body of the method -/
def adBody : List Php.Token :=
  [⟨.variable "this", 1⟩, ⟨.arrow, 1⟩, ⟨.name "getManyByConnection", 1⟩, ⟨.punctuation '(', 1⟩] ++
    adArgument ++ [⟨.punctuation ')', 1⟩, ⟨.punctuation ';', 1⟩]

/-- The method -/
def adMethod : MethodDecl := ⟨"getAll", none, .publicMember, false, some adBody, 1⟩

/-- The class `Ad` -/
def adClass : ClassDecl := ⟨"Ad", false, none, [], [], [adMethod], 1⟩

/-- Its connection -/
def adConnection : Sdk.Connection := ⟨"GetAll", some "campaigns", "Get all", .synchronous⟩

/-- The descriptor of an object in the directory -/
def objectDescriptor (name : String) : Sdk.Descriptor :=
  ⟨.object, name, "", "", objectFile .defaults name, none⟩

theorem objectFacts_resolved_ad :
    (reflectFrom readAdAndCampaign .defaults (objectDescriptor "Ad")).1 =
        .ok (.object (some "") [adConnection]) ∧
      Eligible adMethod ∧
      ∀ memo, Remembers (objectSource? readAdAndCampaign .defaults) memo →
        (connections (objectSource? readAdAndCampaign .defaults) adClass memo
          [adMethod, adMethod]).1 = [adConnection, adConnection] := by
  obtain ⟨-, hreflect, hconnections, heligible, hreference⟩ :=
    objectFacts_resolved readAdAndCampaign .defaults adClass
  have hendpoint : endpoint? adClass = some "" := by decide +kernel
  have hcampaign : (reflectFrom readAdAndCampaign .defaults (objectDescriptor "Campaign")).1 =
      .ok (.object (some "campaigns") []) := by decide +kernel
  have hconnection := (hreference adMethod adBody .synchronous [adArgument] adConnection
    (isCandidate_iff.1 (by decide +kernel)) rfl (by decide +kernel) (by decide)).2
    ⟨adArgument, "Campaign", "campaigns", rfl, .keyword ⟨by decide, .inl rfl⟩ (by decide +kernel),
      by decide, .other (by rw [isItself_iff]; decide +kernel)
        ⟨objectDescriptor "Campaign", [], rfl, rfl, rfl, hcampaign⟩, by decide +kernel⟩
  refine ⟨(hreflect (objectDescriptor "Ad") rfl (by decide +kernel)).trans ?_,
    heligible adMethod adConnection hconnection, fun memo h => ?_⟩
  · have hmethods : adClass.methods = [adMethod] := rfl
    simp [hendpoint, hmethods, hconnection]
  · simp [hconnections memo _ h, hconnection]

end PhpSharp.Conversion
