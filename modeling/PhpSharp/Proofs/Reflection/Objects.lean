/-
  Objects from their source: what the methods of a PHP class are written to fetch is what its
  facts say.

  * `Connects`: a body that fetches an edge, by a connection call or by a request;
  * `IsObject`: a class with an endpoint, and for each member the connection that it is;
  * `reflect_written`: these are the facts of every source that spells the class.
-/
import Mathlib.Data.List.Forall2
import Mathlib.Data.List.Infix
import Mathlib.Data.List.ReduceOption
import PhpSharp.Proofs.Php.Lexing
import PhpSharp.Proofs.Php.RoundTrip
import PhpSharp.Proofs.Reflection.Calls
import PhpSharp.Proofs.Reflection.Connections

namespace PhpSharp.Php.Written

/-! ## Sources -/

/-- The source spells the file: behind the open tag its tokens stand on their lines, with any blanks
    and comments between them, or none where none is needed. -/
def File.Spells (f : File) (source : String) : Prop :=
  ∃ (front : List Separator) (ts : List WrittenToken), Apart ts ∧
    source = "<?php" ++ String.ofList (front.flatMap Separator.text ++ joined ts) ∧
    placed (1 + lineFeeds (front.flatMap Separator.text)) ts = f.tokens

theorem File.Spells.ofSource {f : File} {source : String} (h : f.Spells source) :
    ClassFile.ofSource source = .ok f.classFile := by
  obtain ⟨front, ts, hapart, rfl, hplaced⟩ := h
  rw [ClassFile.ofSource, tokenize_joined front hapart, hplaced]
  exact ofTokens_tokens f

/-- The first class of a name. -/
theorem File.class?_classFile {f : File} {c : Class} {above below : List TopLevel}
    (hf : f.items = above ++ .classes c :: below)
    (hfirst : ∀ c', .classes c' ∈ above → c'.name.text ≠ c.name.text) :
    f.classFile.class? c.name.text = some c.decl := by
  have habove : (above.filterMap TopLevel.class?).find? (fun d => d.name == c.name.text) =
      none := by
    rw [List.find?_eq_none]
    intro d hd
    obtain ⟨item, hitem, hclass⟩ := List.mem_filterMap.1 hd
    cases item <;> cases hclass
    simpa [Class.decl] using hfirst _ hitem
  rw [ClassFile.class?, File.classFile, hf, List.filterMap_append, List.find?_append, habove]
  simp [TopLevel.class?, Class.decl]

end PhpSharp.Php.Written

namespace PhpSharp.Php

instance (cs : List Char) : Decidable (IsDocText cs) :=
  decidable_of_iff (['/', '*', '*'] <+: cs ∧ cs[3]? ≠ some '/' ∧ ['*', '/'] <:+ cs ∧
      ¬['*', '/'] <:+: (cs.drop 2).dropLast)
    ⟨fun ⟨opens, fourth, closes, once⟩ => ⟨opens, fourth, closes, once⟩,
      fun h => ⟨h.opens, h.fourth, h.closes, h.once⟩⟩

instance : DecidablePred TokenKind.Valid
  | .name text => inferInstanceAs (Decidable (isNameText text.toList = true))
  | .variable text => inferInstanceAs (Decidable
      (isNameText text.toList = true ∧ text.toList.head? ≠ some '\\'))
  | .number text => inferInstanceAs (Decidable (isNumberText text.toList = true))
  | .docComment text => inferInstanceAs (Decidable (IsDocText text.toList))
  | .punctuation c => inferInstanceAs (Decidable (isMark c = true))
  | .string _ | .arrow | .doubleColon | .doubleArrow => .isTrue trivial

end PhpSharp.Php

namespace PhpSharp.Reflection

open Php (Token MethodDecl ClassDecl IsLastSegment)
open Php.Written (Keyword Mark Member File TopLevel)

/-! ## Bodies -/

/-- The name of a method that fetches. -/
def callName (isMany isAsync : Bool) : String :=
  (if isMany then "getManyByConnection" else "getOneByConnection") ++
    if isAsync then "Async" else ""

/-- The kind of what it fetches. -/
def callKind (isAsync : Bool) : Sdk.ConnectionKind :=
  if isAsync then .asynchronous else .synchronous

/-- A body that fetches an edge, and of which kind that connection is. -/
inductive Connects : List Token → Sdk.ConnectionKind → String → Prop
  /-- `… $this->getManyByConnection(a, b, c, 'edge', …) …` -/
  | call {front arguments inside after l₁ l₂ l₃ l₄ edge} {isMany isAsync : Bool}
      {call : Keyword (callName isMany isAsync)} {closing : Mark ')'} :
      ¬Has ConnectionHead front → ArgumentList arguments inside →
      arguments[3]? = some [⟨.string edge, l₄⟩] →
      Connects (front ++ ([⟨.variable "this", l₁⟩, ⟨.arrow, l₂⟩, call.token,
        ⟨.punctuation '(', l₃⟩] ++ (inside ++ closing.token :: after))) (callKind isAsync) edge
  /-- `… new ApiRequest(a, b, RequestInterface::METHOD_GET, '/edge', …) …` in a body without a
      connection call -/
  | request {body front head arguments inside after scope segment l₁ l₂ l₃ edge}
      {get : Keyword "METHOD_GET"} {closing : Mark ')'} :
      ¬Has ConnectionHead body → ¬Has RequestHead front → RequestHead head () →
      ArgumentList arguments inside → IsLastSegment segment scope →
      Text.sameLetters segment "RequestInterface" = true →
      arguments[2]? = some [⟨.name scope, l₁⟩, ⟨.doubleColon, l₂⟩, get.token] →
      arguments[3]? = some [⟨.string ("/" ++ edge), l₃⟩] → edge ≠ "" →
      edge.toList.head? ≠ some '/' → body = front ++ (head ++ (inside ++ closing.token :: after)) →
      Connects body .synchronous edge

theorem connectionKind?_call {isMany isAsync : Bool} (call : Keyword (callName isMany isAsync)) :
    connectionKind? call.text = some (callKind isAsync) := by
  have hcongr : ∀ name : String, Text.sameLetters name call.text =
      Text.sameLetters name (callName isMany isAsync) := fun name => by
    simp only [Text.sameLetters, eq_of_beq call.spells]
  simp only [connectionKind?, hcongr]
  cases isMany <;> cases isAsync <;> decide

theorem evaluated_string (s : Php.Scope) (value : String) (line : Nat) :
    evaluated s [⟨.string value, line⟩] = .ok value := by
  rw [evaluated, Php.Scope.evaluate_eq_ok_iff.2 (.single .string)]

/-- A path of one slash and an edge is that edge. -/
theorem requestedEdge_path {s : Php.Scope} {arguments : List (List Token)} {method : List Token}
    {edge : String} {line : Nat} (hmethod : arguments[2]? = some method)
    (hget : isGet method = true)
    (hpath : arguments[3]? = some [⟨.string ("/" ++ edge), line⟩]) (hne : edge ≠ "")
    (hslash : edge.toList.head? ≠ some '/') : requestedEdge s arguments = .ok edge := by
  have hdrop : ("/" ++ edge).toList.dropWhile (· = '/') = edge.toList := by
    rw [String.toList_append]
    cases he : edge.toList with
    | nil => exact absurd (String.toList_inj.1 he) hne
    | cons c cs =>
      have hc : c ≠ '/' := fun h => hslash (by rw [he, h]; rfl)
      simp [hc]
  simp only [requestedEdge, hmethod, hget, hpath, evaluated_string, hdrop, if_true]
  cases he : edge.toList with
  | nil => exact absurd (String.toList_inj.1 he) hne
  | cons c cs => exact congrArg Except.ok (by rw [← he, String.ofList_toList])

/-- **A body that fetches an edge** is found to, wherever it stands. -/
theorem Connects.edgeSource {body : List Token} {kind : Sdk.ConnectionKind} {edge : String}
    (h : Connects body kind edge) :
    ∃ source, edgeSource? body = some (kind, source) ∧
      ∀ s own? other?, Reflection.edge s own? other? source = .ok edge := by
  cases h with
  | @call front arguments inside after l₁ l₂ l₃ l₄ _ _ _ call closing hfront hlist hedge =>
    have hhead : ConnectionHead [⟨.variable "this", l₁⟩, ⟨.arrow, l₂⟩, call.token,
        ⟨.punctuation '(', l₃⟩] _ := .mk (connectionKind?_call call)
    have hclose : closing.token.closes? = some .parenthesis := rfl
    have hcall := connectionCall?_call hfront hhead hlist hclose after
    refine ⟨.expression [⟨.string edge, l₄⟩], ?_, fun s own? other? => evaluated_string ..⟩
    simp only [edgeSource?, hcall, hedge]
  | @request _ front head arguments inside after scope segment l₁ l₂ l₃ _ get closing hbody hfront
      hhead hlist hscope hinterface hmethod hpath hne hslash he =>
    have hcall := connectionCall?_search.eq_none_iff.2 hbody
    have hclose : closing.token.closes? = some .parenthesis := rfl
    have hrequest := request?_call hfront hhead hlist hclose after
    rw [← he] at hrequest
    have hword : get.token.isName "METHOD_GET" = true :=
      (get.isName_token _).trans (beq_self_eq_true _)
    have hget : isGet [⟨.name scope, l₁⟩, ⟨.doubleColon, l₂⟩, get.token] = true := by
      simp only [isGet, Token.name?, Option.any_some, Php.unqualified_eq_iff.2 hscope, hinterface,
        hword, Bool.and_self]
    refine ⟨.request arguments, ?_, fun s own? other? =>
      requestedEdge_path hmethod hget hpath hne hslash⟩
    simp only [edgeSource?, hcall, hrequest, Option.map_some]

/-! ## Members -/

/-- The method `getEndpoint` with the body `return 'endpoint';` -/
def ReturnsEndpoint (endpoint : String) (m : MethodDecl) : Prop :=
  Text.sameLetters m.name "getEndpoint" = true ∧
    ∃ (word : Keyword "return") (line : Nat) (stop : Mark ';'),
      m.body? = some [word.token, ⟨.string endpoint, line⟩, stop.token]

/-- A member of an object with an endpoint, and the connection that it is, if it is one. -/
inductive Declares (endpoint : String) : Member → Option Sdk.Connection → Prop
  /-- A public method with a body that fetches an edge -/
  | connection {member m body kind edge} : member.method? = some m → Eligible m →
      m.body? = some body → Connects body kind edge →
      Declares endpoint member (some ⟨capitalize m.name, some edge,
        (m.doc?.bind summary?).getD (humanize m.name), kind⟩)
  | endpoint {member m} : member.method? = some m → ReturnsEndpoint endpoint m →
      Declares endpoint member none
  /-- A method that is static, not public, without a body or magic -/
  | method {member m} : member.method? = some m →
      Text.sameLetters m.name "getEndpoint" = false → ¬Eligible m → Declares endpoint member none
  /-- A property, constants or traits -/
  | other {member} : member.method? = none → Declares endpoint member none

/-- A class with an endpoint, and for each of its members the connection that it is. -/
structure IsObject (c : Php.Written.Class) (endpoint : String)
    (found : List (Option Sdk.Connection)) : Prop where
  members : List.Forall₂ (Declares endpoint) c.members found
  returns : ∃ member ∈ c.members, ∃ m, member.method? = some m ∧ ReturnsEndpoint endpoint m

variable {sources : String → Option String} {endpoint : String}

theorem Declares.connectionOf {c : ClassDecl} {member : Member} {found? : Option Sdk.Connection}
    (h : Declares endpoint member found?) :
    member.method?.bind (connectionOf sources c) = found? := by
  have hnone : ∀ m, ¬Eligible m → Reflection.connectionOf sources c m = none := fun m hm =>
    Option.eq_none_iff_forall_ne_some.2 fun _ h => hm (eligible_of_connectionOf h)
  cases h with
  | @connection m body kind edge hm heligible hbody hconnects =>
    obtain ⟨source, hsource, hedge⟩ := hconnects.edgeSource
    have hfound := connectionSource?_eq_some_iff.2 ⟨body, hbody, heligible, hsource⟩
    rw [hm, Option.bind_some, connectionOf_source hfound, hedge]
    rfl
  | endpoint hm hreturns =>
    rw [hm, Option.bind_some]
    exact hnone _ fun h => absurd (hreturns.1.symm.trans h.notEndpoint) (by decide)
  | method hm _ heligible =>
    rw [hm, Option.bind_some]
    exact hnone _ heligible
  | other hm => rw [hm, Option.bind_none]

/-- The method that is called `getEndpoint` returns the endpoint. -/
theorem Declares.returns {member : Member} {found? : Option Sdk.Connection} {m : MethodDecl}
    (h : Declares endpoint member found?) (hm : member.method? = some m)
    (hname : Text.sameLetters m.name "getEndpoint" = true) : ReturnsEndpoint endpoint m := by
  cases h with
  | connection hm' heligible =>
    cases hm.symm.trans hm'
    exact absurd (hname.symm.trans heligible.notEndpoint) (by decide)
  | endpoint hm' hreturns =>
    cases hm.symm.trans hm'
    exact hreturns
  | method hm' hother =>
    cases hm.symm.trans hm'
    exact absurd (hname.symm.trans hother) (by decide)
  | other hm' => cases hm.symm.trans hm'

theorem ReturnsEndpoint.endpoint? {c : ClassDecl} {m : MethodDecl} (h : ReturnsEndpoint endpoint m)
    (hm : c.method? "getEndpoint" = some m) : Reflection.endpoint? c = some endpoint := by
  obtain ⟨-, word, line, stop, hbody⟩ := h
  have hreturned : returned? [word.token, ⟨.string endpoint, line⟩, stop.token] =
      some [⟨.string endpoint, line⟩] := by
    simp [returned?, Text.sameLetters]
  rw [Reflection.endpoint?, hm]
  simp only [hbody, Option.bind_some, hreturned, Php.Scope.evaluate_eq_ok_iff.2 (.single .string)]
  rfl

variable {c : Php.Written.Class} {found : List (Option Sdk.Connection)}

theorem IsObject.endpoint? (h : IsObject c endpoint found) :
    Reflection.endpoint? c.decl = some endpoint := by
  -- there is a method of that name, and whichever is the first of them returns the endpoint
  obtain ⟨member, hmember, m, hm, hname, -⟩ := h.returns
  have hmethod : m ∈ c.decl.methods := List.mem_filterMap.2 ⟨member, hmember, hm⟩
  obtain ⟨first, hfirst⟩ := Option.isSome_iff_exists.1
    (List.find?_isSome.2 ⟨m, hmethod, hname⟩ : (c.decl.method? "getEndpoint").isSome = true)
  obtain ⟨member', hmember', hm'⟩ := List.mem_filterMap.1 (List.mem_of_find?_eq_some hfirst)
  have hreturns := ((List.forall₂_and_left _ _).1 (h.members.imp (S := fun member _ =>
    (∀ m, member.method? = some m → Text.sameLetters m.name "getEndpoint" = true →
      ReturnsEndpoint endpoint m) ∧ True)
    fun _ _ hdeclares => ⟨fun m => hdeclares.returns, trivial⟩)).1
  have hfound := List.find?_some hfirst
  exact (hreturns member' hmember' first hm' hfound).endpoint? hfirst

theorem IsObject.connections (h : IsObject c endpoint found) :
    c.decl.methods.filterMap (connectionOf sources c.decl) = found.reduceOption := by
  have hmap : List.Forall₂
      (fun member found? => member.method?.bind (connectionOf sources c.decl) = found?)
      c.members found := h.members.imp fun _ _ hdeclares => hdeclares.connectionOf
  rw [← List.forall₂_map_left_iff, List.forall₂_eq_eq_eq] at hmap
  rw [← hmap, List.reduceOption, List.filterMap_map, Php.Written.Class.decl,
    List.filterMap_filterMap]
  rfl

/-- **The facts of an object are what its source spells**: its endpoint, and the connections of
    its methods in order. -/
theorem reflect_written {expected : Sdk.PerKind String} {d : Sdk.Descriptor} (hk : d.kind = .object)
    {f : File} {source : String} (hs : f.Spells source) {above below : List TopLevel}
    (hf : f.items = above ++ .classes c :: below) (hname : c.name.text = d.shortName)
    (hfirst : ∀ c', .classes c' ∈ above → c'.name.text ≠ d.shortName)
    (h : IsObject c endpoint found) :
    (reflect expected sources d source).1 = .ok (.object (some endpoint) found.reduceOption) := by
  have hclass : findClass? (some source) d.shortName = some c.decl := by
    rw [findClass?, Option.bind_some, hs.ofSource, ← hname]
    exact File.class?_classFile hf (hname ▸ hfirst)
  refine (reflect_object_eq_ok_iff hk).2 ⟨c.decl, hclass, ?_⟩
  rw [objectFacts_eq, h.endpoint?, h.connections]

/-! ## A class on one line, the second of its file -/

/-- Tokens on the second line. -/
def onSecondLine (kinds : List Php.TokenKind) : List Token := kinds.map (⟨·, 2⟩)

/-- A method without parameters on the second line. -/
def shortMethod (lead : Php.Written.Lead) (name : String) (body : List Token)
    (nested : Php.WellNested body) : Member where
  lead := lead
  item := .method {
    keyword := .plain "function" 2
    reference? := none
    name := ⟨name, 2⟩
    opening := ⟨2⟩
    parameters := []
    parameters_nested := .nil
    closing := ⟨2⟩
    result := []
    result_plain := by simp
    body := .block ⟨2⟩ body nested ⟨2⟩ }

/-- `return 'ads';` -/
def endpointBody : List Token := onSecondLine [.name "return", .string "ads", .punctuation ';']

/-- `Ad::class, $a, $b, 'ads'` -/
def callArguments : List Token :=
  onSecondLine [.name "Ad", .doubleColon, .name "class", .punctuation ',', .variable "a",
    .punctuation ',', .variable "b", .punctuation ',', .string "ads"]

/-- `$this->getManyByConnectionAsync(Ad::class, $a, $b, 'ads');` -/
def callBody : List Token :=
  onSecondLine [.variable "this", .arrow, .name "getManyByConnectionAsync"] ++
    (⟨.punctuation '(', 2⟩ :: callArguments ++ ⟨.punctuation ')', 2⟩ ::
      onSecondLine [.punctuation ';'])

/-- `$this->data['id']` -/
def dataArgument : List Token :=
  onSecondLine [.variable "this", .arrow, .name "data"] ++
    (⟨.punctuation '[', 2⟩ :: onSecondLine [.string "id"] ++ ⟨.punctuation ']', 2⟩ :: [])

/-- `$this->api, $this->data['id'], RequestInterface::METHOD_GET, '/user'` -/
def requestArguments : List Token :=
  onSecondLine [.variable "this", .arrow, .name "api", .punctuation ','] ++ (dataArgument ++
    onSecondLine [.punctuation ',', .name "RequestInterface", .doubleColon, .name "METHOD_GET",
      .punctuation ',', .string "/user"])

/-- `new ApiRequest($this->api, $this->data['id'], RequestInterface::METHOD_GET, '/user');` -/
def requestBody : List Token :=
  onSecondLine [.name "new", .name "ApiRequest"] ++
    (⟨.punctuation '(', 2⟩ :: requestArguments ++ ⟨.punctuation ')', 2⟩ ::
      onSecondLine [.punctuation ';'])

theorem nested_plain {p : Token → Prop} {ts : List Token}
    (h : ∀ t ∈ ts, t.opens? = none ∧ t.closes? = none ∧ p t) : Php.Nested p ts := by
  induction ts with
  | nil => exact .nil
  | cons t ts ih =>
    obtain ⟨ho, hc, ht⟩ := h t List.mem_cons_self
    exact .plain ho hc ht (ih fun u hu => h u (List.mem_cons_of_mem t hu))

theorem nested_callBody : Php.WellNested callBody :=
  (nested_plain (by decide)).append
    (.block rfl rfl (nested_plain (by decide)) (nested_plain (by decide)))

theorem nested_dataArgument : Php.Nested NoComma dataArgument :=
  (nested_plain (by decide)).append (.block rfl rfl (nested_plain (by decide)) .nil)

theorem nested_requestArguments : Php.WellNested requestArguments :=
  (nested_plain (by decide)).append
    ((nested_dataArgument.imp fun _ _ => trivial).append (nested_plain (by decide)))

theorem nested_requestBody : Php.WellNested requestBody :=
  (nested_plain (by decide)).append
    (.block rfl rfl nested_requestArguments (nested_plain (by decide)))

theorem argumentList_callArguments :
    ArgumentList [onSecondLine [.name "Ad", .doubleColon, .name "class"],
      onSecondLine [.variable "a"], onSecondLine [.variable "b"],
      onSecondLine [.string "ads"]] callArguments :=
  .cons (nested_plain (by decide)) (.cons (nested_plain (by decide))
    (.cons (nested_plain (by decide)) (.last (by decide) (nested_plain (by decide)))))

theorem connects_callBody : Connects callBody .asynchronous "ads" :=
  @Connects.call [] _ callArguments (onSecondLine [.punctuation ';']) 2 2 2 2 "ads" true true
    (.plain "getManyByConnectionAsync" 2) ⟨2⟩ (connectionCall?_search.eq_none_iff.1 rfl)
    argumentList_callArguments rfl

theorem connects_requestBody : Connects requestBody .synchronous "user" := by
  refine @Connects.request _ [] (onSecondLine [.name "new", .name "ApiRequest", .punctuation '('])
    [onSecondLine [.variable "this", .arrow, .name "api"], dataArgument,
      onSecondLine [.name "RequestInterface", .doubleColon, .name "METHOD_GET"],
      onSecondLine [.string "/user"]]
    requestArguments (onSecondLine [.punctuation ';']) "RequestInterface" "RequestInterface" 2 2 2
    "user" (.plain "METHOD_GET" 2) ⟨2⟩ (connectionCall?_search.eq_none_iff.1 rfl)
    (request?_search.eq_none_iff.1 rfl) (.mk (by decide) ⟨by decide, .inl rfl⟩ (by decide)) ?_
    ⟨by decide, .inl rfl⟩ (by decide) rfl rfl (by decide) (by decide) rfl
  exact .cons (nested_plain (by decide)) (.cons nested_dataArgument
    (.cons (nested_plain (by decide)) (.last (by decide) (nested_plain (by decide)))))

/-- A class with a property, `getEndpoint`, a static method and two that fetch. -/
def adClass : Php.Written.Class where
  modifiers := []
  atMostTwo := by decide
  keyword := .plain "class" 2
  name := ⟨"Ad", 2⟩
  parent? := none
  interfaces? := none
  opening := ⟨2⟩
  members := [
    ⟨⟨none, [.visible .publicMember (.plain "public" 2)], by decide⟩,
      .property ⟨[], .nil, by simp, "id", 2, none, ⟨2⟩⟩⟩,
    shortMethod ⟨none, [], by decide⟩ "getEndpoint" endpointBody (nested_plain (by decide)),
    shortMethod ⟨none, [.isStatic (.plain "static" 2)], by decide⟩ "all" callBody nested_callBody,
    shortMethod ⟨some ⟨"/** Fetches all. */", 2⟩, [], by decide⟩ "getAds" callBody nested_callBody,
    shortMethod ⟨none, [], by decide⟩ "getUser" requestBody nested_requestBody]
  closing := ⟨2⟩

/-- The connections of its members -/
def adFound : List (Option Sdk.Connection) :=
  [none, none, none, some ⟨"GetAds", some "ads", "Fetches all", .asynchronous⟩,
    some ⟨"GetUser", some "user", "Get user", .synchronous⟩]

theorem isObject_adClass : IsObject adClass "ads" adFound where
  members := by
    have hstatic : ¬Eligible ⟨"all", none, .publicMember, true, some callBody, 2⟩ := fun h =>
      nomatch h.notStatic
    refine .cons (.other rfl) (.cons (.endpoint rfl ⟨by decide, .plain "return" 2, 2, ⟨2⟩, rfl⟩)
      (.cons (.method rfl (by decide) hstatic) (.cons ?_ (.cons ?_ .nil))))
    · exact .connection (m := ⟨"getAds", some "/** Fetches all. */", .publicMember, false, _, 2⟩)
        rfl (isCandidate_iff.1 (by decide)) rfl connects_callBody
    · exact .connection (m := ⟨"getUser", none, .publicMember, false, some requestBody, 2⟩)
        rfl (isCandidate_iff.1 (by decide)) rfl connects_requestBody
  returns := ⟨_, List.mem_cons_of_mem _ List.mem_cons_self, _, rfl, by decide, .plain "return" 2, 2,
    ⟨2⟩, rfl⟩

/-- The file with that class. -/
def adFile : File := ⟨none, [.classes adClass]⟩

/-- Whether a blank stands between two tokens: behind a word that another, a variable or a string
    follows. -/
def isSpaced : Php.TokenKind → Php.TokenKind → Bool
  | .name _, .name _ | .name _, .variable _ | .name _, .string _ => true
  | _, _ => false

/-- Tokens without other blanks between them. -/
def packed (kinds : List Php.TokenKind) (valid : ∀ kind ∈ kinds, kind.Valid) :
    List Php.WrittenToken :=
  (kinds.pmap Subtype.mk valid).foldr (fun k ts => ⟨k.1, k.2, .single,
    if ts.head?.any (isSpaced k.1 ·.kind) then [.blank ' ' rfl] else []⟩ :: ts) []

/-- Its tokens as they are written -/
def adTokens : List Php.WrittenToken := packed (adFile.tokens.map Token.kind) (by decide +kernel)

/-- Its text -/
def adText : String :=
  "<?php\nclass Ad\x7bpublic $id;function getEndpoint()\x7breturn 'ads';\x7d" ++
    "static function all()\x7b$this->getManyByConnectionAsync(Ad::class,$a,$b,'ads');\x7d" ++
    "/** Fetches all. */function getAds()\x7b" ++
    "$this->getManyByConnectionAsync(Ad::class,$a,$b,'ads');\x7dfunction getUser()\x7b" ++
    "new ApiRequest($this->api,$this->data['id'],RequestInterface::METHOD_GET,'/user');\x7d\x7d"

theorem reflect_written_ad :
    (reflect ⟨"", "", ""⟩ (fun _ => none) ⟨.object, "Ad", "", "", ⟨"Ad.php"⟩, none⟩ adText).1 =
      .ok (.object (some "ads") [⟨"GetAds", some "ads", "Fetches all", .asynchronous⟩,
        ⟨"GetUser", some "user", "Get user", .synchronous⟩]) :=
  have hspells : adFile.Spells adText :=
    ⟨[.blank '\n' rfl], adTokens, by decide +kernel, by decide +kernel, by decide +kernel⟩
  @reflect_written _ _ adClass adFound _ _ rfl adFile adText hspells [] [] rfl rfl
    (fun _ h => absurd h List.not_mem_nil) isObject_adClass

end PhpSharp.Reflection
