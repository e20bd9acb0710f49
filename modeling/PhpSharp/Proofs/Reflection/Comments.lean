/-
  What documentation comments do to the facts of a class where they document nothing.

  * `FactsCommented`: with comments in them, values and bodies that are read are lost, and what is
    not read stays as it is;
  * `Undisturbed`: no comment stands in the call that a body is read for, nor in an argument that
    is read;
  * `facts_commented`: this is so for every file and all comments in it.
-/
import PhpSharp.Proofs.Php.Outline
import PhpSharp.Proofs.Reflection.Endpoint
import PhpSharp.Proofs.Reflection.Objects

namespace PhpSharp.Php

theorem Commented.append_right {ts us vs : List Token} (h : Commented ts (us ++ vs)) :
    ∃ ts₁ ts₂, ts = ts₁ ++ ts₂ ∧ Commented ts₁ us ∧ Commented ts₂ vs := by
  induction us generalizing ts with
  | nil => exact ⟨[], ts, rfl, .nil, h⟩
  | cons u us ih =>
    cases h with
    | keep h =>
      obtain ⟨ts₁, ts₂, rfl, h₁, h₂⟩ := ih h
      exact ⟨u :: ts₁, ts₂, rfl, .keep h₁, h₂⟩
    | insert hc h =>
      obtain ⟨ts₁, ts₂, rfl, h₁, h₂⟩ := ih h
      exact ⟨ts₁, ts₂, rfl, .insert hc h₁, h₂⟩

instance : DecidablePred Token.IsComment
  | ⟨.docComment text, _⟩ => .isTrue ⟨text, rfl⟩
  | ⟨.name _, _⟩ | ⟨.variable _, _⟩ | ⟨.string _, _⟩ | ⟨.number _, _⟩ | ⟨.arrow, _⟩
  | ⟨.doubleColon, _⟩ | ⟨.doubleArrow, _⟩ | ⟨.punctuation _, _⟩ => .isFalse fun ⟨_, h⟩ => nomatch h

instance : DecidablePred IsPlain := fun ts =>
  inferInstanceAs (Decidable (∀ t ∈ ts, ¬t.IsComment))

/-- A phrase has no comment in it. -/
theorem Scope.Derives.isPlain {s : Scope} {phrase : Phrase} {ts : List Token} {value : String}
    (h : s.Derives phrase ts value) : IsPlain ts := by
  induction h with
  | single _ ih => exact ih
  | group _ ih => simpa using ih
  | concat _ _ ih ih' => simpa using ⟨ih, ih'⟩
  | _ => simp

/-- An expression with a value has no comment in it. -/
theorem Scope.evaluate_isPlain {s : Scope} {ts : List Token} {value : String}
    (h : s.evaluate ts = .ok value) : IsPlain ts :=
  (Scope.evaluate_eq_ok_iff.1 h).isPlain

end PhpSharp.Php

namespace PhpSharp.Reflection

open Php (Token ClassDecl MethodDecl ConstantDecl Commented IsPlain)

/-! ## Constants -/

theorem declareAll_commented {className : String} {known constants : Sdk.Constants}
    {ds ds' : List ConstantDecl} (h : List.Forall₂ ConstantDecl.Commented ds ds') :
    declareAll className known ds' = .ok constants ↔
      ds' = ds ∧ declareAll className known ds = .ok constants := by
  suffices hsame : declareAll className known ds' = .ok constants → ds' = ds from
    ⟨fun h' => ⟨hsame h', hsame h' ▸ h'⟩, fun ⟨he, h'⟩ => he ▸ h'⟩
  intro h'
  induction h generalizing known with
  | nil => rfl
  | cons hd _ ih =>
    obtain ⟨hvalue⟩ := hd
    rw [declareAll] at h'
    split at h'
    · cases h'
    · rename_i heval
      split at h'
      · cases h'
      · rw [hvalue.eq_of_isPlain (Php.Scope.evaluate_isPlain heval), ih h']

/-- **A constant with a comment in its value is as good as not declared.** -/
theorem declareEach_filter (className : String) (known : Sdk.Constants) (ds : List ConstantDecl) :
    declareEach className known (ds.filter fun d => IsPlain d.value) =
      declareEach className known ds := by
  induction ds generalizing known with
  | nil => rfl
  | cons d ds ih =>
    by_cases hplain : IsPlain d.value
    · rw [List.filter_cons_of_pos (by simpa using hplain)]
      simp only [declareEach, ih]
    · rw [List.filter_cons_of_neg (by simpa using hplain), ih, declareEach]
      cases heval : Php.Scope.evaluate ⟨className, known⟩ d.value with
      | ok value => exact absurd (Php.Scope.evaluate_isPlain heval) hplain
      | error fault => rfl

/-! ## Endpoints -/

/-- With a comment in its body, `getEndpoint` returns nothing that is known. -/
theorem endpoint?_comment {c : ClassDecl} {m : MethodDecl} {body : List Token}
    (hm : c.method? "getEndpoint" = some m) (hbody : m.body? = some body) (hc : ¬IsPlain body) :
    endpoint? c = none := by
  rw [endpoint?, hm]
  simp only [hbody, Option.bind_some, Option.bind_eq_none_iff]
  intro expression hreturned
  obtain ⟨word, stop, hword, hstop, rfl⟩ := returned?_eq_some_iff.1 hreturned
  cases heval : Php.Scope.evaluate ⟨c.name, knownConstants c⟩ expression with
  | error fault => rfl
  | ok value =>
    have hplain := Php.Scope.evaluate_isPlain heval
    have hfirst : ¬word.IsComment := fun h => by simp [h.isName] at hword
    have hlast : ¬stop.IsComment := fun h => by simp [h.isPunctuation] at hstop
    exact absurd (by simp [hfirst, hplain, hlast]) hc

/-! ## Calls -/

/-- Comments make no head. -/
theorem Has.of_commented {κ : Type} {Head : List Token → κ → Prop}
    (hplain : ∀ head k, Head head k → IsPlain head) {ts us : List Token} (h : Commented ts us) :
    Has Head us → Has Head ts := by
  rintro ⟨head, k, hhead, before, after, rfl⟩
  obtain ⟨_, _, rfl, h', -⟩ := h.append_right
  obtain ⟨before', head', rfl, -, hhead'⟩ := h'.append_right
  obtain rfl := hhead'.eq_of_isPlain (hplain head k hhead)
  exact ⟨head, k, hhead, before', _, rfl⟩

theorem ConnectionHead.isPlain {head : List Token} {kind : Sdk.ConnectionKind}
    (h : ConnectionHead head kind) : IsPlain head := by
  obtain ⟨-⟩ := h
  simp

theorem RequestHead.isPlain {head : List Token} {k : Unit} (h : RequestHead head k) :
    IsPlain head := by
  obtain ⟨-, -, -⟩ := h
  simp

/-- The arguments that an edge is read from. -/
def EdgeSource.read : EdgeSource → List (List Token)
  | .expression tokens => [tokens]
  | .reference argument? => argument?.toList
  | .request arguments => arguments[2]?.toList ++ arguments[3]?.toList

theorem Refers.isPlain {argument : List Token} {name : String} (h : Refers argument name) :
    IsPlain argument := by
  cases h <;> simp

theorem isGet_isPlain {argument : List Token} (h : isGet argument = true) : IsPlain argument := by
  unfold isGet at h
  split at h
  · rename_i scope line name
    obtain ⟨hscope, hname⟩ := Bool.and_eq_true_iff.1 h
    have hplain : ¬scope.IsComment := fun hc => by simp [hc.name?] at hscope
    have hplain' : ¬name.IsComment := fun hc => by simp [hc.isName] at hname
    simp [hplain, hplain']
  · simp
  · cases h

theorem evaluated_isPlain {s : Php.Scope} {expression : List Token} {value : String}
    (h : evaluated s expression = .ok value) : IsPlain expression := by
  unfold evaluated at h
  split at h
  · exact Php.Scope.evaluate_isPlain ‹_›
  · cases h

theorem exists_of_requestedEdge {s : Php.Scope} {arguments : List (List Token)} {value : String}
    (h : requestedEdge s arguments = .ok value) :
    ∃ method path, arguments[2]? = some method ∧ arguments[3]? = some path ∧
      isGet method = true ∧ ∃ v, evaluated s path = .ok v := by
  unfold requestedEdge at h
  split at h
  · cases h
  rename_i method hmethod
  split at h
  · rename_i hget
    split at h
    · cases h
    rename_i path hpath
    split at h
    · cases h
    exact ⟨method, path, hmethod, hpath, hget, _, ‹_›⟩
  · cases h

/-- **An edge is never read from an argument with a comment in it.** -/
theorem isPlain_of_edge {s : Php.Scope} {own? : Option String} {other? : String → Option String}
    {source : EdgeSource} {value : String} (h : edge s own? other? source = .ok value) :
    ∀ argument ∈ source.read, IsPlain argument := by
  cases source with
  | expression tokens => exact List.forall_mem_singleton.2 (evaluated_isPlain h)
  | reference argument? =>
    obtain ⟨argument, name, rfl, hrefers, -⟩ := edge_reference_eq_ok_iff.1 h
    exact List.forall_mem_singleton.2 hrefers.isPlain
  | request arguments =>
    obtain ⟨method, path, hmethod, hpath, hget, v, hv⟩ := exists_of_requestedEdge h
    simp only [EdgeSource.read, hmethod, hpath, Option.toList_some, List.singleton_append]
    exact List.forall_mem_cons.2 ⟨isGet_isPlain hget,
      List.forall_mem_singleton.2 (evaluated_isPlain hv)⟩

/-! ## What is not read -/

/-- A body, and the same with comments that disturb nothing. -/
inductive Undisturbed : List Token → List Token → Prop
  | same {body} : Undisturbed body body
  /-- The first connection call and the argument that it reads are as they were. -/
  | call {front front' head kind arguments arguments' inside inside' after after' line line'} :
      ¬Has ConnectionHead front → Commented front front' → ConnectionHead head kind →
      ArgumentList arguments inside → ArgumentList arguments' inside' →
      arguments'[3]? = arguments[3]? →
      (arguments[3]? = none → arguments'.head? = arguments.head?) →
      Undisturbed (front ++ (head ++ (inside ++ ⟨.punctuation ')', line⟩ :: after)))
        (front' ++ (head ++ (inside' ++ ⟨.punctuation ')', line'⟩ :: after')))
  /-- There is no connection call, and the first request and the arguments that it reads are as
      they were. -/
  | request {body body' front front' head arguments arguments' inside inside' after after' line
      line'} :
      ¬Has ConnectionHead body → Commented body body' → ¬Has RequestHead front →
      Commented front front' → RequestHead head () →
      ArgumentList arguments inside → ArgumentList arguments' inside' →
      arguments'[2]? = arguments[2]? → arguments'[3]? = arguments[3]? →
      body = front ++ (head ++ (inside ++ ⟨.punctuation ')', line⟩ :: after)) →
      body' = front' ++ (head ++ (inside' ++ ⟨.punctuation ')', line'⟩ :: after')) →
      Undisturbed body body'
  /-- There is neither. -/
  | none {body body'} : ¬Has ConnectionHead body → ¬Has RequestHead body → Commented body body' →
      Undisturbed body body'

/-- Two ways of fetching that are of one kind and give one edge. -/
def SameEdge (found found' : Sdk.ConnectionKind × EdgeSource) : Prop :=
  found'.1 = found.1 ∧ ∀ s own? other?, edge s own? other? found'.2 = edge s own? other? found.2

theorem requestedEdge_congr {s : Php.Scope} {arguments arguments' : List (List Token)}
    (hmethod : arguments'[2]? = arguments[2]?) (hpath : arguments'[3]? = arguments[3]?) :
    requestedEdge s arguments' = requestedEdge s arguments := by
  simp only [requestedEdge, hmethod, hpath]

/-- **What is not read is not missed.** -/
theorem Undisturbed.edgeSource {body body' : List Token} (h : Undisturbed body body') :
    Option.Rel SameEdge (edgeSource? body) (edgeSource? body') := by
  have hcall : ∀ {ts us : List Token}, Commented ts us → ¬Has ConnectionHead ts →
      ¬Has ConnectionHead us := fun hcommented hts hus =>
    hts (Has.of_commented (fun _ _ h => h.isPlain) hcommented hus)
  have hrequest : ∀ {ts us : List Token}, Commented ts us → ¬Has RequestHead ts →
      ¬Has RequestHead us := fun hcommented hts hus =>
    hts (Has.of_commented (fun _ _ h => h.isPlain) hcommented hus)
  have hclose : ∀ line, (⟨.punctuation ')', line⟩ : Token).closes? = some .parenthesis :=
    fun _ => rfl
  cases h with
  | same =>
    cases edgeSource? body with
    | none => exact .none
    | some found => exact .some ⟨rfl, fun _ _ _ => rfl⟩
  | call hfront hcommented hhead hlist hlist' hedge hfirst =>
    simp only [edgeSource?, connectionCall?_call hfront hhead hlist (hclose _),
      connectionCall?_call (hcall hcommented hfront) hhead hlist' (hclose _), hedge]
    split
    · exact .some ⟨rfl, fun _ _ _ => rfl⟩
    · rename_i hnone
      rw [hfirst hnone]
      exact .some ⟨rfl, fun _ _ _ => rfl⟩
  | request hbody hcommented hfront hcommented' hhead hlist hlist' hmethod hpath he he' =>
    simp only [edgeSource?, connectionCall?_search.eq_none_iff.2 hbody,
      connectionCall?_search.eq_none_iff.2 (hcall hcommented hbody)]
    rw [he, he', request?_call hfront hhead hlist (hclose _),
      request?_call (hrequest hcommented' hfront) hhead hlist' (hclose _)]
    exact .some ⟨rfl, fun _ _ _ => requestedEdge_congr hmethod hpath⟩
  | none hbody hbody' hcommented =>
    simp only [edgeSource?, connectionCall?_search.eq_none_iff.2 hbody,
      connectionCall?_search.eq_none_iff.2 (hcall hcommented hbody),
      request?_search.eq_none_iff.2 hbody',
      request?_search.eq_none_iff.2 (hrequest hcommented hbody'), Option.map_none]
    exact .none

/-! ## Classes -/

/-- A method that cannot be a connection, or whose body is undisturbed. -/
def KeepsConnection (m m' : MethodDecl) : Prop :=
  Eligible m → Option.Rel Undisturbed m.body? m'.body?

theorem isCandidate_commented {m m' : MethodDecl} (h : m.Commented m') :
    isCandidate m' = isCandidate m := by
  obtain ⟨hbody⟩ := h
  simp only [isCandidate]
  generalize m.body? = body? at hbody
  cases hbody <;> rfl

theorem eligible_commented {m m' : MethodDecl} (h : m.Commented m') : Eligible m' ↔ Eligible m := by
  rw [← isCandidate_iff, ← isCandidate_iff, isCandidate_commented h]

theorem connectionSource?_eq_none {m : MethodDecl} (h : ¬Eligible m) : connectionSource? m = none :=
  Option.eq_none_iff_forall_ne_some.2 fun _ hfound =>
    let ⟨_, _, heligible, _⟩ := connectionSource?_eq_some_iff.1 hfound
    h heligible

theorem connectionSource?_eligible {m : MethodDecl} (h : Eligible m) :
    connectionSource? m = m.body?.bind edgeSource? :=
  Option.ext fun found => by
    simp only [connectionSource?_eq_some_iff, h, true_and, Option.bind_eq_some_iff]

theorem connectionSource?_commented {m m' : MethodDecl} (hm : m.Commented m')
    (hkeeps : KeepsConnection m m') :
    Option.Rel SameEdge (connectionSource? m) (connectionSource? m') := by
  by_cases heligible : Eligible m
  · rw [connectionSource?_eligible heligible,
      connectionSource?_eligible ((eligible_commented hm).2 heligible)]
    have hbody := hkeeps heligible
    generalize m.body? = body?, m'.body? = body?' at hbody
    cases hbody with
    | none => exact .none
    | some h => exact h.edgeSource
  · rw [connectionSource?_eq_none heligible,
      connectionSource?_eq_none (mt (eligible_commented hm).1 heligible)]
    exact .none

/-- A connection with comments in its body. -/
theorem connectionOf_commented {sources : String → Option String} {c c' : ClassDecl}
    {m m' : MethodDecl} (hname : c'.name = c.name) (hknown : knownConstants c' = knownConstants c)
    (hendpoint : endpoint? c' = endpoint? c) (hm : m.Commented m') (hkeeps : KeepsConnection m m') :
    connectionOf sources c' m' = connectionOf sources c m := by
  have hsource := connectionSource?_commented hm hkeeps
  have hmethod : m'.name = m.name ∧ documentation m' = documentation m := by
    obtain ⟨-⟩ := hm
    exact ⟨rfl, rfl⟩
  rw [connectionOf, connectionOf, hname, hknown, hendpoint, hmethod.1, hmethod.2]
  generalize connectionSource? m = found?, connectionSource? m' = found?' at hsource
  cases hsource with
  | none => rfl
  | some h => simp only [Option.bind_some, h.1, h.2]

/-- The argument that an edge would be read from has a comment in it. -/
theorem connectionOf_comment {sources : String → Option String} {c : ClassDecl} {m : MethodDecl}
    {kind : Sdk.ConnectionKind} {source : EdgeSource}
    (hs : connectionSource? m = some (kind, source))
    (hc : ∃ argument ∈ source.read, ¬IsPlain argument) : connectionOf sources c m = none := by
  obtain ⟨argument, hargument, hcomment⟩ := hc
  rw [connectionOf_source hs, Option.map_eq_none_iff, Option.eq_none_iff_forall_ne_some]
  exact fun value hvalue =>
    hcomment (isPlain_of_edge (toOption_eq_some_iff.1 hvalue) argument hargument)

/-! ## Facts -/

theorem forall₂_find? {α β : Type} {R : α → β → Prop} {p : α → Bool} {q : β → Bool} {as : List α}
    {bs : List β} (h : List.Forall₂ R as bs) (hpq : ∀ a b, R a b → q b = p a) :
    Option.Rel R (as.find? p) (bs.find? q) := by
  induction h with
  | nil => exact .none
  | cons hab _ ih =>
    rw [List.find?_cons, List.find?_cons, hpq _ _ hab]
    split
    · exact .some hab
    · exact ih

/-- What comments in it do to the facts of a class. -/
structure FactsCommented (c c' : ClassDecl) : Prop where
  commented : c.Commented c'
  /-- An enumeration has its constants exactly if no comment stands in a value. -/
  enumeration : ∀ sources kind, kind ≠ .object → ∀ facts,
    (classFacts sources c' kind).1 = .ok facts ↔
      c'.constants = c.constants ∧ (classFacts sources c kind).1 = .ok facts
  /-- The constants of an object with comments in their values are as good as not declared. -/
  known : knownConstants c' =
    knownConstants { c with constants := c'.constants.filter fun d => IsPlain d.value }
  /-- A comment in the body of `getEndpoint` leaves no endpoint. -/
  endpoint : ∀ m m', c.method? "getEndpoint" = some m → c'.method? "getEndpoint" = some m' →
    m' ≠ m → endpoint? c' = none
  /-- A comment in an argument that is read leaves no connection. -/
  connection : ∀ m' ∈ c'.methods, ∀ kind source, connectionSource? m' = some (kind, source) →
    (∃ argument ∈ source.read, ¬IsPlain argument) → ∀ sources, connectionOf sources c' m' = none
  /-- All else stays as it is. -/
  object : knownConstants c' = knownConstants c →
    c'.method? "getEndpoint" = c.method? "getEndpoint" →
    List.Forall₂ KeepsConnection c.methods c'.methods →
    ∀ sources, (classFacts sources c' .object).1 = (classFacts sources c .object).1

theorem method?_commented {c c' : ClassDecl} (h : c.Commented c') (name : String) :
    Option.Rel MethodDecl.Commented (c.method? name) (c'.method? name) :=
  forall₂_find? h.methods fun _ _ ⟨_⟩ => rfl

theorem factsCommented {c c' : ClassDecl} (h : c.Commented c') : FactsCommented c c' where
  commented := h
  enumeration sources kind hk facts := by
    have hname : c'.name = c.name := by rw [h.same]; rfl
    simp only [classFacts_enumeration hk, enumerationConstants, hname,
      declareAll_commented h.constants, and_assoc, exists_and_left]
  known := by
    rw [knownConstants, knownConstants, declareEach_filter, h.same]
    rfl
  endpoint m m' hm hm' hne := by
    have hmethod := method?_commented h "getEndpoint"
    rw [hm, hm'] at hmethod
    obtain ⟨⟨hbody⟩⟩ := hmethod
    generalize hbody? : m.body? = body? at hbody
    cases hbody with
    | none => exact absurd (by rw [← hbody?]) hne
    | some hcommented =>
      refine endpoint?_comment hm' rfl fun hplain => hne ?_
      rw [hcommented.eq_of_isPlain hplain, ← hbody?]
  connection _ _ _ _ hs hc _ := connectionOf_comment hs hc
  object hknown hendpoint hkeeps sources := by
    have hname : c'.name = c.name := by rw [h.same]; rfl
    have hown : endpoint? c' = endpoint? c := by
      rw [endpoint?, endpoint?, hendpoint, hknown, hname]
    have hmap : c.methods.map (connectionOf sources c) =
        c'.methods.map (connectionOf sources c') := by
      rw [← List.forall₂_eq_eq_eq, List.forall₂_map_left_iff, List.forall₂_map_right_iff]
      refine List.Forall₂.mp (fun m m' hm hk => ?_) h.methods hkeeps
      exact (connectionOf_commented hname hknown hown hm hk).symm
    have hconnections := congrArg (List.filterMap id) hmap
    rw [List.filterMap_map, List.filterMap_map, Function.id_comp, Function.id_comp] at hconnections
    simp only [classFacts, objectFacts_eq, hown, hconnections]

/-- **What documentation comments do in a file**, inserted into its statements of constants and into
    its bodies. One in front of the equals sign of a constant makes the file malformed. Otherwise
    the file is read, its namespace and its classes are the same ones, and the facts of each class
    are its facts but for the values and the bodies that are read and have a comment in them. -/
theorem facts_commented {ts : List Token} {f : Php.ClassFile}
    (h : Php.ClassFile.ofTokens ts = .ok f) :
    ∃ o : Php.Outline, o.Describes ts f ∧ ∀ o', o.Commented o' →
      (o'.heads ≠ o.heads →
        ∃ line, Php.ClassFile.ofTokens o'.tokens = .error ⟨line, .malformedConstant⟩) ∧
      (o'.heads = o.heads →
        Php.ClassFile.ofTokens o'.tokens = .ok o'.classFile ∧
        o'.classFile.nameSpace? = f.nameSpace? ∧
        ∀ name, Option.Rel FactsCommented (f.class? name) (o'.classFile.class? name)) := by
  obtain ⟨o, hdescribes, ho⟩ := Php.exists_outline h
  refine ⟨o, hdescribes, fun o' hcommented => ⟨(ho o' hcommented).2, fun hheads => ?_⟩⟩
  obtain rfl := hdescribes.classFile
  refine ⟨(ho o' hcommented).1 hheads, hcommented.nameSpace?, fun name => ?_⟩
  exact forall₂_find? (hcommented.classes.imp fun _ _ => factsCommented)
    fun c c' hc => by rw [hc.commented.same]; rfl

/-! ## A comment beside a call -/

/-- `/** note */` -/
def note : Token := ⟨.docComment "/** note */", 1⟩

/-- The method, with notes around its body if it is `getAds` -/
def noted (m : MethodDecl) : MethodDecl :=
  if m.name = "getAds" then { m with body? := m.body?.map fun body => note :: (body ++ [note]) }
  else m

theorem commented_noted (m : MethodDecl) : m.Commented (noted m) := by
  have hnote : note.IsComment := ⟨_, rfl⟩
  have hbody : ∀ body : List Token, Commented body (note :: (body ++ [note])) := fun body => by
    refine .insert hnote ?_
    induction body with
    | nil => exact .insert hnote .nil
    | cons t ts ih => exact .keep ih
  unfold noted
  split
  · refine .mk ?_
    cases m.body? with
    | none => exact .none
    | some body => exact .some (hbody body)
  · refine @MethodDecl.Commented.mk m m.body? ?_
    cases m.body? with
    | none => exact .none
    | some body => exact .some (.refl body)

theorem undisturbed_callBody : Undisturbed callBody (note :: (callBody ++ [note])) :=
  .call (connectionCall?_search.eq_none_iff.1 rfl)
    (.insert ⟨_, rfl⟩ .nil : Commented [] [note])
    (.mk (connectionKind?_call (.plain (callName true true) 1)))
    argumentList_callArguments argumentList_callArguments rfl fun _ => rfl

/-- The class with notes in `getAds` -/
def notedClass : ClassDecl := { adClass.decl with methods := adClass.decl.methods.map noted }

theorem commented_notedClass : adClass.decl.Commented notedClass where
  constants := .nil
  methods := by
    rw [notedClass, List.forall₂_map_right_iff, List.forall₂_same]
    exact fun m _ => commented_noted m
  same := rfl

theorem keepsConnection_notedClass :
    List.Forall₂ KeepsConnection adClass.decl.methods notedClass.methods := by
  rw [notedClass, List.forall₂_map_right_iff, List.forall₂_same]
  intro m hm heligible
  obtain ⟨body, hbody⟩ := heligible.hasBody
  by_cases hname : m.name = "getAds"
  · have hcall : ∀ m ∈ adClass.decl.methods, m.name = "getAds" → m.body? = some callBody := by
      decide
    rw [noted, if_pos hname, hcall m hm hname]
    exact .some undisturbed_callBody
  · rw [noted, if_neg hname, hbody]
    exact .some .same

theorem facts_commented_ad :
    Php.ClassFile.ofTokens adFile.tokens = .ok adFile.classFile ∧
      ∃ ts f, Php.ClassFile.ofTokens ts = .ok f ∧ f.class? "Ad" = some notedClass ∧
        ∀ sources, (classFacts sources notedClass .object).1 = .ok (.object (some "ads")
          [⟨"GetAds", some "ads", "Fetches all", .asynchronous⟩,
            ⟨"GetUser", some "user", "Get user", .synchronous⟩]) := by
  have hread := Php.Written.ofTokens_tokens adFile
  obtain ⟨o, hdescribes, ho⟩ := facts_commented hread
  obtain ⟨o', hcommented, hheads, hclasses⟩ := hdescribes.commented
    (List.forall₂_same.2 fun head _ => .refl head) (.cons commented_notedClass .nil)
  obtain ⟨hread', -, hclass⟩ := (ho o' hcommented).2 hheads
  have hfound : o'.classFile.class? "Ad" = some notedClass := by
    rw [Php.ClassFile.class?, hclasses]
    rfl
  have hfacts := hclass "Ad"
  rw [hfound, show adFile.classFile.class? "Ad" = some adClass.decl from rfl] at hfacts
  obtain ⟨hfacts⟩ := hfacts
  refine ⟨hread, o'.tokens, o'.classFile, hread', hfound, fun sources => ?_⟩
  rw [hfacts.object rfl rfl keepsConnection_notedClass]
  exact congrArg Except.ok ((objectFacts_eq sources adClass.decl).trans
    (congrArg₂ Sdk.Facts.object isObject_adClass.endpoint? isObject_adClass.connections))

/-- With a comment in front of its equals sign, a constant is malformed. -/
example : Php.ClassFile.ofSource "<?php class AdFields \x7b const /** note */ ID = 'id'; \x7d" =
    .error ⟨1, .malformedConstant⟩ := by decide +kernel

end PhpSharp.Reflection
