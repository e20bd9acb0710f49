/-
  Classes for which nothing can be generated.

  * `render_reflected_eq_error_iff`: from the facts that were read of a class, a source is generated
    unless the class is an object whose endpoint is undefined;
  * `Plan.Answers`: how converting a class ends, with the time that generating took;
  * `template_undefinedEndpoint`: no run reports another fault of generation, and there is a time
    for those classes, and only those, for which a source was generated.
-/
import PhpSharp.Proofs.Conversion.Endings
import PhpSharp.Proofs.Conversion.Runs
import PhpSharp.Proofs.Reflection.Endpoint

namespace PhpSharp.CSharp

variable {p : Profile} {d : Sdk.Descriptor} {date : Text.Timestamp} {fault : Fault}

theorem render_eq_error_iff {facts : Sdk.Facts} :
    render p { d with facts? := some facts } date = .error fault ↔
      memberLines p { d with facts? := some facts } facts = .error fault := by
  unfold render
  dsimp only
  cases memberLines p { d with facts? := some facts } facts <;> simp [Except.map]

theorem render_object_eq_error_iff (hk : d.kind = .object) {endpoint? : Option String}
    {connections : List Sdk.Connection} :
    render p { d with facts? := some (.object endpoint? connections) } date = .error fault ↔
      fault = .noEndpoint ∧ endpoint? = none := by
  rw [render_eq_error_iff]
  cases endpoint? <;> simp [memberLines, hk, eq_comm]

theorem render_enumeration_ne_error (hk : d.kind ≠ .object) {constants : Sdk.Constants} :
    render p { d with facts? := some (.enumeration constants) } date ≠ .error fault := by
  rw [ne_eq, render_eq_error_iff]
  cases hkind : d.kind with
  | object => exact absurd hkind hk
  | fields | values => simp [memberLines]

end PhpSharp.CSharp

namespace PhpSharp.Conversion

open Files (Host Keeps Machine OsError bind_run)
open Reflection (UndefinedEndpoint findClass?)

/-! ## Facts that were read -/

section
variable {expected : Sdk.PerKind String} {sources : String → Option String} {d : Sdk.Descriptor}
  {source : String} {facts : Sdk.Facts} {profile : CSharp.Profile} {date : Text.Timestamp}
  {fault : CSharp.Fault}

/-- The class of a descriptor in a source is an object without an endpoint. -/
def LacksEndpoint (d : Sdk.Descriptor) (source : String) : Prop :=
  d.kind = .object ∧ ∃ c, findClass? (some source) d.shortName = some c ∧ UndefinedEndpoint c

/-- **Facts that were read** are of the right kind: of them, only an endpoint can be missing. -/
theorem render_reflected_eq_error_iff
    (h : (Reflection.reflect expected sources d source).1 = .ok facts) :
    CSharp.render profile { d with facts? := some facts } date = .error fault ↔
      fault = .noEndpoint ∧ LacksEndpoint d source := by
  by_cases hk : d.kind = .object
  · obtain ⟨c, hc, rfl⟩ := (Reflection.reflect_object_eq_ok_iff hk).1 h
    rw [Reflection.objectFacts_eq, CSharp.render_object_eq_error_iff hk,
      Reflection.endpoint?_eq_none_iff]
    simp only [LacksEndpoint, hk, hc, Option.some.injEq, exists_eq_left', true_and]
  · obtain ⟨c, -, hfacts⟩ := Reflection.reflect_eq_ok_iff.1 h
    obtain ⟨constants, -, rfl⟩ := (Reflection.classFacts_enumeration hk).1 hfacts
    simp only [LacksEndpoint, hk, false_and, and_false, iff_false]
    exact CSharp.render_enumeration_ne_error hk

end

/-! ## One class -/

/-- A source was generated for the class: it was written, or is to be written, or could not be
    written. -/
inductive Status.Generated : Status → Prop
  | written {path} : Generated (.written path)
  | planned {path} : Generated (.planned path)
  | unwritten {path cause} : Generated (.failed (.write path cause))

/-- **How converting a class ends** by the answer about its facts, with the time that generating
    took. -/
inductive Plan.Answers (p : Plan) (d : Sdk.Descriptor) :
    Except Error Sdk.Facts → Status × Option Nat → Prop
  /-- The facts cannot be read. -/
  | unread {e} : Answers p d (.error e) (.failed e, none)
  /-- Nothing can be generated from the facts. -/
  | ungenerated {facts fault}
      (hr : CSharp.render p.settings.profile { d with facts? := some facts } p.date =
        .error fault) : Answers p d (.ok facts) (.failed (.template d.shortName fault), none)
  /-- A source is generated. -/
  | generated {facts text status took}
      (hr : CSharp.render p.settings.profile { d with facts? := some facts } p.date = .ok text)
      (hs : status.Generated) : Answers p d (.ok facts) (status, some took)

section
variable {σ : Type} [Host (StateM σ)]

/-- On any system, converting a class ends in one of these ways. -/
theorem convert_answers (p : Plan) (d : Sdk.Descriptor) (s : σ) :
    p.Answers d ((reflect p.settings d : StateM σ _).run s).1
      ((convert p d : StateM σ _).run s).1 := by
  have hwrite : ∀ text, Keeps (fun _ : σ => True)
      (write (Output.ofSettings p.settings) d.kind d.shortName text) fun answer =>
        ∀ e, answer = .error e → ∃ path cause, e = .write path cause := fun text =>
    keeps_write .any .any (fun _ _ h => ⟨_, _, (Except.error.inj h).symm⟩)
      (fun _ _ h => ⟨_, _, (Except.error.inj h).symm⟩) fun _ h => nomatch h
  rcases hfacts : (reflect p.settings d : StateM σ _).run s with ⟨facts, s₁⟩
  rw [convert, bind_run hfacts]
  cases facts with
  | error e => exact .unread
  | ok facts =>
    refine (Keeps.any.bind (R := p.Answers d (.ok facts)) (fun _ _ => ?_) s₁ trivial).2
    dsimp only
    cases hrender : CSharp.render p.settings.profile { d with facts? := some facts } p.date with
    | error fault => exact .pure (.ungenerated hrender)
    | ok text =>
      refine Keeps.any.bind fun _ _ => ?_
      split
      · exact .pure (.generated hrender .planned)
      · refine (hwrite text).bind fun answer hanswer => ?_
        cases answer with
        | ok path => exact .pure (.generated hrender .written)
        | error e =>
          obtain ⟨path, cause, rfl⟩ := hanswer e rfl
          exact .pure (.generated hrender .unwritten)

/-- The facts of a class are read from the source that its file has. -/
theorem reflect_answer (st : Settings) (d : Sdk.Descriptor) (s : σ) :
    ∃ sources, ((reflect st d : StateM σ _).run s).1 =
      match ((Host.readText d.sourceFile : StateM σ _).run s).1 with
      | .error e => .error (.reflection d.sourceFile (.unreadable e.message))
      | .ok source => (Reflection.reflect st.sourceNamespaces sources d source).1.mapError
          (.reflection d.sourceFile) := by
  rcases hread : (Host.readText d.sourceFile : StateM σ _).run s with ⟨source, s₁⟩
  rw [reflect, bind_run hread]
  cases source with
  | error e => exact ⟨fun _ => none, rfl⟩
  | ok source =>
    dsimp only
    rcases hsources : (readSources (st.inputDirectory .object)
      (Reflection.neededClasses d source) : StateM σ _).run s₁ with ⟨sources, s₂⟩
    rw [bind_run hsources]
    refine ⟨fun name => (sources.lookup name).join, ?_⟩
    rcases Reflection.reflect st.sourceNamespaces (fun name => (sources.lookup name).join) d source
      with ⟨result, entries⟩
    rcases hlog : (entries.forM Host.log : StateM σ _).run s₂ with ⟨u, s₃⟩
    dsimp only
    rw [bind_run hlog]
    cases result <;> rfl

/-- **How converting a class ends** if its file is read so: with a fault of generation exactly if
    the class is an object without an endpoint, and with a time exactly if a source was
    generated. -/
structure Ended (d : Sdk.Descriptor) (source? : Except OsError String) (status : Status)
    (took? : Option Nat) : Prop where
  template : ∀ name fault, status = .failed (.template name fault) ↔
    name = d.shortName ∧ fault = .noEndpoint ∧ ∃ source, source? = .ok source ∧
      LacksEndpoint d source
  took : took?.isSome = true ↔ status.Generated

theorem ended_convert (p : Plan) (d : Sdk.Descriptor) (s : σ) :
    Ended d ((Host.readText d.sourceFile : StateM σ _).run s).1
      ((convert p d : StateM σ _).run s).1.1 ((convert p d : StateM σ _).run s).1.2 := by
  obtain ⟨sources, hfacts⟩ := reflect_answer p.settings d s
  have hanswers := convert_answers p d s
  generalize ((convert p d : StateM σ _).run s).1 = answer at hanswers ⊢
  generalize ((Host.readText d.sourceFile : StateM σ _).run s).1 = source? at hfacts ⊢
  rw [hfacts] at hanswers
  have hunread : ∀ fault, (∀ source, source? = .ok source → ¬LacksEndpoint d source) →
      Ended d source? (.failed (.reflection d.sourceFile fault)) none := fun fault hno => by
    refine ⟨fun _ _ => ⟨fun h => (nomatch h), ?_⟩, ⟨fun h => (nomatch h), fun h => nomatch h⟩⟩
    rintro ⟨-, -, source, hsource, hlacks⟩
    exact absurd hlacks (hno source hsource)
  cases source? with
  | error e =>
    cases hanswers
    exact hunread _ fun _ h => nomatch h
  | ok source =>
    dsimp only at hanswers
    cases hreflect : (Reflection.reflect p.settings.sourceNamespaces sources d source).1 with
    | error fault =>
      rw [hreflect] at hanswers
      cases hanswers
      refine hunread fault ?_
      rintro _ ⟨⟩ ⟨hk, c, hc, -⟩
      cases hreflect.symm.trans ((Reflection.reflect_object_eq_ok_iff hk).2 ⟨c, hc, rfl⟩)
    | ok facts =>
      have hrender := fun fault => @render_reflected_eq_error_iff _ _ _ _ _ p.settings.profile
        p.date fault hreflect
      rw [hreflect] at hanswers
      cases hanswers with
      | ungenerated hr =>
        obtain ⟨rfl, hlacks⟩ := (hrender _).1 hr
        refine ⟨fun name fault => ?_, ⟨fun h => (nomatch h), fun h => nomatch h⟩⟩
        constructor
        · rintro ⟨⟩
          exact ⟨rfl, rfl, source, rfl, hlacks⟩
        · rintro ⟨rfl, rfl, -⟩
          rfl
      | generated hr hs =>
        refine ⟨fun name fault => ⟨?_, ?_⟩, ⟨fun _ => hs, fun _ => rfl⟩⟩
        · rintro rfl
          cases hs
        · rintro ⟨-, -, _, ⟨⟩, hlacks⟩
          cases hr.symm.trans ((hrender .noEndpoint).2 ⟨rfl, hlacks⟩)

/-- The outcome of a class says how converting it ended. -/
theorem process_answer (p : Plan) (i : Nat) (d : Sdk.Descriptor) (s : σ) :
    (((process p i d : StateM σ _).run s).1.status,
      ((process p i d : StateM σ _).run s).1.renderDuration?) =
        ((convert p d : StateM σ _).run ((Host.clock : StateM σ Nat).run s).2).1 := by
  unfold process
  rcases hclock : (Host.clock : StateM σ Nat).run s with ⟨started, s₁⟩
  rw [bind_run hclock]
  rcases hconvert : (convert p d : StateM σ _).run s₁ with ⟨⟨status, took?⟩, s₂⟩
  rw [bind_run hconvert]
  cases status <;> rfl

/-- The file of a class is read after a look at the clock. -/
theorem ended_process (p : Plan) (i : Nat) (d : Sdk.Descriptor) (s : σ) :
    Ended d ((Host.readText d.sourceFile : StateM σ _).run ((Host.clock : StateM σ Nat).run s).2).1
      ((process p i d : StateM σ _).run s).1.status
      ((process p i d : StateM σ _).run s).1.renderDuration? := by
  have hended := ended_convert p d ((Host.clock : StateM σ Nat).run s).2
  rw [← process_answer p i d s] at hended
  exact hended

/-- **The outcome is that of the class,** processed in a state of the system, in which its file is
    read. -/
def Outcome.Tells (σ : Type) [Host (StateM σ)] (p : Plan) (d : Sdk.Descriptor) (o : Outcome) :
    Prop :=
  ∃ i, ∃ s : σ, o = ((process p i d : StateM σ _).run s).1 ∧
    Ended d ((Host.readText d.sourceFile : StateM σ _).run ((Host.clock : StateM σ Nat).run s).2).1
      o.status o.renderDuration?

/-! ## All classes -/

theorem labelled_noEndpoint (name : String) : (Error.template name .noEndpoint).labelled =
    "TemplateError: cannot render class '" ++ name ++ "': endpoint is undefined" := by
  have hfront : "TemplateError" ++ ": " ++ "cannot render class '" =
      "TemplateError: cannot render class '" := by decide
  have hback : "': " ++ "endpoint is undefined" = "': endpoint is undefined" := by decide
  rw [← hfront, ← hback]
  unfold Error.labelled Error.label Error.message CSharp.Fault.message
  simp only [String.append_assoc]

/-- Every outcome is that of a class. -/
theorem Converts.tells {p : Plan} {ds : List Sdk.Descriptor} {s s' : σ} {outcomes : List Outcome}
    (h : Converts p ds s outcomes s') : ∀ o ∈ outcomes, ∃ d ∈ ds, o.Tells σ p d := by
  obtain ⟨-, hsubjects, hall⟩ := h.keeps (I := fun _ => True) (Q := Outcome.Tells σ p)
    (fun i d _ s _ => ⟨trivial, i, s, rfl, ended_process p i d s⟩) trivial
  have hlength : outcomes.length = ds.length := by simpa using congrArg List.length hsubjects
  intro o ho
  obtain ⟨i, hi, rfl⟩ := List.getElem_of_mem ho
  obtain ⟨o, ho, htells⟩ := hall i _ (List.getElem?_eq_getElem (hlength ▸ hi))
  rw [List.getElem?_eq_getElem hi, Option.some.injEq] at ho
  exact ⟨_, List.getElem_mem _, ho ▸ htells⟩

end

/-- **An endpoint that is undefined is all that keeps a class from being generated.** If the facts
    of a class can be read, a source is generated from them unless the class is an object whose
    first `getEndpoint` has no body, or another body than `return E;` with a constant expression.
    Then the error says so. On every system, a class is reported with this fault exactly if it is
    such an object, by what its file says then, and with no other fault of generation; and its
    outcome has a time for the generation exactly if its file was written, or is to be written, or
    could not be. By the program or by any number of workers, all outcomes are of this sort. -/
theorem template_undefinedEndpoint :
    (∀ {expected sources d source facts},
      (Reflection.reflect expected sources d source).1 = .ok facts → ∀ profile date,
        ((∃ fault, CSharp.render profile { d with facts? := some facts } date = .error fault) ↔
          d.kind = .object ∧
            ∃ c, findClass? (some source) d.shortName = some c ∧ UndefinedEndpoint c) ∧
        ∀ fault, CSharp.render profile { d with facts? := some facts } date = .error fault →
          fault = .noEndpoint ∧ (Error.template d.shortName fault).labelled =
            "TemplateError: cannot render class '" ++ d.shortName ++ "': endpoint is undefined") ∧
    ∀ (σ : Type) [Host (StateM σ)] (p : Plan),
      (∀ i d (s : σ),
        let read := ((Host.readText d.sourceFile : StateM σ _).run
          ((Host.clock : StateM σ Nat).run s).2).1
        let o := ((process p i d : StateM σ _).run s).1
        Ended d read o.status o.renderDuration?) ∧
      (∀ ds (s : σ) outcomes s', Converts p ds s outcomes s' →
        ∀ o ∈ outcomes, ∃ d ∈ ds, o.Tells σ p d) ∧
      ∀ (s : σ) report, ((run p : StateM σ _).run s).1 = .ok report → ∃ found,
        ((discover p.settings : StateM σ _).run ((Host.clock : StateM σ Nat).run s).2).1 =
          .ok found ∧
        ∀ o ∈ report.outcomes, ∃ d ∈ found.descriptors, o.Tells σ p d := by
  refine ⟨fun h profile date => ⟨?_, fun fault hfault => ?_⟩, fun σ _ p => ⟨?_, ?_, ?_⟩⟩
  · simp only [render_reflected_eq_error_iff h, exists_eq_left]
    rfl
  · obtain ⟨rfl, -⟩ := (render_reflected_eq_error_iff h).1 hfault
    exact ⟨rfl, labelled_noEndpoint _⟩
  · exact ended_process p
  · exact fun ds s outcomes s' h => h.tells
  · intro s report h
    obtain ⟨found, s₁, s₂, hfound, hall, -⟩ := run_eq_ok h
    exact ⟨found, congrArg Prod.fst hfound, (Converts.program hall).tells⟩

/-- A class whose `getEndpoint` does not return a constant expression -/
def adWithoutEndpoint : String :=
  "<?php class Ad { function getEndpoint() { return $this->id; } }"

/-- A machine with that class and two classes of constants -/
def adSdk : Machine :=
  { smallSdk with
    disk := smallSdk.disk.put ["sdk", "o", "Ad.php"] (.file (.text adWithoutEndpoint)) }

theorem template_undefinedEndpoint_ad :
    let ad := (target smallPlan.settings .object).descriptor "Ad.php"
    (CSharp.render smallPlan.settings.profile { ad with facts? := some (.object none []) }
        smallPlan.date = .error .noEndpoint ∧
      ∃ c, findClass? (some adWithoutEndpoint) "Ad" = some c ∧ UndefinedEndpoint c) ∧
    ∃ report, ((run smallPlan.alone : StateM Machine _).run adSdk).1 = .ok report ∧
      (report.outcomes.map fun o => (o.status, o.renderDuration?)) =
        [(.failed (.template "Ad" .noEndpoint), none), (.written ⟨"out/f/AdFields.cs"⟩, some 0),
          (.failed (.write ⟨"out/v"⟩ (.other "Permission denied")), some 0)] ∧
      ∃ found, ((discover smallPlan.alone.settings : StateM Machine _).run adSdk).1 = .ok found ∧
        ∀ o ∈ report.outcomes, ∃ d ∈ found.descriptors, o.Tells Machine smallPlan.alone d := by
  intro ad
  have hfacts : (Reflection.reflect ⟨"", "", ""⟩ (fun _ => none) ad adWithoutEndpoint).1 =
      .ok (.object none []) := by decide +kernel
  have hrender : CSharp.render smallPlan.settings.profile
      { ad with facts? := some (.object none []) } smallPlan.date = .error .noEndpoint := rfl
  obtain ⟨hreflected, hruns⟩ := template_undefinedEndpoint
  obtain ⟨-, hclass⟩ :=
    (hreflected hfacts smallPlan.settings.profile smallPlan.date).1.1 ⟨_, hrender⟩
  have hreport : (((run smallPlan.alone : StateM Machine _).run adSdk).1.toOption.map fun report =>
      report.outcomes.map fun o => (o.status, o.renderDuration?)) =
        some [(.failed (.template "Ad" .noEndpoint), none),
          (.written ⟨"out/f/AdFields.cs"⟩, some 0),
          (.failed (.write ⟨"out/v"⟩ (.other "Permission denied")), some 0)] := by
    decide +kernel
  obtain ⟨report, hrun, houtcomes⟩ := Option.map_eq_some_iff.1 hreport
  have hrun := Reflection.toOption_eq_some_iff.1 hrun
  exact ⟨⟨hrender, hclass⟩, report, hrun, houtcomes,
    (hruns Machine smallPlan.alone).2.2 adSdk report hrun⟩

end PhpSharp.Conversion
