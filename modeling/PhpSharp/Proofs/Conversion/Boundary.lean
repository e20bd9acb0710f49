/-
  What ends a run, and what stays with a class.

  * `Error.Concerns p d e`: the error belongs to the class;
  * `keeps_owns`: whatever a system does, a class fails with an error of its own;
  * `run_boundary`: a run fails exactly if an input directory cannot be listed, and then changes no
    file; otherwise every class that is found has its outcome.
-/
import PhpSharp.Proofs.Conversion.OutputFiles

namespace PhpSharp.Conversion

open Files (Host Keeps Machine bind_run)

/-- **An error that belongs to a class:** its facts could not be read, nothing could be generated
    for it, or its directory or its file could not be written. -/
inductive Error.Concerns (p : Plan) (d : Sdk.Descriptor) : Error → Prop
  | reflection (fault : Reflection.Fault) : Concerns p d (.reflection d.sourceFile fault)
  | template (fault : CSharp.Fault) : Concerns p d (.template d.shortName fault)
  | directory (cause : Files.OsError) :
      Concerns p d (.write (p.settings.outputDirectory d.kind) cause)
  | file (cause : Files.OsError) :
      Concerns p d (.write ((Output.ofSettings p.settings).path d.kind d.shortName) cause)

/-- Such an error does not end a run. -/
theorem Error.Concerns.not_fatal {p : Plan} {d : Sdk.Descriptor} {e : Error}
    (h : e.Concerns p d) : e.isFatal = false := by
  cases h <;> rfl

section
variable {σ : Type} [Host (StateM σ)] {p : Plan} {d : Sdk.Descriptor}

/-- A status of a class: if it failed, then with an error of its own. -/
def Plan.Owns (p : Plan) (d : Sdk.Descriptor) (status : Status) : Prop :=
  ∀ e, status = .failed e → e.Concerns p d

theorem Plan.owns_failed {e : Error} (h : e.Concerns p d) : p.Owns d (.failed e) := by
  intro e' he
  rwa [← Status.failed.inj he]

theorem Plan.owns_of_ends {status : Status}
    (h : p.Ends d (fun facts => ∀ e, facts = .error e → e.Concerns p d)
      (fun written => ∀ e, written = .error e → e.Concerns p d) status) : p.Owns d status := by
  cases h with
  | unread hf => exact owns_failed (hf _ rfl)
  | ungenerated => exact owns_failed (.template _)
  | unwritten _ _ _ hw => exact owns_failed (hw _ rfl)
  | planned | written => exact fun _ he => nomatch he

theorem keeps_reflect (p : Plan) (d : Sdk.Descriptor) :
    Keeps (fun _ => True) (reflect p.settings d : StateM σ _)
      fun answer => ∀ e, answer = .error e → e.Concerns p d := by
  refine Keeps.any.bind fun source _ => ?_
  cases source with
  | error e => exact .pure fun _ he => Except.error.inj he ▸ .reflection _
  | ok source =>
    refine Keeps.any.bind fun sources _ => Keeps.any.bind fun _ _ => ?_
    split
    · exact .pure fun _ he => Except.error.inj he ▸ .reflection _
    · exact .pure fun _ he => nomatch he

/-- **Whatever a system does,** a class fails with an error of its own. -/
theorem keeps_owns (p : Plan) (i : Nat) (d : Sdk.Descriptor) :
    Keeps (fun _ => True) (process p i d : StateM σ _) fun o => p.Owns d o.status := by
  have hdirectory : (Output.ofSettings p.settings).directories.get d.kind =
      p.settings.outputDirectory d.kind := Sdk.PerKind.get_ofFn ..
  refine (keeps_process silent_any (keeps_reflect p d) (fun _ text => ?_) i).mono
    fun _ => Plan.owns_of_ends
  refine keeps_write .any .any (fun cause _ he => ?_) (fun cause _ he => ?_) fun _ he => nomatch he
  · rw [← Except.error.inj he, hdirectory]
    exact .directory cause
  · exact Except.error.inj he ▸ .file cause

/-- **Every class has its outcome,** in the order in which the classes were found. One that failed
    has an error that belongs to it and does not end a run. -/
structure Reported (p : Plan) (ds : List Sdk.Descriptor) (outcomes : List Outcome) : Prop where
  subjects : outcomes.map Outcome.subject = ds.mapIdx subjectAt
  errors : ∀ (i : Nat) (d), ds[i]? = some d → ∃ o, outcomes[i]? = some o ∧
    ∀ e, o.status = .failed e → e.Concerns p d ∧ e.isFatal = false

theorem Converts.reported {ds : List Sdk.Descriptor} {s s' : σ} {outcomes : List Outcome}
    (h : Converts p ds s outcomes s') : Reported p ds outcomes := by
  obtain ⟨-, hsubjects, howns⟩ := h.keeps (fun i d _ => keeps_owns p i d) trivial
  refine ⟨hsubjects, fun i d hd => ?_⟩
  obtain ⟨o, ho, herror⟩ := howns i d hd
  exact ⟨o, ho, fun e he => ⟨herror e he, (herror e he).not_fatal⟩⟩

end

/-! ## Runs -/

section
variable {σ φ : Type} [Host (StateM σ)] {files : σ → φ} {answers : φ → Answers}

/-- **What ends a run, and what stays with a class,** on any system that leaves files alone when it
    is asked.

    A run fails exactly if an input directory cannot be listed. The error names the first of these,
    and no file is changed. Otherwise, whatever the system does with files from then on, there is a
    report with the outcome of every class that is found; and so there is with any number of
    workers, in any order of their steps. -/
theorem run_boundary (hq : Quiet files answers) (p : Plan) (s : σ) :
    let a := answers (files s)
    let isMissing (k : Sdk.Kind) := !a.isListable (p.settings.inputDirectory k)
    let done := (run p : StateM σ _).run s
    ((∃ e, done.1 = .error e) ↔ ∃ k, isMissing k = true) ∧
    (∀ e, done.1 = .error e →
      (∃ k, Sdk.Kind.all.find? isMissing = some k ∧
        e = .directoryNotFound k (p.settings.inputDirectory k)) ∧ files done.2 = files s) ∧
    (∀ report, done.1 = .ok report →
      ∃ found, a.discovery p.settings Sdk.Kind.all = .ok found ∧
        report.discovered = found.descriptors.length ∧
        Reported p found.descriptors report.outcomes) ∧
    ∀ ds s₁ outcomes s₂, Converts p ds s₁ outcomes (s₂ : σ) → Reported p ds outcomes := by
  intro a isMissing done
  rcases hclock : (Host.clock : StateM σ Nat).run s with ⟨started, s₁⟩
  have hstart := (hq.clock (files s) s rfl).1
  rw [hclock] at hstart
  obtain ⟨hfiles, hfound⟩ := keeps_discover hq p.settings s₁ hstart
  rcases hdiscover : (discover p.settings : StateM σ _).run s₁ with ⟨answer, s₂⟩
  rw [hdiscover] at hfiles hfound
  have hmissing : ∀ {e}, a.discovery p.settings Sdk.Kind.all = .error e ↔ _ :=
    Answers.discovery_eq_error_iff
  have hany : (∃ k, isMissing k = true) ↔ ∃ e, a.discovery p.settings Sdk.Kind.all = .error e := by
    simp only [hmissing]
    constructor
    · rintro ⟨k, hk⟩
      obtain ⟨k', hk'⟩ := Option.isSome_iff_exists.1
        (List.find?_isSome.2 ⟨k, Sdk.Kind.mem_all k, hk⟩)
      exact ⟨_, k', hk', rfl⟩
    · rintro ⟨e, k, hk, -⟩
      exact ⟨k, List.find?_some hk⟩
  have hreported : ∀ ds s₁ outcomes s₂, Converts p ds s₁ outcomes (s₂ : σ) →
      Reported p ds outcomes := fun _ _ _ _ h => h.reported
  have hdone : done = _ := (bind_run hclock).trans (bind_run hdiscover)
  clear_value done
  rw [hany]
  cases answer with
  | error e =>
    -- nothing but questions were asked
    obtain rfl : done = (.error e, s₂) := hdone
    have he : a.discovery p.settings Sdk.Kind.all = .error e := hfound.symm
    refine ⟨⟨fun _ => ⟨e, he⟩, fun _ => ⟨e, rfl⟩⟩, fun e' he' => ?_, fun report hr => (nomatch hr),
      hreported⟩
    cases he'
    exact ⟨hmissing.1 he, hfiles⟩
  | ok found =>
    have hok : a.discovery p.settings Sdk.Kind.all = .ok found := hfound.symm
    rcases hall : (processAll p found.descriptors : StateM σ _).run s₂ with ⟨outcomes, s₃⟩
    rcases hend : (Host.clock : StateM σ Nat).run s₃ with ⟨ended, s₄⟩
    obtain rfl := hdone.trans ((bind_run hall).trans (bind_run hend))
    rw [hok]
    refine ⟨⟨fun ⟨e, he⟩ => (nomatch he), fun ⟨e, he⟩ => (nomatch he)⟩,
      fun e he => (nomatch he), fun report hr => ?_, hreported⟩
    cases hr
    exact ⟨found, rfl, rfl, (Converts.program hall).reported⟩

/-- A machine without the directories for objects and values. -/
def bareSdk : Machine :=
  { smallSdk with disk := ⟨[(["sdk"], .directory), (["sdk", "f"], .directory)]⟩ }

/-- A run that ends at the first of two missing directories, and one with a report. -/
theorem run_boundary_smallSdk :
    (((run smallPlan : StateM Machine _).run bareSdk).1 =
        .error (.directoryNotFound .object ⟨"sdk/o"⟩) ∧
      ((run smallPlan : StateM Machine _).run bareSdk).2.disk = bareSdk.disk) ∧
    ∃ report, ((run smallPlan : StateM Machine _).run smallSdk).1 = .ok report ∧
      Reported smallPlan smallScan.descriptors report.outcomes := by
  obtain ⟨hbare, hmissing, -⟩ := run_boundary quiet_machine smallPlan bareSdk
  obtain ⟨hsmall, -, hreport, -⟩ := run_boundary quiet_machine smallPlan smallSdk
  constructor
  · obtain ⟨e, he⟩ := hbare.2 ⟨.object, by decide +kernel⟩
    obtain ⟨⟨k, hk, rfl⟩, hfiles⟩ := hmissing e he
    obtain rfl : k = .object := Option.some.inj (hk.symm.trans (by decide +kernel))
    exact ⟨he.trans (by decide +kernel), congrArg Prod.fst hfiles⟩
  · cases hdone : ((run smallPlan : StateM Machine _).run smallSdk).1 with
    | error e =>
      obtain ⟨k, hk⟩ := hsmall.1 ⟨e, hdone⟩
      exfalso
      revert hk
      cases k <;> decide +kernel
    | ok report =>
      obtain ⟨found, hfound, -, hall⟩ := hreport report hdone
      obtain rfl : found = smallScan :=
        Except.ok.inj (hfound.symm.trans (by decide +kernel))
      exact ⟨report, rfl, hall⟩

end

end PhpSharp.Conversion
