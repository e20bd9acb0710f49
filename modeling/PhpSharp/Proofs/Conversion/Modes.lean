/-
  Looking, planning and converting agree.

  * `Plan.Comes p s d status`: the status of a class is one that can come of the files as they
    are on `s`;
  * `Runs.aside`: so it is in a run that writes nothing in the input directories;
  * `modes_agree`: an inspection, a dry run and a run say the same of every class, though the run
    changes files meanwhile and the system may refuse any of its calls; the others change nothing.
-/
import PhpSharp.Proofs.Conversion.Boundary
import PhpSharp.Proofs.Files.Elsewhere
import PhpSharp.Proofs.Php.Lexing

namespace PhpSharp.Text

/-- The characters of lines, joined, are theirs and line feeds. -/
theorem mem_joinLines {c : Char} {ls : List String} (h : c ∈ (joinLines ls).toList) :
    c = '\n' ∨ ∃ l ∈ ls, c ∈ l.toList := by
  induction ls with
  | nil => cases h
  | cons l ls ih =>
    cases ls with
    | nil => exact .inr ⟨l, List.mem_singleton_self l, h⟩
    | cons l' ls =>
      rw [joinLines, String.toList_append, String.toList_append, List.mem_append,
        List.mem_append] at h
      · rcases h with (h | h) | h
        · exact .inr ⟨l, List.mem_cons_self .., h⟩
        · exact .inl (List.mem_singleton.1 h)
        · exact (ih h).imp_right fun ⟨l', hl, hc⟩ => ⟨l', List.mem_cons_of_mem _ hl, hc⟩
      · exact fun he => nomatch he

end PhpSharp.Text

namespace PhpSharp.Conversion

open Files (Host Keeps Machine Disk Location Aside bind_run)
open Files.Disk (Reaches IsEntry)

/-! ## One class -/

/-- **What can come of a class,** by the files as they are: its facts are those that can be read,
    and if its file is written, then to its place. -/
def Plan.Comes (p : Plan) (s : Machine) (d : Sdk.Descriptor) : Status → Prop :=
  p.Ends d (· = (reflectFrom (s.disk.readText s.base) p.settings d).1) fun
    | .ok path => path = (Output.ofSettings p.settings).path d.kind d.shortName
    | .error e => ∃ path cause, e = .write path cause

/-- What an inspection says of a class, by the files as they are. -/
def inspection (st : Settings) (s : Machine) (d : Sdk.Descriptor) : Inspection :=
  match (reflectFrom (s.disk.readText s.base) st d).1 with
  | .error e => ⟨d, some e⟩
  | .ok facts => ⟨{ d with facts? := some facts }, none⟩

section
variable {p : Plan} {s s' : Machine} {d : Sdk.Descriptor} {I : Machine → Prop}

/-- What the log has to do with it: nothing. -/
structure Unlogged (I : Machine → Prop) : Prop where
  logged : ∀ {s es}, I s → I (s.logged es)

theorem Unlogged.silent (hI : Unlogged I) : Silent I :=
  ⟨fun _ _ h => ⟨hI.logged h, trivial⟩, fun _ h => ⟨h, trivial⟩⟩

/-- The facts of a class are those by the files as they are, if these are read as before. -/
theorem keeps_reflect_of (hI : Unlogged I)
    (hread : ∀ s', I s' → reflectFrom (s'.disk.readText s'.base) p.settings d =
      reflectFrom (s.disk.readText s.base) p.settings d) :
    Keeps I (reflect p.settings d : StateM Machine _)
      (· = (reflectFrom (s.disk.readText s.base) p.settings d).1) := by
  intro s' h
  rw [reflect_run, hread s' h]
  exact ⟨hI.logged h, rfl⟩

theorem keeps_inspectOne (hI : Unlogged I)
    (hread : ∀ s', I s' → reflectFrom (s'.disk.readText s'.base) p.settings d =
      reflectFrom (s.disk.readText s.base) p.settings d) :
    Keeps I (inspectOne p.settings d : StateM Machine _) (· = inspection p.settings s d) := by
  refine (keeps_reflect_of hI hread).bind fun facts hfacts => ?_
  rw [inspection, ← hfacts]
  cases facts <;> exact .pure rfl

end

/-! ## Where nothing is written -/

section
variable {p : Plan} {s s₁ : Machine} {found : Scan}

theorem unlogged_files (f : Disk × Location) :
    Unlogged fun s : Machine => (s.disk, s.base) = f := ⟨id⟩

/-- Where the files are as they were, they are read as before. -/
theorem reflectFrom_of_files {s' : Machine} (h : (s'.disk, s'.base) = (s.disk, s.base))
    (st : Settings) (d : Sdk.Descriptor) :
    reflectFrom (s'.disk.readText s'.base) st d = reflectFrom (s.disk.readText s.base) st d := by
  obtain ⟨hdisk, hbase⟩ := Prod.mk.inj h
  rw [hdisk, hbase]

/-- **An inspection** says what there is to say of every class, and changes no file. -/
theorem inspect_run (hf : (discover p.settings : StateM Machine _).run s = (.ok found, s₁)) :
    ∃ s', (inspect p.settings : StateM Machine _).run s =
        (.ok (found.descriptors.map (inspection p.settings s)), s') ∧
      (s'.disk, s'.base) = (s.disk, s.base) := by
  obtain ⟨hfiles, -⟩ := keeps_discover quiet_machine p.settings s rfl
  rw [hf] at hfiles
  obtain ⟨hfinal, hall⟩ := Keeps.mapM (fun d => keeps_inspectOne (p := p) (s := s) (d := d)
    (unlogged_files _) fun s' h => reflectFrom_of_files h p.settings d) found.descriptors s₁ hfiles
  rcases hrun : (found.descriptors.mapM (inspectOne p.settings) : StateM Machine _).run s₁ with
    ⟨inspections, s'⟩
  rw [hrun] at hfinal hall
  obtain rfl := hall
  refine ⟨s', ?_, hfinal⟩
  rw [inspect, bind_run hf]
  exact bind_run hrun

/-- **A dry run** plans what there is to plan for every class, and changes no file. -/
theorem Runs.of_dry {planned : List Outcome} {s' : Machine} (hdry : p.isDry = true)
    (hf : (discover p.settings : StateM Machine _).run s = (.ok found, s₁))
    (h : Runs p s planned s') :
    (s'.disk, s'.base) = (s.disk, s.base) ∧
      planned.map Outcome.subject = found.descriptors.mapIdx subjectAt ∧
      ∀ (i : Nat) (d), found.descriptors[i]? = some d →
        ∃ o, planned[i]? = some o ∧ p.Comes s d o.status := by
  obtain ⟨found', s₁', hf', hconverts⟩ := h.converts
  rw [hf] at hf'
  cases hf'
  obtain ⟨hfiles, -⟩ := keeps_discover quiet_machine p.settings s rfl
  rw [hf] at hfiles
  have hunlogged := unlogged_files (s.disk, s.base)
  have hkeeps : ∀ i, ∀ d ∈ found.descriptors,
      Keeps (fun s' : Machine => (s'.disk, s'.base) = (s.disk, s.base)) (process p i d)
        fun o => p.Comes s d o.status := fun i d _ =>
    keeps_process hunlogged.silent (keeps_reflect_of hunlogged fun s' h =>
      reflectFrom_of_files h p.settings d) (fun hwet => nomatch hwet.symm.trans hdry) i
  exact hconverts.keeps (I := fun s' => (s'.disk, s'.base) = (s.disk, s.base)) hkeeps hfiles

end

/-! ## Where files are written -/

section
variable {p : Plan} {s s' s₁ : Machine} {found : Scan} {d : Sdk.Descriptor}

/-- **The facts of a class are the same** after files were written outside of the input
    directories. -/
theorem reflectFrom_of_aside (hd : s.disk.Sound)
    (hr : ∀ k, s.disk.Reaches s.base (p.settings.inputDirectory k))
    (hfound : Found p.settings s.disk s.base d)
    (h : Aside (Outside p.settings s.base) s s') :
    reflectFrom (s'.disk.readText s'.base) p.settings d =
      reflectFrom (s.disk.readText s.base) p.settings d := by
  have hin : ∀ k name, ¬ Outside p.settings s.base
      ((p.settings.inputDirectory k).location s.base ++ [name]) := fun k name hout =>
    hout k name rfl
  rw [h.base]
  refine reflectFrom_congr ?_ fun name hname => ?_
  · obtain ⟨name, hsource, hthere⟩ := hfound.file
    have hfile : d.sourceFile = (p.settings.inputDirectory d.kind).entry name :=
      congrArg Sdk.Descriptor.sourceFile hsource
    rw [hfile]
    exact (h.disk.readText_eq (hr d.kind) (hd.name hthere).toIsEntry
      (hin d.kind name)).resolve_right fun hnone => hthere hnone.1
  · exact h.disk.toOption_readText (hr .object) hname (hin .object name)

theorem keeps_write_of (hb : s.disk.Based s.base)
    (ho : ∀ k k', (p.settings.outputDirectory k).location s.base ≠
      (p.settings.inputDirectory k').location s.base)
    (hout : Outside p.settings s.base
      (((Output.ofSettings p.settings).path d.kind d.shortName).location s.base)) (text : String) :
    Keeps (Aside (Outside p.settings s.base) s)
      (write (Output.ofSettings p.settings) d.kind d.shortName text : StateM Machine _) fun
        | .ok path => path = (Output.ofSettings p.settings).path d.kind d.shortName
        | .error e => ∃ path cause, e = .write path cause := by
  have hdirectory : (Output.ofSettings p.settings).directories.get d.kind =
      p.settings.outputDirectory d.kind := Sdk.PerKind.get_ofFn ..
  have haway : ∀ name, Outside p.settings s.base
      ((p.settings.outputDirectory d.kind).location s.base ++ [name]) := fun name k name' he =>
    ho d.kind k (List.append_inj_left' he rfl)
  refine keeps_write (Files.keeps_createDirectories _) (Files.keeps_replaceFile hb ?_ hout text)
    (fun _ => ⟨_, _, rfl⟩) (fun _ => ⟨_, _, rfl⟩) rfl
  rw [hdirectory]
  exact haway

/-- **A run** that writes outside of the input directories comes to what can come of the files as
    they were before it, class by class, and leaves all else alone. -/
theorem Runs.aside {outcomes : List Outcome} (hd : s.disk.Sound) (hb : s.disk.HasDirectory s.base)
    (hf : (discover p.settings : StateM Machine _).run s = (.ok found, s₁))
    (ho : ∀ k k', (p.settings.outputDirectory k).location s.base ≠
      (p.settings.inputDirectory k').location s.base)
    (hout : ∀ d ∈ found.descriptors, Outside p.settings s.base
      (((Output.ofSettings p.settings).path d.kind d.shortName).location s.base))
    (h : Runs p s outcomes s') :
    Aside (Outside p.settings s.base) s s' ∧
      outcomes.map Outcome.subject = found.descriptors.mapIdx subjectAt ∧
      ∀ (i : Nat) (d), found.descriptors[i]? = some d →
        ∃ o, outcomes[i]? = some o ∧ p.Comes s d o.status := by
  obtain ⟨found', s₁', hf', hconverts⟩ := h.converts
  rw [hf] at hf'
  cases hf'
  obtain ⟨⟨es, rfl⟩, hinputs, hfound⟩ := scanAll_run hf
  have hr : ∀ k, s.disk.Reaches s.base (p.settings.inputDirectory k) := fun k =>
    .of_isDirectory (hinputs k (Sdk.Kind.mem_all k))
  have hunlogged : Unlogged (Aside (Outside p.settings s.base) s) := ⟨fun h => h.logged _⟩
  have hkeeps : ∀ i, ∀ d ∈ found.descriptors,
      Keeps (Aside (Outside p.settings s.base) s) (process p i d)
        fun o => p.Comes s d o.status := fun i d hmem =>
    keeps_process hunlogged.silent (keeps_reflect_of hunlogged fun s' h =>
      reflectFrom_of_aside hd hr (hfound d hmem) h)
        (fun _ text => keeps_write_of (hd.based hb) ho (hout d hmem) text) i
  exact hconverts.keeps hkeeps ((Aside.refl _ s).logged es)

end

/-! ## Three ways to look at a class -/

/-- **An inspection, a dry run and a run agree on a class.** -/
structure Agree (p : Plan) (seen : Inspection) (dry real : Status) : Prop where
  /-- An inspection reports no errors but those of reading facts, -/
  errors : ∀ e, seen.error? = some e → ∃ path fault, e = .reflection path fault
  /-- and these are reported by all three or by none. -/
  reflection : ∀ path fault,
    (seen.error? = some (.reflection path fault) ↔ dry = .failed (.reflection path fault)) ∧
      (dry = .failed (.reflection path fault) ↔ real = .failed (.reflection path fault))
  /-- If nothing can be generated from the facts that were seen, both runs report that. -/
  template : ∀ name fault,
    (dry = .failed (.template name fault) ↔
      seen.error? = none ∧ name = seen.descriptor.shortName ∧
        CSharp.render p.settings.profile seen.descriptor p.date = .error fault) ∧
      (dry = .failed (.template name fault) ↔ real = .failed (.template name fault))
  /-- Otherwise the file that is planned is written, or could not be. -/
  file : ∀ text, seen.error? = none →
    CSharp.render p.settings.profile seen.descriptor p.date = .ok text →
      ∃ path, dry = .planned path ∧
        (real = .written path ∨ ∃ place cause, real = .failed (.write place cause))

section
variable {p : Plan} {s s₁ : Machine} {found : Scan} {d : Sdk.Descriptor}

/-- The only error of reading facts is that they could not be read. -/
theorem reflectFrom_error {read : Path → Except Files.OsError String} {st : Settings} {e : Error}
    (h : (reflectFrom read st d).1 = .error e) : ∃ fault, e = .reflection d.sourceFile fault := by
  unfold reflectFrom at h
  split at h
  · cases h
    exact ⟨_, rfl⟩
  · rename_i source _
    dsimp only at h
    generalize (Reflection.reflect st.sourceNamespaces _ d source).1 = answer at h
    cases answer <;> cases h
    exact ⟨_, rfl⟩

/-- **What comes of the same files agrees.** -/
theorem Agree.of_comes {dry real : Status} (hwet : p.isDry = false)
    (hdry : ({ p with isDry := true } : Plan).Comes s d dry) (hreal : p.Comes s d real) :
    Agree p (inspection p.settings s d) dry real := by
  rw [Plan.Comes] at hdry hreal
  unfold inspection
  cases hfacts : (reflectFrom (s.disk.readText s.base) p.settings d).1 with
  | error e =>
    rw [hfacts] at hdry hreal
    obtain ⟨fault, rfl⟩ := reflectFrom_error hfacts
    obtain rfl := hdry.of_error
    obtain rfl := hreal.of_error
    exact ⟨by simp, by simp, by simp, by simp⟩
  | ok facts =>
    rw [hfacts] at hdry hreal
    cases hrender : CSharp.render p.settings.profile { d with facts? := some facts } p.date with
    | error fault =>
      obtain rfl := hdry.of_fault hrender
      obtain rfl := hreal.of_fault hrender
      exact ⟨by simp, by simp, by simp [hrender, eq_comm], by simp [hrender]⟩
    | ok text =>
      obtain ⟨-, rfl⟩ := (hdry.of_text hrender).resolve_right fun h => nomatch h.1
      obtain ⟨-, hreal⟩ := (hreal.of_text hrender).resolve_left fun h => by
        rw [hwet] at h
        cases h.1
      rcases hreal with ⟨path, rfl, rfl⟩ | ⟨e, ⟨place, cause, rfl⟩, rfl⟩
      · exact ⟨by simp, by simp, by simp [hrender], by simp [hrender]⟩
      · exact ⟨by simp, by simp, by simp [hrender], by simp [hrender]⟩

end

/-! ## All classes -/

section
variable {p : Plan} {s s₁ : Machine} {found : Scan}

/-- **An inspection, a dry run and a run agree,** whatever calls the system refuses, if no output
    directory is an input directory and no file for a class is an entry of one (as is so wherever
    settings are valid, `outside_of_valid`).

    The inspection and the dry run change no file. All of them are about the classes that were
    found, in their order, and they agree on each, though the run changes files meanwhile; with any
    number of workers, in any order of their steps. -/
theorem modes_agree (hwet : p.isDry = false) (hd : s.disk.Sound) (hb : s.disk.HasDirectory s.base)
    (hf : (discover p.settings : StateM Machine _).run s = (.ok found, s₁))
    (ho : ∀ k k', (p.settings.outputDirectory k).location s.base ≠
      (p.settings.inputDirectory k').location s.base)
    (hout : ∀ d ∈ found.descriptors, Outside p.settings s.base
      (((Output.ofSettings p.settings).path d.kind d.shortName).location s.base)) :
    let dry : Plan := { p with isDry := true }
    let ds := found.descriptors
    ∃ inspections s₂, (inspect p.settings : StateM Machine _).run s = (.ok inspections, s₂) ∧
      s₂.disk = s.disk ∧
      inspections.map (fun seen => { seen.descriptor with facts? := none }) = ds ∧
      (∃ report, ((run dry : StateM Machine _).run s).1 = .ok report) ∧
      (∃ report, ((run p : StateM Machine _).run s).1 = .ok report) ∧
      ∀ planned s₃ outcomes s₄, Runs dry s planned s₃ → Runs p s outcomes s₄ →
        s₃.disk = s.disk ∧ planned.map Outcome.subject = ds.mapIdx subjectAt ∧
        outcomes.map Outcome.subject = ds.mapIdx subjectAt ∧
        ∀ (i : Nat) (seen o o'), inspections[i]? = some seen → planned[i]? = some o →
          outcomes[i]? = some o' → Agree p seen o.status o'.status := by
  intro dry ds
  obtain ⟨s₂, hinspect, hfiles⟩ := inspect_run hf
  obtain ⟨-, -, hfound⟩ := scanAll_run hf
  have hdescriptor : ∀ d ∈ ds, { (inspection p.settings s d).descriptor with facts? := none } = d :=
    fun d hmem => by
      obtain ⟨name, hname, -⟩ := (hfound d hmem).file
      have hnone : d.facts? = none := by rw [hname]; rfl
      unfold inspection
      split <;> rw [← hnone]
  refine ⟨_, s₂, hinspect, (Prod.mk.inj hfiles).1, ?_, ?_, ?_, ?_⟩
  · rw [List.map_map]
    exact (List.map_congr_left hdescriptor).trans (List.map_id ds)
  · obtain ⟨report, hrun, -⟩ := run_of_discover (p := dry) hf
    exact ⟨report, congrArg Prod.fst hrun⟩
  · obtain ⟨report, hrun, -⟩ := run_of_discover (p := p) hf
    exact ⟨report, congrArg Prod.fst hrun⟩
  · intro planned s₃ outcomes s₄ hplanned houtcomes
    obtain ⟨hsame, hsubjects, hdry⟩ := hplanned.of_dry (p := dry) rfl hf
    obtain ⟨-, hsubjects', hreal⟩ := houtcomes.aside hd hb hf ho hout
    refine ⟨(Prod.mk.inj hsame).1, hsubjects, hsubjects', ?_⟩
    intro i seen o o' hseen hi hi'
    rw [List.getElem?_map] at hseen
    obtain ⟨d, hget, rfl⟩ := Option.map_eq_some_iff.1 hseen
    obtain ⟨o₁, ho₁, hcomes⟩ := hdry i d hget
    obtain ⟨o₂, ho₂, hcomes'⟩ := hreal i d hget
    obtain rfl := Option.some.inj (hi.symm.trans ho₁)
    obtain rfl := Option.some.inj (hi'.symm.trans ho₂)
    exact .of_comes hwet hcomes hcomes'

theorem modes_agree_smallSdk :
    ∃ inspections s₂, (inspect smallPlan.settings : StateM Machine _).run smallSdk =
        (.ok inspections, s₂) ∧
      ∀ planned s₃ outcomes s₄, Runs { smallPlan with isDry := true } smallSdk planned s₃ →
        Runs smallPlan smallSdk outcomes s₄ →
        s₃.disk = smallSdk.disk ∧
        ∀ (i : Nat) (seen o o'), inspections[i]? = some seen → planned[i]? = some o →
          outcomes[i]? = some o' → Agree smallPlan seen o.status o'.status := by
  have hnames : ∀ d ∈ smallScan.descriptors, Sdk.isClassName d.shortName = true := by
    decide +kernel
  obtain ⟨inspections, s₂, hinspect, -, -, -, -, hagree⟩ := modes_agree (p := smallPlan) rfl
    sound_smallSdk.disk sound_smallSdk.base discover_smallSdk apart_smallSdk.inputs fun d hd =>
      outside_of_valid (by decide +kernel) apart_smallSdk.inputs (hnames d hd)
  refine ⟨inspections, s₂, hinspect, fun planned s₃ outcomes s₄ hplanned houtcomes => ?_⟩
  obtain ⟨hdisk, -, -, hall⟩ := hagree planned s₃ outcomes s₄ hplanned houtcomes
  exact ⟨hdisk, hall⟩

/-- A plan whose extension leads from a directory for generated files to a source. -/
def crossedPlan : Plan :=
  { smallPlan with settings := { smallPlan.settings with
      extension := "x/../../../sdk/v/B.php"
      jobs := 1
      profile := ⟨"Base", "Base", ⟨[], [], []⟩⟩ } }

/-- A disk with two sources, the text of the second of them, and that directory. -/
def crossedDisk (text : String) : Disk :=
  ⟨[(["sdk"], .directory), (["sdk", "o"], .directory), (["sdk", "f"], .directory),
    (["sdk", "v"], .directory), (["out"], .directory), (["out", "f"], .directory),
    (["out", "f", "A.x"], .directory),
    (["sdk", "f", "A.php"], .file (.text "<?php class A \x7b \x7d")),
    (["sdk", "v", "B.php"], .file (.text text))]⟩

/-- A machine with this disk. -/
def crossedSdk : Machine :=
  { smallSdk with disk := crossedDisk "<?php class B \x7b \x7d", refuses := fun _ => none }

/-- The class of the first source. -/
def crossedFirst : Sdk.Descriptor := (target crossedPlan.settings .fields).descriptor "A.php"

/-- The class of the second source. -/
def crossedSecond : Sdk.Descriptor := (target crossedPlan.settings .values).descriptor "B.php"

/-- What is found there. -/
def crossedScan : Scan where
  descriptors := [crossedFirst, crossedSecond]

/-- What is generated for the first class. -/
def crossedText : String :=
  Text.joinLines ["", "/// <summary>", "/// </summary>", "/// <date>2020-01-01 00:00:00</date>",
    "///", "/// <remarks>",
    "/// This file was automatically generated by sdkport from the PHP class",
    "/// \\FacebookAds\\Object\\Fields\\A. Edits will be lost on the next conversion.",
    "/// </remarks>", "", "namespace FacebookAds.Object.Fields", "\x7b",
    "    public class A : Base", "    \x7b", "    \x7d", "\x7d"]

/-- It has no class. -/
theorem ofSource_crossedText : Php.ClassFile.ofSource crossedText = .ok ⟨none, []⟩ := by
  have hnone : '?' ∉ crossedText.toList := fun hmem => by
    rcases Text.mem_joinLines hmem with hc | ⟨l, hl, hc⟩
    · cases hc
    · revert l
      decide +kernel
  rw [Php.ClassFile.ofSource, Php.tokenize_of_not_mem hnone]
  decide +kernel

theorem reflectFrom_of_noClass {read : Path → Except Files.OsError String} {st : Settings}
    {d : Sdk.Descriptor} {source : String} {file : Php.ClassFile}
    (hs : read d.sourceFile = .ok source) (hf : Php.ClassFile.ofSource source = .ok file)
    (hc : file.class? d.shortName = none) :
    (reflectFrom read st d).1 = .error (.reflection d.sourceFile (.noClass d.shortName)) := by
  rw [reflectFrom, hs]
  simp only [Reflection.reflect, hf, hc]
  rfl

theorem status_of_unread {s : Machine} {d : Sdk.Descriptor} {e : Error}
    (h : (reflectFrom (s.disk.readText s.base) p.settings d).1 = .error e) (i : Nat) :
    ((process p i d : StateM Machine _).run s).1.status = .failed e := by
  have hclock : (Host.clock : StateM Machine Nat).run s = (0, s) := rfl
  have hreflect := reflect_run s p.settings d
  rw [h] at hreflect
  have hconvert : (convert p d : StateM Machine _).run s = ((.failed e, none), _) :=
    bind_run hreflect
  rw [process, bind_run hclock, bind_run hconvert]
  rfl

/-- Where that is its text, the second class is not found. -/
theorem status_crossedSecond {s : Machine} (hdisk : s.disk = crossedDisk crossedText)
    (hbase : s.base = []) (i : Nat) :
    ((process crossedPlan i crossedSecond : StateM Machine _).run s).1.status =
      .failed (.reflection ⟨"sdk/v/B.php"⟩ (.noClass "B")) := by
  have hsource : crossedSecond.sourceFile = ⟨"sdk/v/B.php"⟩ := by decide +kernel
  have hname : crossedSecond.shortName = "B" := by decide +kernel
  have hread : (crossedDisk crossedText).readText [] ⟨"sdk/v/B.php"⟩ = .ok crossedText := rfl
  have hunread : (reflectFrom ((crossedDisk crossedText).readText []) crossedPlan.settings
      crossedSecond).1 =
        .error (.reflection crossedSecond.sourceFile (.noClass crossedSecond.shortName)) :=
    reflectFrom_of_noClass (hsource ▸ hread) ofSource_crossedText rfl
  rw [hsource, hname] at hunread
  refine status_of_unread (p := crossedPlan) ?_ i
  rwa [hdisk, hbase]

/-- What is generated for the first class is written over the source of the second one. -/
theorem process_crossedFirst :
    let answer := (process crossedPlan 0 crossedFirst : StateM Machine _).run crossedSdk
    answer.1.error? = none ∧ answer.2.disk = crossedDisk crossedText ∧ answer.2.base = [] := by
  decide +kernel

/-- Where the extension is not valid, a run can write over a source that it has not read yet: then
    it reports an error that neither an inspection nor a dry run does. -/
theorem modes_differ_crossedSdk :
    (∀ k k', (crossedPlan.settings.outputDirectory k).location crossedSdk.base ≠
      (crossedPlan.settings.inputDirectory k').location crossedSdk.base) ∧
    (∀ k, crossedSdk.disk.isDirectory crossedSdk.base (crossedPlan.settings.inputDirectory k)) ∧
    ((inspect crossedPlan.settings : StateM Machine _).run crossedSdk).1.toOption.map
      (·.map Inspection.error?) = some [none, none] ∧
    ((run { crossedPlan with isDry := true } : StateM Machine _).run crossedSdk).1.toOption.map
      (·.outcomes.map Outcome.error?) = some [none, none] ∧
    ∃ report, ((run crossedPlan : StateM Machine _).run crossedSdk).1 = .ok report ∧
      report.outcomes.map Outcome.error? =
        [none, some (.reflection ⟨"sdk/v/B.php"⟩ (.noClass "B"))] := by
  have hfound : (discover crossedPlan.settings : StateM Machine _).run crossedSdk =
      (.ok crossedScan, crossedSdk) := Prod.ext (by decide +kernel) rfl
  obtain ⟨report, hrun, houtcomes⟩ := run_of_discover (p := crossedPlan) hfound
  have halone : (processAll crossedPlan crossedScan.descriptors : StateM Machine _) =
      processInOrder crossedPlan 0 crossedScan.descriptors := processAll_alone crossedPlan _
  obtain ⟨herror, hdisk, hbase⟩ := process_crossedFirst
  rcases hfirst : (process crossedPlan 0 crossedFirst : StateM Machine _).run crossedSdk with
    ⟨first, s₁⟩
  rw [hfirst] at herror hdisk hbase
  have hunread := status_crossedSecond hdisk hbase 1
  rcases hsecond : (process crossedPlan 1 crossedSecond : StateM Machine _).run s₁ with
    ⟨second, s₂⟩
  rw [hsecond] at hunread
  have hboth : (processInOrder crossedPlan 0 crossedScan.descriptors : StateM Machine _).run
      crossedSdk = ([first, second], s₂) :=
    (bind_run hfirst).trans (bind_run (bind_run hsecond))
  rw [halone, hboth] at houtcomes
  refine ⟨fun k k' => ?_, fun k => ?_, by decide +kernel, by decide +kernel, report,
    congrArg Prod.fst hrun, ?_⟩
  · cases k <;> cases k' <;> decide +kernel
  · cases k <;> decide +kernel
  · rw [houtcomes, List.map_cons, List.map_singleton, herror, Outcome.error?, hunread]

end

end PhpSharp.Conversion
