/-
  Running again changes nothing but the date.

  * `discover_aside`: what is found is the same after files were written outside of the input
    directories;
  * `Prepared.again`: so what is known before a run is known after it, and the same comes of every
    class (`Onward.same`);
  * `rerun_idempotent`: hence a second run comes to what the first one did, and writes what it would
    have written without the first one.
-/
import PhpSharp.Proofs.CSharp.Date
import PhpSharp.Proofs.Conversion.Modes
import PhpSharp.Proofs.Conversion.Same

namespace PhpSharp.Conversion

open Files (Host Keeps Machine Disk Location Content Aside bind_run)
open Files.Disk (Reaches IsEntry IsName)

/-! ## Another date -/

/-- The plan with another date. -/
def Plan.on (p : Plan) (date : Text.Timestamp) : Plan := { p with date }

section
variable {p : Plan} {s s' s₁ : Machine} {ds : List Sdk.Descriptor} {d : Sdk.Descriptor}
  {history : List Nat} {l : Location}

theorem Plan.generated_of_error {p : Plan} {s : Machine} {d : Sdk.Descriptor} {e : Error}
    (h : (reflectFrom (s.disk.readText s.base) p.settings d).1 = .error e) :
    p.generated s d = .error e := by
  rw [Plan.generated, h]

theorem Plan.generated_of_ok {p : Plan} {s : Machine} {d : Sdk.Descriptor} {facts : Sdk.Facts}
    (h : (reflectFrom (s.disk.readText s.base) p.settings d).1 = .ok facts) :
    p.generated s d =
      (CSharp.render p.settings.profile { d with facts? := some facts } p.date).mapError
        (.template d.shortName) := by
  rw [Plan.generated, h]

/-- **What is generated for a class** has the date in one line, and whether anything is does not
    depend on it. -/
theorem Plan.generated_on (p : Plan) (s : Machine) (d : Sdk.Descriptor) :
    (∃ e, ∀ t, (p.on t).generated s d = .error e) ∨
      ∃ before after, ∀ t, (p.on t).generated s d = .ok (CSharp.dated before after t) := by
  cases hfacts : (reflectFrom (s.disk.readText s.base) p.settings d).1 with
  | error e => exact .inl ⟨e, fun t => Plan.generated_of_error (p := p.on t) hfacts⟩
  | ok facts =>
    have hgenerated := fun t => Plan.generated_of_ok (p := p.on t) hfacts
    rcases CSharp.render_dated p.settings.profile { d with facts? := some facts } with
      ⟨fault, hfault⟩ | ⟨before, after, htext⟩
    · refine .inl ⟨.template d.shortName fault, fun t => (hgenerated t).trans ?_⟩
      exact congrArg (Except.mapError _) (hfault t)
    · refine .inr ⟨before, after, fun t => (hgenerated t).trans ?_⟩
      exact congrArg (Except.mapError _) (htext t)

theorem Plan.conversion_on (p : Plan) (s : Machine) (d : Sdk.Descriptor) (t t' : Text.Timestamp) :
    (p.on t).conversion s d = (p.on t').conversion s d := by
  have hwriting : (p.on t).writing s d = (p.on t').writing s d := rfl
  unfold Plan.conversion
  rw [hwriting]
  rcases p.generated_on s d with ⟨e, herror⟩ | ⟨before, after, htext⟩
  · rw [herror, herror]
  · rw [htext, htext]
    rfl

theorem Plan.outcome_on (p : Plan) (s : Machine) (d : Sdk.Descriptor) (i : Nat)
    (t t' : Text.Timestamp) : (p.on t).outcome s d i = (p.on t').outcome s d i := by
  unfold Plan.outcome
  rw [p.conversion_on s d t t']

/-- **What is written for a class** has the date in one line, and whether anything is does not
    depend on it. -/
theorem Plan.effect_on (p : Plan) (s : Machine) (d : Sdk.Descriptor) :
    (∀ t, (p.on t).effect s d = []) ∨ ∃ before after, ∀ t, (p.on t).effect s d =
      [(p.location d s.base, .text (CSharp.dated before after t))] := by
  unfold Plan.effect
  rcases p.generated_on s d with ⟨e, herror⟩ | ⟨before, after, htext⟩
  · exact .inl fun t => by rw [herror]
  · cases hconversion : (p.conversion s d).1 with
    | written path =>
      refine .inr ⟨before, after, fun t => ?_⟩
      rw [htext, p.conversion_on s d t p.date, show p.on p.date = p from rfl, hconversion]
      rfl
    | _ =>
      refine .inl fun t => ?_
      rw [htext, p.conversion_on s d t p.date, show p.on p.date = p from rfl, hconversion]

/-- A location at which nothing is written for any class, whatever the date is; or the one of a
    file that has the date in one line. -/
theorem Plan.effects_on (p : Plan) (s : Machine) (ds : List Sdk.Descriptor) (l : Location) :
    (∀ t, ∀ d ∈ ds, ∀ c, (l, c) ∉ (p.on t).effect s d) ∨
      ∃ before after, ∀ t, ∃ d ∈ ds,
        (l, .text (CSharp.dated before after t)) ∈ (p.on t).effect s d := by
  by_cases h : ∃ t, ∃ d ∈ ds, ∃ c, (l, c) ∈ (p.on t).effect s d
  · obtain ⟨t, d, hd, c, hc⟩ := h
    rcases p.effect_on s d with hnone | ⟨before, after, heffect⟩
    · rw [hnone] at hc
      cases hc
    · refine .inr ⟨before, after, fun t' => ⟨d, hd, ?_⟩⟩
      rw [heffect] at hc ⊢
      rw [(Prod.mk.inj (List.mem_singleton.1 hc)).1]
      exact List.mem_singleton_self _
  · exact .inl fun t d hd c hc => h ⟨t, d, hd, c, hc⟩

theorem Prepared.on (hp : Prepared p s ds) (t : Text.Timestamp) : Prepared (p.on t) s ds :=
  ⟨hp.toSound, hp.inputs, hp.found, ⟨hp.apart.inputs, hp.apart.outside, hp.apart.files,
    hp.apart.directories, fun d hd l hl => (hp.apart.onward d hd l hl).imp_right fun h =>
      ⟨h.directory, h.file, h.temporary⟩⟩, hp.settled⟩

theorem Plan.Same.on (h : p.Same d s s') (t : Text.Timestamp) : (p.on t).Same d s s' :=
  ⟨h.base, h.facts, h.writing⟩

/-! ## After a run -/

/-- Directories among the entries are not looked into. -/
theorem select_append_directories (t : Target) (denylist : List String)
    (entries : List (String × Bool)) (names : List String) :
    t.select denylist (entries ++ names.map (·, true)) = t.select denylist entries := by
  simp [Target.select, List.filter_append, List.filter_map, Function.comp_def, classify]

/-- What is found in an input directory is the same after files were written outside of these, if
    directories that were made in it are seen as such. -/
theorem scan_aside {st : Settings} {k : Sdk.Kind} (hd : s.disk.Sound) (hd' : s'.disk.Sound)
    (hin : s.disk.isDirectory s.base (st.inputDirectory k) = true)
    (h : Aside (Outside st s.base) s s')
    (hseen : ∀ name, s.disk.get? ((st.inputDirectory k).location s.base ++ [name]) = none →
      s'.disk.HasDirectory ((st.inputDirectory k).location s.base ++ [name]) →
      ((st.inputDirectory k).entry name).textFault? = none) :
    (diskAnswers s'.disk s'.base).scan st k = (diskAnswers s.disk s.base).scan st k := by
  have hin' := Disk.isDirectory_mono h.disk.directory hin
  have hreach : s.disk.Reaches s.base (st.inputDirectory k) := .of_isDirectory hin
  have hno : ∀ name, ¬ Outside st s.base ((st.inputDirectory k).location s.base ++ [name]) :=
    fun name hout => hout k name rfl
  obtain ⟨made, hchildren, hmade⟩ := h.disk.children hno
  have hold : ∀ name ∈ s.disk.children ((st.inputDirectory k).location s.base),
      s'.disk.isDirectory s.base ((st.inputDirectory k).entry name) =
        s.disk.isDirectory s.base ((st.inputDirectory k).entry name) := by
    intro name hname
    have hthere := Disk.get?_of_mem_children hname
    have hsame := (h.disk.get? (hno name)).resolve_right fun hnone => hthere hnone.1
    have hentry := (hd.name hthere).toIsEntry
    rw [Bool.eq_iff_iff, (h.disk.reaches hreach).isDirectory_entry hentry,
      hreach.isDirectory_entry hentry, Disk.HasDirectory, hsame]
    rfl
  have hnew : ∀ name ∈ made,
      s'.disk.isDirectory s.base ((st.inputDirectory k).entry name) = true := by
    intro name hname
    obtain ⟨hnone, hdir⟩ := hmade name hname
    have hname := hd'.name hdir.ne_none
    exact ((h.disk.reaches hreach).isDirectory_entry hname.toIsEntry).2
      ⟨hseen name hnone hdir, hname.size_le, hdir⟩
  have hmarked : (diskAnswers s'.disk s.base).marked (st.inputDirectory k)
      (s'.disk.children ((st.inputDirectory k).location s.base)) =
        (diskAnswers s.disk s.base).marked (st.inputDirectory k)
          (s.disk.children ((st.inputDirectory k).location s.base)) ++ made.map (·, true) := by
    rw [hchildren, Answers.marked, List.map_append]
    refine congrArg₂ _ (List.map_congr_left fun name hname => ?_)
      (List.map_congr_left fun name hname => ?_)
    · exact congrArg (Prod.mk name) (hold name hname)
    · exact congrArg (Prod.mk name) (hnew name hname)
  rw [Answers.scan, Answers.scan, names?_diskAnswers, names?_diskAnswers, h.base, if_pos hin,
    if_pos hin']
  dsimp only
  rw [hmarked, select_append_directories]

/-- **What is found is the same** after files were written outside of the input directories. -/
theorem discover_aside {st : Settings} {found : Scan} (hd : s.disk.Sound) (hd' : s'.disk.Sound)
    (hf : (discover st : StateM Machine _).run s = (.ok found, s₁))
    (h : Aside (Outside st s.base) s s')
    (hseen : ∀ k name, s.disk.get? ((st.inputDirectory k).location s.base ++ [name]) = none →
      s'.disk.HasDirectory ((st.inputDirectory k).location s.base ++ [name]) →
      ((st.inputDirectory k).entry name).textFault? = none) :
    ∃ s₂, (discover st : StateM Machine _).run s' = (.ok found, s₂) := by
  obtain ⟨-, hinputs, -⟩ := scanAll_run hf
  have hsame : (diskAnswers s'.disk s'.base).discovery st Sdk.Kind.all = _ :=
    Answers.discovery_congr fun k hk => scan_aside hd hd' (hinputs k hk) h (hseen k)
  rw [← discover_eq, ← discover_eq, hf] at hsame
  exact ⟨_, Prod.ext (show _ = Except.ok found from hsame) rfl⟩

/-- **What is known before a run is known after it.** -/
theorem Prepared.again {writes : List (Location × Content)} (hp : Prepared p s ds)
    (ho : Onward p s writes s') (hw : ∀ w ∈ writes, w.1 ∈ ds.map (p.location · s.base)) :
    Prepared p s' ds := by
  have hs' := ho.toSound hp hw
  refine { hs' with inputs := fun k => ?_, found := fun d hd => ?_, apart := ?_,
                    settled := fun d hd => ?_ }
  · rw [ho.base]
    exact Disk.isDirectory_mono ho.disk.directory (hp.inputs k)
  · obtain ⟨⟨name, hname, hthere⟩, hclass⟩ := hp.found d hd
    refine ⟨⟨name, hname, ?_⟩, hclass⟩
    rw [ho.base]
    rcases ho.disk.get? (hp.not_mem_writes hw d.kind name) with hsame | ⟨-, hdir⟩
    · rwa [hsame]
    · exact hdir.ne_none
  · rw [ho.base]
    exact hp.apart
  · exact ((hp.settled d hd).grown hp.toSound hs' ho.base ho.refuses
      ((ho.grown hp hw).mono (Plan.way_subset_ways s.base))).1

/-- Directories that are made in input directories, on the way to those for generated files, are
    seen as such: their paths are not too long. -/
def Plan.Sees (p : Plan) (s : Machine) : Prop :=
  ∀ k name, s.disk.get? ((p.settings.inputDirectory k).location s.base ++ [name]) = none →
    (p.settings.inputDirectory k).location s.base ++ [name] ∈ p.ways s.base →
    ((p.settings.inputDirectory k).entry name).textFault? = none

/-- **A second run** finds what the first one did, and the same comes of every class. -/
theorem Runs.again {outcomes : List Outcome} {found : Scan} (hp : Prepared p s found.descriptors)
    (hf : (discover p.settings : StateM Machine _).run s = (.ok found, s₁)) (hsees : p.Sees s)
    (h : Runs p s outcomes s') :
    (∃ s₂, (discover p.settings : StateM Machine _).run s' = (.ok found, s₂)) ∧
      Prepared p s' found.descriptors ∧ ∀ d ∈ found.descriptors, p.Same d s s' := by
  have haside := (h.aside hp.disk hp.base hf hp.apart.inputs hp.apart.outside).1
  obtain ⟨-, history, -, hg⟩ := h.progress hp hf
  refine ⟨discover_aside hp.disk hg.onward.sound hf haside fun k name hnone hdir => ?_,
    hp.again hg.onward Plan.location_of_mem_effects, fun d hd =>
      hg.onward.same hp hd Plan.location_of_mem_effects⟩
  have hfree := (hg.onward.disk.made hdir).resolve_left fun hold => hold.ne_none hnone
  exact hsees k name hnone (Disk.mem_free.1 hfree).1

/-- **What two runs leave at a location:** a file that has the date in one line, or what was there
    before both. -/
theorem Progress.file_again {t₁ t₂ : Text.Timestamp} {history₁ history₂ : List Nat} {s₂ : Machine}
    (hsame : ∀ d ∈ ds, p.Same d s s₁) (hg₁ : Progress (p.on t₁) s ds history₁ s₁)
    (hall₁ : history₁.Perm (List.range ds.length)) (hg₂ : Progress (p.on t₂) s₁ ds history₂ s₂)
    (hall₂ : history₂.Perm (List.range ds.length)) (l : Location) :
    ((∀ t, ∀ d ∈ ds, ∀ c, (l, c) ∉ (p.on t).effect s d) ∧
        ∀ c, s₂.disk.get? l = some (.file c) ↔ s₁.disk.get? l = some (.file c)) ∨
      ∃ before after, (∀ t, ∃ d ∈ ds,
          (l, .text (CSharp.dated before after t)) ∈ (p.on t).effect s d) ∧
        s₁.disk.get? l = some (.file (.text (CSharp.dated before after t₁))) ∧
        s₂.disk.get? l = some (.file (.text (CSharp.dated before after t₂))) := by
  have heffect : ∀ d ∈ ds, (p.on t₂).effect s₁ d = (p.on t₂).effect s d := fun d hd =>
    ((hsame d hd).on t₂).effect_eq
  rcases p.effects_on s ds l with hnone | ⟨before, after, hwritten⟩
  · refine .inl ⟨hnone, fun c => hg₂.file_of_unwritten hall₂ fun d hd c => ?_⟩
    rw [heffect d hd]
    exact hnone t₂ d hd c
  · obtain ⟨d, hd, hmem⟩ := hwritten t₂
    refine .inr ⟨before, after, hwritten, (hg₁.file hall₁).2 (.inl (hwritten t₁)),
      (hg₂.file hall₂).2 (.inl ⟨d, hd, ?_⟩)⟩
    rwa [heffect d hd]

/-- **A file that is written by two runs** is the same but for the date. -/
theorem Progress.readText_again {t₁ t₂ : Text.Timestamp} {history₁ history₂ : List Nat}
    {s₂ : Machine} {i : Nat} {path : Path}
    (hsame : ∀ d ∈ ds, p.Same d s s₁) (hg₁ : Progress (p.on t₁) s ds history₁ s₁)
    (hall₁ : history₁.Perm (List.range ds.length)) (hg₂ : Progress (p.on t₂) s₁ ds history₂ s₂)
    (hall₂ : history₂.Perm (List.range ds.length)) (hd : ds[i]? = some d)
    (hpath : ((p.on t₁).conversion s d).1 = .written path) :
    ∃ before after, s₁.disk.readText s.base path = .ok (CSharp.dated before after t₁) ∧
      s₂.disk.readText s.base path = .ok (CSharp.dated before after t₂) := by
  have hthere := (hsame d (List.mem_of_getElem? hd)).on t₂
  have hrange := List.mem_range.2 (List.getElem?_eq_some_iff.1 hd).1
  have hpath' : ((p.on t₂).conversion s₁ d).1 = .written path := by
    rwa [hthere.conversion_eq, p.conversion_on s d t₂ t₁]
  obtain ⟨text₁, htext₁, hread₁⟩ := hg₁.readText (hall₁.mem_iff.2 hrange) hd hpath
  obtain ⟨text₂, htext₂, hread₂⟩ := hg₂.readText (hall₂.mem_iff.2 hrange) hd hpath'
  rw [hthere.generated_eq] at htext₂
  rw [hg₁.onward.base] at hread₂
  rcases p.generated_on s d with ⟨e, herror⟩ | ⟨before, after, htext⟩
  · cases htext₁.symm.trans (herror t₁)
  · obtain rfl := Except.ok.inj (htext₁.symm.trans (htext t₁))
    obtain rfl := Except.ok.inj (htext₂.symm.trans (htext t₂))
    exact ⟨before, after, hread₁, hread₂⟩

/-- **Running again changes nothing but the date,** where classes keep apart and whether a directory
    can be made does not depend on what else is made. Calls may be refused by their place.

    A second run has the outcomes of the first one, which are those of a run at that time without
    the first one, too. The same files are there, and they hold what they would hold without the
    first run: each file that is written is as after the first run, but for the date; and all others
    are the same. -/
theorem rerun_idempotent {found : Scan} {s₀ s₁ s₂' : Machine} {first alone : List Outcome}
    {t₁ t₂ : Text.Timestamp} (hs : Sound s)
    (hf : (discover p.settings : StateM Machine _).run s = (.ok found, s₀))
    (ha : Apart p s.base found.descriptors)
    (hd : ∀ d ∈ found.descriptors, Settled s (p.directory d)) (hsees : p.Sees s)
    (hfirst : Runs (p.on t₁) s first s₁) (halone : Runs (p.on t₂) s alone s₂') :
    (∃ report, ((run (p.on t₂) : StateM Machine _).run s₁).1 = .ok report) ∧
      ∀ second s₂, Runs (p.on t₂) s₁ second s₂ →
        (second = first ∧ alone = first) ∧
        (∀ l, s₂.disk.HasFile l ↔ s₁.disk.HasFile l) ∧
        (∀ l c, s₂.disk.get? l = some (.file c) ↔ s₂'.disk.get? l = some (.file c)) ∧
        (∀ o ∈ first, ∀ path, o.status = .written path → ∃ before after,
          s₁.disk.readText s.base path = .ok (CSharp.dated before after t₁) ∧
            s₂.disk.readText s.base path = .ok (CSharp.dated before after t₂)) ∧
        (∀ l, (∀ o ∈ first, ∀ path, o.status = .written path → path.location s.base ≠ l) →
          ∀ c, s₂.disk.get? l = some (.file c) ↔ s₁.disk.get? l = some (.file c)) ∧
        (t₁ = t₂ → ∀ l c, s₂.disk.get? l = some (.file c) ↔ s₁.disk.get? l = some (.file c)) := by
  obtain ⟨hp, -⟩ := Prepared.of_discover hs hf ha hd
  obtain ⟨hfirst', history₁, hall₁, hg₁⟩ := hfirst.progress (hp.on t₁) hf
  obtain ⟨halone', history, hall, hg⟩ := halone.progress (hp.on t₂) hf
  obtain ⟨⟨s₃, hf₁⟩, hp₁, hsame⟩ := hfirst.again (hp.on t₁) hf hsees
  replace hp₁ : Prepared p s₁ found.descriptors := hp₁.on p.date
  replace hsame : ∀ d ∈ found.descriptors, p.Same d s s₁ := fun d hd => (hsame d hd).on p.date
  obtain ⟨report, hreport, -⟩ := run_of_discover (p := p.on t₂) hf₁
  refine ⟨⟨report, congrArg Prod.fst hreport⟩, fun second s₂ hsecond => ?_⟩
  obtain ⟨hsecond', history₂, hall₂, hg₂⟩ := hsecond.progress (hp₁.on t₂) hf₁
  have hfile := hg₁.file_again hsame hall₁ hg₂ hall₂
  refine ⟨⟨?_, ?_⟩, fun l => ?_, fun l c => ?_, fun o ho path hpath => ?_, fun l hl c => ?_, ?_⟩
  · rw [hsecond', hfirst', List.mapIdx_eq_mapIdx_iff]
    intro i hi
    rw [((hsame _ (List.getElem_mem hi)).on t₂).outcome_eq, p.outcome_on s _ i t₂ t₁]
  · rw [halone', hfirst']
    exact congrArg found.descriptors.mapIdx (funext₂ fun i d => p.outcome_on s d i t₂ t₁)
  · rcases hfile l with ⟨-, hkept⟩ | ⟨before, after, -, h₁, h₂⟩
    · exact exists_congr hkept
    · exact iff_of_true ⟨_, h₂⟩ ⟨_, h₁⟩
  · rcases hfile l with ⟨hnone, hkept⟩ | ⟨before, after, hwritten, -, h₂⟩
    · rw [hkept, hg₁.file_of_unwritten hall₁ (hnone t₁), hg.file_of_unwritten hall (hnone t₂)]
    · rw [h₂, (hg.file hall).2 (.inl (hwritten t₂))]
  · rw [hfirst'] at ho
    obtain ⟨i, hi, rfl⟩ := List.mem_mapIdx.1 ho
    exact hg₁.readText_again hsame hall₁ hg₂ hall₂ (List.getElem?_eq_getElem hi) hpath
  · rcases hfile l with ⟨-, hkept⟩ | ⟨before, after, hwritten, -⟩
    · exact hkept c
    · obtain ⟨d, hd, hmem⟩ := hwritten t₁
      obtain ⟨path, hpath, hlocation⟩ := Plan.of_mem_effect hmem
      obtain ⟨i, hi, rfl⟩ := List.getElem_of_mem hd
      refine absurd hlocation (hl ((p.on t₁).outcome s found.descriptors[i] i) ?_ path hpath)
      rw [hfirst']
      exact List.mem_mapIdx.2 ⟨i, hi, rfl⟩
  · rintro rfl l c
    rcases hfile l with ⟨-, hkept⟩ | ⟨before, after, -, h₁, h₂⟩
    · exact hkept c
    · rw [h₁, h₂]

end

/-- Three classes are converted twice, a year later. -/
theorem rerun_idempotent_smallSdk :
    let now := smallPlan.date
    let later : Text.Timestamp := ⟨2021, 1, 1, 0, 0, 0⟩
    ∃ first s₁ alone s₂', Runs (smallPlan.on now) smallSdk first s₁ ∧
      Runs (smallPlan.on later) smallSdk alone s₂' ∧
      ∀ second s₂, Runs (smallPlan.on later) s₁ second s₂ → second = first ∧
        ∀ l c, s₂.disk.get? l = some (.file c) ↔ s₂'.disk.get? l = some (.file c) := by
  intro now later
  have hruns : ∀ t, ∃ outcomes s', Runs (smallPlan.on t) smallSdk outcomes s' := fun t => by
    obtain ⟨report, hrun, -⟩ := run_of_discover (p := smallPlan.on t) discover_smallSdk
    exact ⟨_, _, .program hrun⟩
  have hsees : smallPlan.Sees smallSdk := by
    have hways : ∀ l ∈ smallPlan.ways smallSdk.base, l.length ≤ 2 := by decide +kernel
    have hinputs : ∀ k, ((smallPlan.settings.inputDirectory k).location smallSdk.base).length = 2 :=
      fun k => by cases k <;> decide +kernel
    intro k name _ hmem
    have hlength := hways _ hmem
    rw [List.length_append, hinputs, List.length_singleton] at hlength
    exact absurd hlength (by decide)
  obtain ⟨first, s₁, hfirst⟩ := hruns now
  obtain ⟨alone, s₂', halone⟩ := hruns later
  obtain ⟨-, hagain⟩ := rerun_idempotent sound_smallSdk discover_smallSdk apart_smallSdk
    settled_smallSdk hsees hfirst halone
  refine ⟨first, s₁, alone, s₂', hfirst, halone, fun second s₂ hsecond => ?_⟩
  obtain ⟨⟨hsame, -⟩, -, hfiles, -⟩ := hagain second s₂ hsecond
  exact ⟨hsame, hfiles⟩

end PhpSharp.Conversion
