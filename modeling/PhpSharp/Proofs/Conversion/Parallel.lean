/-
  Any number of workers gives the result of one.

  * `inOrder_map`: outcomes in the order of their places are determined by what is known of each;
  * `steady_process`: classes that keep apart do not disturb each other, so that every order of
    the workers' steps gives the outcomes and the files of a run without workers
    (`workers_sequential`).
-/
import Mathlib.Data.List.Sort
import PhpSharp.Proofs.Conversion.Pool
import PhpSharp.Proofs.Conversion.Process

namespace PhpSharp.Conversion

open Files (Machine Host OsError Location Disk Content)

/-! ## Outcomes in order -/

/-- **Outcomes in order** show what is expected of each place, in the order of the places. -/
theorem inOrder_map {γ : Type} {view : Outcome → γ} (key : γ → Nat)
    (hk : ∀ o, key (view o) = o.index) {outcomes : List Outcome} {expected : List γ}
    (hp : (outcomes.map view).Perm expected)
    (hs : expected.Pairwise fun a b => key a < key b) :
    (inOrder outcomes).map view = expected := by
  have hsorted : ((inOrder outcomes).map view).Pairwise fun a b => key a ≤ key b := by
    rw [List.pairwise_map]
    refine (List.pairwise_mergeSort ?_ ?_ outcomes).imp (fun h => ?_)
    · intro a b c hab hbc
      rw [decide_eq_true_eq] at hab hbc ⊢
      exact hab.trans hbc
    · intro a b
      simp only [Bool.or_eq_true, decide_eq_true_eq]
      exact Nat.le_total a.index b.index
    · rw [hk, hk]
      exact of_decide_eq_true h
  have hperm : ((inOrder outcomes).map view).Perm expected :=
    ((List.mergeSort_perm outcomes _).map view).trans hp
  -- places are different, so that the same place is the same outcome
  have hinj : ∀ a ∈ expected, ∀ b ∈ expected, key a = key b → a = b := by
    intro a ha b hb he
    obtain ⟨i, hi, rfl⟩ := List.getElem_of_mem ha
    obtain ⟨j, hj, rfl⟩ := List.getElem_of_mem hb
    rcases Nat.lt_trichotomy i j with hij | rfl | hij
    · exact absurd he (Nat.ne_of_lt (List.pairwise_iff_getElem.1 hs i j hi hj hij))
    · rfl
    · exact absurd he.symm (Nat.ne_of_lt (List.pairwise_iff_getElem.1 hs j i hj hi hij))
  refine hperm.eq_of_pairwise (fun a b ha hb hab hba => ?_) hsorted (hs.imp Nat.le_of_lt)
  exact hinj a (hperm.subset ha) b hb (Nat.le_antisymm hab hba)

/-- Places are in order. -/
theorem pairwise_mapIdx {α γ : Type} {key : γ → Nat} {f : Nat → α → γ}
    (hk : ∀ i a, key (f i a) = i) (as : List α) :
    (as.mapIdx f).Pairwise fun a b => key a < key b := by
  rw [List.pairwise_iff_getElem]
  intro i j hi hj hij
  rw [List.getElem_mapIdx, List.getElem_mapIdx, hk, hk]
  exact hij

/-! ## What is known of any outcome -/

/-- What an outcome says of its class: its place, its kind, its name and its source. -/
def Outcome.subject (o : Outcome) : Nat × Sdk.Kind × String × Path :=
  (o.index, o.kind, o.shortName, o.sourceFile)

/-- What the outcome of a class at a place is to say of it. -/
def subjectAt (i : Nat) (d : Sdk.Descriptor) : Nat × Sdk.Kind × String × Path :=
  (i, d.kind, d.shortName, d.sourceFile)

/-- The state after jobs were done in some order. -/
def Pool.after {σ α β : Type} (jobs : List α) (work : Nat → α → StateM σ β) (s : σ)
    (history : List Nat) : σ :=
  history.foldl (fun s i => match jobs[i]? with
    | some job => ((work i job).run s).2
    | none => s) s

theorem Pool.after_concat {σ α β : Type} {jobs : List α} {work : Nat → α → StateM σ β} {s : σ}
    {history : List Nat} {i : Nat} {job : α} (h : jobs[i]? = some job) :
    Pool.after jobs work s (history ++ [i]) =
      ((work i job).run (Pool.after jobs work s history)).2 := by
  rw [Pool.after, List.foldl_append, List.foldl_cons, List.foldl_nil, h]
  rfl

theorem subject_process {σ : Type} [Host (StateM σ)] (p : Plan) (i : Nat) (d : Sdk.Descriptor)
    (s : σ) : ((process p i d : StateM σ Outcome).run s).1.subject = subjectAt i d := by
  unfold process
  rcases hclock : (Host.clock : StateM σ Nat).run s with ⟨started, s₁⟩
  rw [Files.bind_run hclock]
  rcases hconvert : (convert p d : StateM σ _).run s₁ with ⟨⟨status, took?⟩, s₂⟩
  rw [Files.bind_run hconvert]
  cases status <;> rfl

/-- Whatever a system does, an outcome is about its class. -/
theorem steady_subject {σ : Type} [Host (StateM σ)] (p : Plan) (ds : List Sdk.Descriptor)
    (s : σ) : Pool.Steady ds (process p : Nat → Sdk.Descriptor → StateM σ Outcome)
      Outcome.subject subjectAt (fun history s' => s' = Pool.after ds (process p) s history) where
  result := fun {_ s i d} _ _ _ => subject_process p i d s
  state := by
    rintro history s' i d rfl - hd
    rw [Pool.after_concat hd]

/-- Every class either succeeded or failed. -/
theorem Report.length_outcomes (r : Report) : r.outcomes.length = r.succeeded + r.failed := by
  have hle : r.succeeded ≤ r.outcomes.length := List.countP_le_length
  rw [Report.failed]
  omega

/-! ## One after the other -/

/-- **A run without workers** has the expected outcomes, too. -/
theorem processInOrder_run {σ γ : Type} [Host (StateM σ)] {p : Plan} {ds : List Sdk.Descriptor}
    {view : Outcome → γ} {expected : Nat → Sdk.Descriptor → γ} {Good : List Nat → σ → Prop}
    (hs : Pool.Steady ds (process p) view expected Good) (before : List Sdk.Descriptor)
    {rest : List Sdk.Descriptor} (hds : ds = before ++ rest) {s : σ}
    (hg : Good (List.range before.length) s) :
    (((processInOrder p before.length rest : StateM σ _).run s).1.map view =
        rest.mapIdx fun i => expected (before.length + i)) ∧
      Good (List.range ds.length) ((processInOrder p before.length rest : StateM σ _).run s).2 := by
  induction rest generalizing before s with
  | nil =>
    rw [List.append_nil] at hds
    subst hds
    exact ⟨rfl, hg⟩
  | cons d rest ih =>
    have hd : ds[before.length]? = some d := by
      rw [hds, List.getElem?_append_right (Nat.le_refl _), Nat.sub_self]
      rfl
    have hnew : before.length ∉ List.range before.length := by simp
    have hlength : (before ++ [d]).length = before.length + 1 := List.length_append
    have hgood := hs.state hg hnew hd
    rw [← List.range_succ, Nat.succ_eq_add_one, ← hlength] at hgood
    obtain ⟨houtcomes, hfinal⟩ :=
      ih (before ++ [d]) (hds.trans (List.append_cons before d rest)) hgood
    rw [hlength] at houtcomes hfinal
    refine ⟨?_, hfinal⟩
    rw [List.mapIdx_cons]
    refine congrArg₂ List.cons (hs.result hg hnew hd) (houtcomes.trans ?_)
    simp only [Nat.add_assoc, Nat.add_comm 1]

/-! ## Classes that keep apart -/

/-- What is written for the classes of a history. -/
def Plan.effects (p : Plan) (s : Machine) (ds : List Sdk.Descriptor) (history : List Nat) :
    List (Location × Content) :=
  history.flatMap fun i => (ds[i]?.map (p.effect s)).getD []

section
variable {p : Plan} {s s' : Machine} {ds : List Sdk.Descriptor} {history : List Nat}
  {l : Location} {c : Content}

theorem Plan.mem_effects :
    (l, c) ∈ p.effects s ds history ↔
      ∃ i ∈ history, ∃ d, ds[i]? = some d ∧ (l, c) ∈ p.effect s d := by
  unfold Plan.effects
  rw [List.mem_flatMap]
  refine exists_congr fun i => and_congr_right fun _ => ?_
  cases ds[i]? with
  | none => simp
  | some d => simp

theorem Plan.location_of_mem_effect {d : Sdk.Descriptor} (h : (l, c) ∈ p.effect s d) :
    l = p.location d s.base := by
  unfold Plan.effect at h
  split at h
  · exact (Prod.mk.inj (List.mem_singleton.1 h)).1
  · cases h

theorem Plan.location_of_mem_effects :
    ∀ w ∈ p.effects s ds history, w.1 ∈ ds.map (p.location · s.base) := by
  rintro ⟨l, c⟩ hl
  obtain ⟨j, -, d, hd, hl⟩ := Plan.mem_effects.1 hl
  exact List.mem_map.2 ⟨d, List.mem_of_getElem? hd, (Plan.location_of_mem_effect hl).symm⟩

/-- **After the classes of a history,** what was written for them is on the disk, and the files are
    found. -/
structure Progress (p : Plan) (s : Machine) (ds : List Sdk.Descriptor) (history : List Nat)
    (s' : Machine) : Prop where
  onward : Onward p s (p.effects s ds history) s'
  finds : ∀ i ∈ history, ∀ d, ds[i]? = some d → ∀ path, (p.conversion s d).1 = .written path →
    s'.disk.locate s.base (p.path d) = .ok (p.location d s.base)

theorem Progress.refl (hp : Prepared p s ds) (es : List Log.Entry) :
    Progress p s ds [] (s.logged es) :=
  ⟨⟨rfl, rfl, .refl _ _, hp.disk⟩, fun _ hi => nomatch hi⟩

/-- A class that was not processed yet is processed as if it were the first one. -/
theorem Progress.process_run (hp : Prepared p s ds) (hg : Progress p s ds history s') {i : Nat}
    {d : Sdk.Descriptor} (hi : i ∉ history) (hd : ds[i]? = some d) :
    ∃ s'', (process p i d : StateM Machine _).run s' = (p.outcome s d i, s'') ∧
      Progress p s ds (history ++ [i]) s'' := by
  have hmem : d ∈ ds := List.mem_of_getElem? hd
  have hnew : ∀ c, (p.location d s.base, c) ∉ p.effects s ds history := by
    intro c hl
    obtain ⟨j, hj, d', hd', hl⟩ := Plan.mem_effects.1 hl
    have hsame : (ds.map (p.location · s.base))[i]? = (ds.map (p.location · s.base))[j]? := by
      rw [List.getElem?_map, List.getElem?_map, hd, hd']
      exact congrArg some (Plan.location_of_mem_effect hl)
    have hlt : i < (ds.map (p.location · s.base)).length := by
      rw [List.length_map]
      exact (List.getElem?_eq_some_iff.1 hd).1
    obtain rfl := (List.getElem?_inj hlt hp.apart.files).1 hsame
    exact hi hj
  obtain ⟨s'', hrun, ho, hkept, hfinds⟩ :=
    hg.onward.process_run hp hmem Plan.location_of_mem_effects hnew i
  have heffects : p.effects s ds (history ++ [i]) = p.effects s ds history ++ p.effect s d := by
    unfold Plan.effects
    rw [List.flatMap_append, List.flatMap_singleton, hd]
    rfl
  refine ⟨s'', hrun, by rwa [heffects], fun j hj d' hd' path hpath => ?_⟩
  rcases List.mem_append.1 hj with hj | hj
  · exact Disk.locate_mono (hkept _) (hg.finds j hj d' hd' path hpath)
  · obtain rfl := List.mem_singleton.1 hj
    obtain rfl := Option.some.inj (hd.symm.trans hd')
    exact hfinds path hpath

/-- **Classes that keep apart do not disturb each other.** -/
theorem steady_process (hp : Prepared p s ds) :
    Pool.Steady ds (process p : Nat → Sdk.Descriptor → StateM Machine Outcome) id
      (fun i d => p.outcome s d i) (Progress p s ds) where
  result := by
    intro history s' i d hg hi hd
    obtain ⟨s'', hrun, -⟩ := hg.process_run hp hi hd
    rw [hrun]
    rfl
  state := by
    intro history s' i d hg hi hd
    obtain ⟨s'', hrun, hnext⟩ := hg.process_run hp hi hd
    rw [hrun]
    exact hnext

/-- What is in the files after all classes does not depend on the order of these. -/
theorem Progress.file_iff {history' : List Nat} {s'' : Machine} (hg : Progress p s ds history s')
    (hg' : Progress p s ds history' s'') (hperm : history.Perm history') :
    s'.disk.get? l = some (.file c) ↔ s''.disk.get? l = some (.file c) := by
  have hsame : ∀ l c, (l, c) ∈ p.effects s ds history ↔ (l, c) ∈ p.effects s ds history' := by
    intro l c
    rw [Plan.mem_effects, Plan.mem_effects]
    exact exists_congr fun i => and_congr_left' hperm.mem_iff
  rw [hg.onward.disk.file, hg'.onward.disk.file]
  simp only [hsame]

/-- **A file that was written** holds what was generated for its class. -/
theorem Progress.readText (hg : Progress p s ds history s') {i : Nat} {d : Sdk.Descriptor}
    {path : Path} (hi : i ∈ history) (hd : ds[i]? = some d)
    (hwritten : (p.conversion s d).1 = .written path) :
    ∃ text, p.generated s d = .ok text ∧ s'.disk.readText s.base path = .ok text := by
  obtain ⟨hwriting, text, htext, heffect⟩ := Plan.of_conversion_eq_written hwritten
  obtain ⟨rfl, hmove⟩ := Plan.writing_eq_ok hwriting
  obtain ⟨-, -, hslash, -⟩ := Disk.moveAnswer_eq_ok.1 hmove
  have hfile : s'.disk.get? (p.location d s.base) = some (.file (.text text)) := by
    refine hg.onward.disk.file.2 (.inl (Plan.mem_effects.2 ⟨i, hi, d, hd, ?_⟩))
    rw [heffect]
    exact List.mem_singleton_self _
  exact ⟨text, htext, Disk.readText_of_file (hg.finds i hi d hd _ hwritten) hfile hslash⟩

theorem Prepared.of_discover {found : Scan} (hs : Sound s)
    (hf : (discover p.settings : StateM Machine _).run s = (.ok found, s'))
    (ha : Apart p s.base found.descriptors)
    (hd : ∀ d ∈ found.descriptors, Settled s (p.directory d)) :
    Prepared p s found.descriptors ∧ ∃ es, s' = s.logged es := by
  obtain ⟨hlogged, hinputs, hfound⟩ := scanAll_run hf
  exact ⟨{ hs with
    inputs := fun k => hinputs k (Sdk.Kind.mem_all k), found := hfound, apart := ha
    settled := hd }, hlogged⟩

end

/-! ## Any number of workers -/

/-- The plan for one worker. -/
def Plan.alone (p : Plan) : Plan := { p with settings := { p.settings with jobs := 1 } }

/-- The number of workers is nothing to a class. -/
theorem processInOrder_alone {σ : Type} [Host (StateM σ)] (p : Plan) (i : Nat)
    (ds : List Sdk.Descriptor) :
    (processInOrder p.alone i ds : StateM σ _) = processInOrder p i ds := by
  induction ds generalizing i with
  | nil => rfl
  | cons d ds ih =>
    rw [processInOrder, processInOrder, ih]
    rfl

/-- A run with one worker converts the classes one after the other. -/
theorem processAll_alone {σ : Type} [Host (StateM σ)] (p : Plan) (ds : List Sdk.Descriptor) :
    (processAll p.alone ds : StateM σ _) = processInOrder p 0 ds := by
  have hcount : workerCount p.alone.settings ds.length = 1 := by
    show max 1 (min 1 (max ds.length 1)) = 1
    omega
  rw [processAll, hcount, if_pos rfl, processInOrder_alone]

/-- What was generated for a class is what its facts are rendered as. -/
theorem Plan.of_generated_eq_ok {p : Plan} {s : Machine} {d : Sdk.Descriptor} {text : String}
    (h : p.generated s d = .ok text) :
    ∃ facts, ((reflect p.settings d : StateM Machine _).run s).1 = .ok facts ∧
      CSharp.render p.settings.profile { d with facts? := some facts } p.date = .ok text := by
  rw [reflect_run]
  unfold Plan.generated at h
  split at h
  · cases h
  · rename_i facts hfacts
    refine ⟨facts, hfacts, ?_⟩
    cases hrender : CSharp.render p.settings.profile { d with facts? := some facts } p.date with
    | error e =>
      rw [hrender] at h
      cases h
    | ok text' =>
      rw [hrender] at h
      cases h
      rfl

/-- **Any number of workers gives the result of one,** whatever the order of their steps is, once
    all of them have stopped.

    On any system every class was processed once, and the outcomes are those of the classes, one
    for each, in the order in which these were found.

    On a machine as systems are, which may refuse calls by their place, where classes keep apart and
    whether a directory can be made does not depend on what else is made, the outcomes are those of
    a run with one worker, and so are the files; and every file that was written holds what its own
    class is rendered as. -/
theorem workers_sequential (p : Plan) {size : Nat} (hsize : 0 < size) (order : List Nat) :
    (∀ {σ : Type} [Host (StateM σ)] (ds : List Sdk.Descriptor) (s : σ),
      let done := ((Pool.fresh size).run ds (process p) order : StateM σ (Pool Outcome)).run s
      done.1.isDone = true →
        (∃ history, history.Perm (List.range ds.length) ∧
          done.2 = Pool.after ds (process p) s history) ∧
        (inOrder done.1.results).map Outcome.subject = ds.mapIdx subjectAt ∧
        ∀ r : Report, r.discovered = ds.length → r.outcomes = inOrder done.1.results →
          r.discovered = r.outcomes.length ∧ r.outcomes.length = r.succeeded + r.failed) ∧
    ∀ (s s' : Machine) (found : Scan), Sound s →
      (discover p.settings : StateM Machine _).run s = (.ok found, s') →
      Apart p s.base found.descriptors →
      (∀ d ∈ found.descriptors, Settled s (p.directory d)) →
      let done := ((Pool.fresh size).run found.descriptors (process p) order :
        StateM Machine (Pool Outcome)).run s'
      let alone := (processAll p.alone found.descriptors : StateM Machine _).run s'
      done.1.isDone = true →
        inOrder done.1.results = alone.1 ∧
        (∀ r r' : Report, r.outcomes = inOrder done.1.results → r'.outcomes = alone.1 →
          r.lines = r'.lines) ∧
        (∀ l c, done.2.disk.get? l = some (.file c) ↔ alone.2.disk.get? l = some (.file c)) ∧
        ∀ o ∈ inOrder done.1.results, ∀ path, o.status = .written path →
          ∃ d facts text, found.descriptors[o.index]? = some d ∧
            ((reflect p.settings d : StateM Machine _).run s).1 = .ok facts ∧
            CSharp.render p.settings.profile { d with facts? := some facts } p.date = .ok text ∧
            done.2.disk.readText s.base path = .ok text := by
  constructor
  · intro σ _ ds s done hdone
    obtain ⟨history, hperm, hstate, hresults⟩ :=
      Pool.run_results (steady_subject p ds s) hsize order rfl hdone
    have hinOrder : (inOrder done.1.results).map Outcome.subject = ds.mapIdx subjectAt :=
      inOrder_map Prod.fst (fun _ => rfl) hresults (pairwise_mapIdx (fun _ _ => rfl) ds)
    refine ⟨⟨history, hperm, hstate⟩, hinOrder, fun r hfound houtcomes => ?_⟩
    have hlength := congrArg List.length hinOrder
    rw [List.length_map, List.length_mapIdx, ← houtcomes] at hlength
    exact ⟨hfound.trans hlength.symm, r.length_outcomes⟩
  · intro s s' found hs hf ha hd done alone hdone
    obtain ⟨hp, es, rfl⟩ := Prepared.of_discover hs hf ha hd
    have hsteady := steady_process hp
    have hstart := Progress.refl hp es
    obtain ⟨history, hperm, hgood, hresults⟩ := Pool.run_results hsteady hsize order hstart hdone
    have halone : alone =
        (processInOrder p 0 found.descriptors : StateM Machine _).run (s.logged es) := by
      simp only [alone, processAll_alone]
    obtain ⟨houtcomes, hgood'⟩ := processInOrder_run hsteady [] rfl hstart
    simp only [List.length_nil, Nat.zero_add, List.map_id] at houtcomes hgood'
    rw [← halone] at houtcomes hgood'
    have hinOrder := inOrder_map Outcome.index (fun _ => rfl) hresults
      (pairwise_mapIdx (fun _ _ => rfl) found.descriptors)
    rw [List.map_id'] at hinOrder
    have hsame : inOrder done.1.results = alone.1 := hinOrder.trans houtcomes.symm
    refine ⟨hsame, fun r r' hr hr' => ?_, fun l c => hgood.file_iff hgood' hperm, ?_⟩
    · rw [Report.lines, Report.lines, hr, hr', hsame]
    · intro o ho path hpath
      rw [hinOrder] at ho
      obtain ⟨i, hi, rfl⟩ := List.getElem_of_mem ho
      rw [List.length_mapIdx] at hi
      rw [List.getElem_mapIdx] at hpath ⊢
      have hd : found.descriptors[i]? = some found.descriptors[i] := List.getElem?_eq_getElem hi
      have hmem : i ∈ history := hperm.mem_iff.2 (List.mem_range.2 hi)
      obtain ⟨text, htext, hread⟩ := hgood.readText hmem hd hpath
      obtain ⟨facts, hfacts, hrender⟩ := Plan.of_generated_eq_ok htext
      exact ⟨_, facts, text, hd, hfacts, hrender, hread⟩

/-- A plan for two workers. -/
def smallPlan : Plan where
  settings := { Settings.defaults with
    sdkRoot := ⟨"sdk"⟩
    outputRoot := ⟨"out"⟩
    inputs := ⟨⟨"o"⟩, ⟨"f"⟩, ⟨"v"⟩⟩
    outputs := ⟨⟨"o"⟩, ⟨"f"⟩, ⟨"v"⟩⟩
    jobs := 2 }
  isDry := false
  date := ⟨2020, 1, 1, 0, 0, 0⟩

/-- A machine with the sources of three classes, on which the directory for the last of them cannot
    be made. -/
def smallSdk : Machine where
  disk := ⟨[(["sdk"], .directory), (["sdk", "o"], .directory), (["sdk", "f"], .directory),
    (["sdk", "v"], .directory),
    (["sdk", "o", "Ad.php"], .file (.text "<?php class Ad extends AbstractCrudObject {}")),
    (["sdk", "f", "AdFields.php"], .file (.text "<?php class AdFields { const ID = 1; }")),
    (["sdk", "v", "AdStatus.php"], .file (.text "<?php class AdStatus { const ON = 1; }"))]⟩
  base := []
  refuses := Files.refuseDirectory [] ["out", "v"] (.other "Permission denied")
  time := ⟨2020, 1, 1, 0, 0, 0⟩

/-- What is found there. -/
def smallScan : Scan where
  descriptors := [(target smallPlan.settings .object).descriptor "Ad.php",
    (target smallPlan.settings .fields).descriptor "AdFields.php",
    (target smallPlan.settings .values).descriptor "AdStatus.php"]

theorem sound_smallSdk : Sound smallSdk := by
  have hdisk : smallSdk.disk.Sound := Disk.Sound.of_entries (by decide +kernel)
  have hbase : smallSdk.disk.HasDirectory smallSdk.base := by decide +kernel
  exact ⟨Files.refusesByPlace_of_directory (hdisk.based hbase) rfl (by decide +kernel)
    (by decide +kernel), hdisk, hbase⟩

theorem apart_smallSdk : Apart smallPlan smallSdk.base smallScan.descriptors := by
  refine .of_valid (by decide +kernel) (by decide +kernel) (fun k k' => ?_) (by decide +kernel)
    (by decide +kernel)
  cases k <;> cases k' <;> decide +kernel

theorem discover_smallSdk : (discover smallPlan.settings : StateM Machine _).run smallSdk =
    (.ok smallScan, ((discover smallPlan.settings : StateM Machine _).run smallSdk).2) :=
  Prod.ext (by decide +kernel) rfl

theorem settled_smallSdk :
    ∀ d ∈ smallScan.descriptors, Settled smallSdk (smallPlan.directory d) := by
  have hnames : ∀ d ∈ smallScan.descriptors,
      ∀ n ∈ (smallPlan.directory d).names, n ≠ "." ∧ n ≠ ".." := by decide +kernel
  exact fun d hd => Settled.of_names (hnames d hd)

/-- Two workers convert three classes as one does. -/
theorem workers_sequential_smallSdk :
    let s := ((discover smallPlan.settings : StateM Machine _).run smallSdk).2
    let done := ((Pool.fresh 2).run smallScan.descriptors (process smallPlan)
      (Pool.rounds smallScan.descriptors.length 2) : StateM Machine (Pool Outcome)).run s
    let alone := (processAll smallPlan.alone smallScan.descriptors : StateM Machine _).run s
    (Sound smallSdk ∧ Apart smallPlan smallSdk.base smallScan.descriptors) ∧
      done.1.isDone = true ∧ inOrder done.1.results = alone.1 ∧
      ∀ l c, done.2.disk.get? l = some (.file c) ↔ alone.2.disk.get? l = some (.file c) := by
  intro s
  have hdone := Pool.rounds_isDone smallScan.descriptors (process smallPlan) 2 s
  obtain ⟨hsame, -, hfiles, -⟩ := (workers_sequential smallPlan Nat.two_pos _).2 smallSdk s
    smallScan sound_smallSdk discover_smallSdk apart_smallSdk settled_smallSdk hdone
  exact ⟨⟨sound_smallSdk, apart_smallSdk⟩, hdone, hsame, hfiles⟩

end PhpSharp.Conversion
