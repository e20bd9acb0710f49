/-
  Every class has its own file, if no two classes of a kind have the same name.

  * `location_path_injective`: where the file for a class goes tells its kind and its name, if the
    directories for generated files are the usual ones below any root;
  * `one_file_per_class`: so the files of a run are pairwise different, and as many as the classes
    that succeeded, unless two sources of a kind have names that agree up to the first point.
-/
import PhpSharp.Proofs.Conversion.Endings
import PhpSharp.Proofs.Conversion.Runs

namespace PhpSharp.Conversion

open Files (Host Location bind_run)

/-! ## Where files go -/

section
variable {st : Settings} {k k' : Sdk.Kind} {name name' : String}

/-- The names that the usual directory of a kind adds to the root. -/
def usualNames : Sdk.Kind → List String
  | .object => ["Output"]
  | .fields => ["Output", "Fields"]
  | .values => ["Output", "Values"]

theorem location_outputDirectory (h : st.outputs = Settings.defaults.outputs) (k : Sdk.Kind)
    (base : Location) : (st.outputDirectory k).location base =
      st.outputRoot.location base ++ usualNames k := by
  have hrelative : (st.outputs.get k).isAbsolute = false := by
    rw [h]
    cases k <;> rfl
  have hnames : (st.outputs.get k).names = usualNames k := by
    rw [h]
    cases k <;> decide
  have honward : ∀ l, Files.place l (usualNames k) = l ++ usualNames k := fun l =>
    Files.place_straight (by cases k <;> decide)
  rw [Settings.outputDirectory, Path.location, Path.start, Path.isAbsolute_join hrelative,
    Path.names_join hrelative, hnames, Files.place_append, honward]
  rfl

theorem usualNames_injective (h : usualNames k = usualNames k') : k = k' := by
  cases k <;> cases k' <;> first | rfl | exact absurd h (by decide)

theorem fileName_injective {o : Output} (h : o.fileName name = o.fileName name') :
    name = name' := by
  unfold Output.fileName at h
  split at h
  · exact h
  · have hlist := congrArg String.toList h
    simp only [String.toList_append] at hlist
    exact String.toList_inj.1 (List.append_cancel_right (List.append_cancel_right hlist))

/-- **Where the file for a class goes** tells its kind and its name. -/
theorem location_path_injective (hv : st.fault? = none)
    (ho : st.outputs = Settings.defaults.outputs) (hname : Sdk.isClassName name = true)
    (hname' : Sdk.isClassName name' = true) {base : Location}
    (h : ((Output.ofSettings st).path k name).location base =
      ((Output.ofSettings st).path k' name').location base) : k = k' ∧ name = name' := by
  have hlocation : ∀ {k : Sdk.Kind} {name : String}, Sdk.isClassName name = true →
      ((Output.ofSettings st).path k name).location base =
        st.outputRoot.location base ++
          (usualNames k ++ [(Output.ofSettings st).fileName name]) := by
    intro k name hname
    obtain ⟨hne, hslash, hdot, hdots⟩ := isEntry_fileName (noSlash_extension hv) hname
    have hdirectory : (Output.ofSettings st).directories.get k = st.outputDirectory k :=
      Sdk.PerKind.get_ofFn ..
    rw [Output.path, hdirectory, Path.location_entry hslash hne hdot hdots, ← List.append_assoc,
      ← location_outputDirectory ho k base]
  -- one name of the path is the file, and all before it are the directory
  rw [hlocation hname, hlocation hname'] at h
  obtain ⟨hkind, hfile⟩ := List.append_inj' (List.append_cancel_left h) rfl
  exact ⟨usualNames_injective hkind, fileName_injective (List.singleton_inj.1 hfile)⟩

end

/-! ## What an outcome says of its file -/

/-- The file that was written for a class. -/
def Outcome.written? (o : Outcome) : Option Path :=
  match o.status with
  | .written path => some path
  | _ => none

/-- The files that were written. -/
def writtenPaths (outcomes : List Outcome) : List Path := outcomes.filterMap Outcome.written?

/-- Whether a status is one that a plan can come to for a class: if it did not fail, its file is the
    one for the class, and was written unless nothing is to be written. -/
def Plan.allows (p : Plan) (k : Sdk.Kind) (shortName : String) : Status → Bool
  | .written path => !p.isDry && path == (Output.ofSettings p.settings).path k shortName
  | .planned path => p.isDry && path == (Output.ofSettings p.settings).path k shortName
  | .failed _ => true

section
variable {σ : Type} [Host (StateM σ)]

theorem Plan.allows_of_ends {p : Plan} {d : Sdk.Descriptor} {F : Except Error Sdk.Facts → Prop}
    {status : Status} (h : p.Ends d F (fun answer => ∀ path, answer = .ok path →
      path = (Output.ofSettings p.settings).path d.kind d.shortName) status) :
    p.allows d.kind d.shortName status = true := by
  cases h with
  | unread | ungenerated | unwritten => rfl
  | planned _ _ hdry => simp [Plan.allows, hdry]
  | written _ _ hwet hw => simp [Plan.allows, hwet, hw _ rfl]

/-- Whatever a system does, a class that did not fail has the file that is meant for it. -/
theorem allows_process (p : Plan) (i : Nat) (d : Sdk.Descriptor) (s : σ) :
    p.allows d.kind d.shortName ((process p i d : StateM σ Outcome).run s).1.status = true := by
  refine Plan.allows_of_ends (keeps_process silent_any .any (fun _ text => ?_) i s trivial).2
  exact keeps_write .any .any (fun _ _ he => nomatch he) (fun _ _ he => nomatch he)
    fun path he => (Except.ok.inj he).symm

/-- What is known of an outcome whatever a system does: its class, and where its file is. -/
theorem steady_allows (p : Plan) (ds : List Sdk.Descriptor) :
    Pool.Steady ds (process p : Nat → Sdk.Descriptor → StateM σ Outcome)
      (fun o => (o.subject, p.allows o.kind o.shortName o.status))
      (fun i d => (subjectAt i d, true)) (fun _ _ => True) where
  result := by
    intro history s i d _ _ _
    have hsubject := subject_process p i d s
    have hallows := allows_process p i d s
    generalize ((process p i d : StateM σ Outcome).run s).1 = o at hsubject hallows ⊢
    obtain ⟨-, hkind, hname, -⟩ : o.index = i ∧ o.kind = d.kind ∧ o.shortName = d.shortName ∧
      o.sourceFile = d.sourceFile := by simpa [Outcome.subject, subjectAt] using hsubject
    rw [← hkind, ← hname] at hallows
    exact Prod.ext hsubject hallows
  state _ _ _ := trivial

/-! ## What is found -/

theorem scan_select {t : Target} {denylist : List String} {s s' : σ} {found : Scan}
    (h : (scan t denylist : StateM σ _).run s = (.ok found, s')) :
    ∃ entries, found = t.select denylist entries := by
  unfold scan at h
  rcases hdir : (Host.isDirectory t.root : StateM σ Bool).run s with ⟨isThere, s₁⟩
  rw [bind_run hdir] at h
  cases isThere with
  | false => cases h
  | true =>
    rcases hlist : (Host.list t.root : StateM σ _).run s₁ with ⟨names, s₂⟩
    rw [if_pos rfl, bind_run hlist] at h
    cases names with
    | error e => cases h
    | ok names =>
      rcases hmarked : (markDirectories t.root names : StateM σ _).run s₂ with ⟨entries, s₃⟩
      dsimp only at h
      rw [bind_run hmarked] at h
      obtain ⟨hfound, -⟩ := Prod.mk.inj h
      exact ⟨entries, (Except.ok.inj hfound).symm⟩

/-- Whatever a system lists, what is found has the name of a class. -/
theorem scanAll_isClassName {st : Settings} {ks : List Sdk.Kind} {s s' : σ} {found : Scan}
    (h : (scanAll st ks : StateM σ _).run s = (.ok found, s')) :
    ∀ d ∈ found.descriptors, Sdk.isClassName d.shortName = true := by
  induction ks generalizing s s' found with
  | nil =>
    cases h
    simp
  | cons k ks ih =>
    rw [scanAll] at h
    rcases hfirst : (scan (target st k) st.denylist : StateM σ _).run s with ⟨first, s₁⟩
    rw [bind_run hfirst] at h
    cases first with
    | error e => cases h
    | ok first =>
      obtain ⟨entries, rfl⟩ := scan_select hfirst
      rcases hrest : (scanAll st ks : StateM σ _).run s₁ with ⟨rest, s₂⟩
      dsimp only at h
      rw [bind_run hrest] at h
      cases rest with
      | error e => cases h
      | ok rest =>
        cases h
        intro d hd
        rcases List.mem_append.1 hd with hd | hd
        · obtain ⟨⟨name, isDirectory⟩, hmem, rfl⟩ := List.mem_map.1 hd
          obtain ⟨-, hclass⟩ := List.mem_filter.1 hmem
          exact isClassName_of_classify (of_decide_eq_true hclass)
        · exact ih hrest d hd

/-! ## All classes -/

/-- The outcomes of a run over classes: those of the program, or of any number of workers once all
    have stopped, whatever the order of their steps. -/
inductive Converted (p : Plan) (ds : List Sdk.Descriptor) (s : σ) : List Outcome → Prop
  | run : Converted p ds s ((processAll p ds : StateM σ _).run s).1
  | workers {size : Nat} {order : List Nat} (hsize : 0 < size)
      (hdone : (((Pool.fresh size).run ds (process p) order :
        StateM σ (Pool Outcome)).run s).1.isDone = true) :
      Converted p ds s (inOrder (((Pool.fresh size).run ds (process p) order :
        StateM σ (Pool Outcome)).run s).1.results)

theorem Converted.converts {p : Plan} {ds : List Sdk.Descriptor} {s : σ} {outcomes : List Outcome}
    (h : Converted p ds s outcomes) : ∃ s', Converts p ds s outcomes s' := by
  cases h with
  | run => exact ⟨_, .program rfl⟩
  | workers hsize hdone => exact ⟨_, .workers hsize rfl hdone⟩

theorem Converted.map_eq {p : Plan} {ds : List Sdk.Descriptor} {s : σ} {outcomes : List Outcome}
    (h : Converted p ds s outcomes) :
    outcomes.map (fun o => (o.subject, p.allows o.kind o.shortName o.status)) =
      ds.mapIdx fun i d => (subjectAt i d, true) := by
  obtain ⟨s', hconverts⟩ := h.converts
  have hplace : ∀ o : Outcome, o.subject.1 = o.index := fun _ => rfl
  exact (hconverts.steady (fun v => v.1.1) hplace (fun _ _ => rfl) (steady_allows p ds)
    trivial).1

theorem Converted.map_kind_name {p : Plan} {ds : List Sdk.Descriptor} {s : σ}
    {outcomes : List Outcome} (h : Converted p ds s outcomes) :
    outcomes.map (fun o => (o.kind, o.shortName)) = ds.map fun d => (d.kind, d.shortName) := by
  refine List.ext_getElem? fun i => ?_
  have hi := congrArg (·[i]?.map fun v => (v.1.2.1, v.1.2.2.1)) h.map_eq
  simpa [Outcome.subject, subjectAt, Function.comp_def] using hi

theorem Converted.allows {p : Plan} {ds : List Sdk.Descriptor} {s : σ} {outcomes : List Outcome}
    (h : Converted p ds s outcomes) :
    ∀ o ∈ outcomes, p.allows o.kind o.shortName o.status = true := by
  intro o ho
  have hmem : (o.subject, p.allows o.kind o.shortName o.status) ∈
      ds.mapIdx fun i d => (subjectAt i d, true) := by
    rw [← h.map_eq]
    exact List.mem_map_of_mem ho
  obtain ⟨i, hi, he⟩ := List.mem_mapIdx.1 hmem
  exact (Prod.mk.inj he).2.symm

theorem Plan.path_of_allows {p : Plan} {o : Outcome} {path : Path}
    (h : p.allows o.kind o.shortName o.status = true) (hw : o.written? = some path) :
    path = (Output.ofSettings p.settings).path o.kind o.shortName := by
  obtain ⟨index, kind, shortName, sourceFile, duration, took?, status⟩ := o
  cases status with
  | written path' =>
    cases hw
    exact eq_of_beq (Bool.and_eq_true_iff.1 h).2
  | planned path' => cases hw
  | failed e => cases hw

/-- **Every class has its own file,** if no two classes of a kind have the same name.

    Two classes of a run have the same file exactly if they are of the same kind and have the same
    name, which is the name of the source up to its first point. Without such classes the files that
    a run writes are pairwise different, by their paths and by where these lead; and unless nothing
    is to be written, there are as many as classes that succeeded. -/
theorem one_file_per_class (p : Plan) (hv : p.settings.fault? = none)
    (ho : p.settings.outputs = Settings.defaults.outputs) {s s' : σ} {found : Scan}
    (hf : (discover p.settings : StateM σ _).run s = (.ok found, s')) {outcomes : List Outcome}
    (hr : Converted p found.descriptors s' outcomes) :
    (∀ o ∈ outcomes, ∀ o' ∈ outcomes, ∀ path path', o.written? = some path →
        o'.written? = some path' →
        (path = path' ↔ o.kind = o'.kind ∧ o.shortName = o'.shortName) ∧
          ∀ base : Location, path.location base = path'.location base → path = path') ∧
      ((found.descriptors.map fun d => (d.kind, d.shortName)).Nodup →
        (writtenPaths outcomes).Nodup ∧
        (∀ base : Location, ((writtenPaths outcomes).map (·.location base)).Nodup) ∧
        (p.isDry = false → ∀ r : Report, r.outcomes = outcomes →
          (writtenPaths outcomes).length = r.succeeded)) := by
  have hname : ∀ o ∈ outcomes, Sdk.isClassName o.shortName = true := by
    intro o hmem
    have hclass : (o.kind, o.shortName) ∈ found.descriptors.map fun d => (d.kind, d.shortName) := by
      rw [← hr.map_kind_name]
      exact List.mem_map_of_mem hmem
    obtain ⟨d, hd, he⟩ := List.mem_map.1 hclass
    rw [← (Prod.mk.inj he).2]
    exact scanAll_isClassName hf d hd
  have hpath : ∀ o ∈ outcomes, ∀ path, o.written? = some path →
      path = (Output.ofSettings p.settings).path o.kind o.shortName := fun o hmem path hw =>
    Plan.path_of_allows (hr.allows o hmem) hw
  -- where two files are one tells their classes, and these tell the paths
  have hsame : ∀ o ∈ outcomes, ∀ o' ∈ outcomes, ∀ path path', o.written? = some path →
      o'.written? = some path' → ∀ base : Location, path.location base = path'.location base →
        o.kind = o'.kind ∧ o.shortName = o'.shortName := by
    intro o hmem o' hmem' path path' hw hw' base he
    rw [hpath o hmem path hw, hpath o' hmem' path' hw'] at he
    exact location_path_injective hv ho (hname o hmem) (hname o' hmem') he
  refine ⟨fun o hmem o' hmem' path path' hw hw' => ?_, fun hnodup => ?_⟩
  · have hback : o.kind = o'.kind ∧ o.shortName = o'.shortName → path = path' := by
      rintro ⟨hkind, hshort⟩
      rw [hpath o hmem path hw, hpath o' hmem' path' hw', hkind, hshort]
    refine ⟨⟨fun he => ?_, hback⟩, fun base he => ?_⟩
    · exact hsame o hmem o' hmem' path path' hw hw' [] (by rw [he])
    · exact hback (hsame o hmem o' hmem' path path' hw hw' base he)
  · rw [← hr.map_kind_name, List.Nodup, List.pairwise_map] at hnodup
    have hplaces : ∀ base : Location, ((writtenPaths outcomes).map (·.location base)).Nodup := by
      intro base
      rw [List.Nodup, List.pairwise_map, writtenPaths, List.pairwise_filterMap]
      refine hnodup.imp_of_mem fun {o o'} hmem hmem' hne path hw path' hw' he => hne ?_
      obtain ⟨hkind, hshort⟩ := hsame o hmem o' hmem' path path' hw hw' base he
      rw [hkind, hshort]
    refine ⟨(hplaces []).of_map _, hplaces, fun hdry r houtcomes => ?_⟩
    rw [writtenPaths, List.length_filterMap_eq_countP, Report.succeeded, houtcomes]
    refine List.countP_congr fun o hmem => ?_
    have hallows := hr.allows o hmem
    obtain ⟨index, kind, shortName, sourceFile, duration, took?, status⟩ := o
    cases status with
    | written path => exact Iff.rfl
    | planned path => simp [Plan.allows, hdry] at hallows
    | failed e => exact Iff.rfl

/-- The plan for two workers with the usual directories. -/
def usualPlan : Plan :=
  { smallPlan with settings := { smallPlan.settings with outputs := Settings.defaults.outputs } }

theorem one_file_per_class_smallSdk :
    let s := ((discover usualPlan.settings : StateM Files.Machine _).run smallSdk).2
    let outcomes := ((processAll usualPlan smallScan.descriptors : StateM Files.Machine _).run s).1
    smallScan.descriptors.map Sdk.Descriptor.shortName = ["Ad", "AdFields", "AdStatus"] ∧
      (writtenPaths outcomes).Nodup ∧
      ∀ r : Report, r.outcomes = outcomes → (writtenPaths outcomes).length = r.succeeded := by
  intro s outcomes
  have hfound : (discover usualPlan.settings : StateM Files.Machine _).run smallSdk =
      (.ok smallScan, s) := Prod.ext (by decide +kernel) rfl
  obtain ⟨-, hfiles⟩ := one_file_per_class usualPlan (by decide +kernel) rfl hfound .run
  obtain ⟨hnodup, -, hcount⟩ := hfiles (by decide)
  exact ⟨by decide, hnodup, hcount rfl⟩

end

end PhpSharp.Conversion
