/-
  What happens to one class on a machine, as a function of what is on its disk.

  * `reflect_run`: the facts of a class are those of the texts that are read (`reflectFrom`);
  * `Apart`, `Settled`: classes keep apart, and whether their directories can be made does not
    depend on what others make;
  * `Onward.process_run`: then the outcome of a class and what it writes are, among other classes,
    those that it has on the disk as it was before all of them (`Plan.outcome`, `Plan.effect`).
-/
import PhpSharp.Conversion.Run
import PhpSharp.Proofs.Conversion.Scan
import PhpSharp.Proofs.Files.Effects
import PhpSharp.Proofs.Files.Sound
import PhpSharp.Proofs.Reflection.References

namespace PhpSharp.Conversion

open Files (Machine Host OsError Location Disk bind_run forM_log_run)
open Files.Disk (Reaches IsEntry IsName)

/-! ## Names -/

theorem isEntry_php {name : String} (h : '/' ∉ name.toList) : IsEntry (name ++ ".php") := by
  have hlist : (name ++ ".php").toList = name.toList ++ ['.', 'p', 'h', 'p'] := by
    rw [String.toList_append]
    rfl
  have hne : ∀ other : String, other.toList.length < 4 → name ++ ".php" ≠ other := by
    rintro other hlt rfl
    rw [hlist, List.length_append] at hlt
    exact Nat.not_lt.2 (Nat.le_add_left 4 _) hlt
  refine ⟨hne _ (by decide), ?_, hne _ (by decide), hne _ (by decide)⟩
  rw [hlist]
  simp [h]

/-- An identifier has no slash in it and does not start with a point. -/
theorem isIdentifier_chars {name : String} (h : Sdk.isIdentifier name = true) :
    '/' ∉ name.toList ∧ ∃ c cs, name.toList = c :: cs ∧ c ≠ '.' := by
  unfold Sdk.isIdentifier at h
  split at h
  · cases h
  · rename_i c cs hname
    obtain ⟨hc, hcs⟩ := Bool.and_eq_true_iff.1 h
    rw [hname]
    refine ⟨?_, c, cs, rfl, ?_⟩
    · intro hslash
      rcases List.mem_cons.1 hslash with rfl | hslash
      · exact absurd hc (by decide)
      · exact absurd (List.all_eq_true.1 hcs _ hslash) (by decide)
    · rintro rfl
      exact absurd hc (by decide)

/-- The name of the file for a class is that of an entry. -/
theorem isEntry_fileName {o : Output} (hext : '/' ∉ o.extension.toList) {shortName : String}
    (h : Sdk.isClassName shortName = true) : IsEntry (o.fileName shortName) := by
  obtain ⟨hslash, c, cs, hname, hc⟩ := isIdentifier_chars (Bool.and_eq_true_iff.1 h).1
  have hfile : ∃ rest, (o.fileName shortName).toList = c :: cs ++ rest ∧ '/' ∉ rest := by
    unfold Output.fileName
    split
    · exact ⟨[], by rw [hname, List.append_nil], by simp⟩
    · refine ⟨'.' :: o.extension.toList, ?_, by simpa using hext⟩
      rw [String.toList_append, String.toList_append, hname, List.append_assoc]
      rfl
  obtain ⟨rest, hfile, hrest⟩ := hfile
  have hne : ∀ other : String, other.toList.head? ≠ some c → o.fileName shortName ≠ other := by
    rintro other hhead rfl
    rw [hfile] at hhead
    exact hhead rfl
  refine ⟨hne _ (fun he => nomatch he), ?_, hne _ ?_, hne _ ?_⟩
  · rw [hfile, ← hname]
    simp [hslash, hrest]
  · exact fun he => hc (Option.some.inj he).symm
  · exact fun he => hc (Option.some.inj he).symm

/-- Settings that are valid have an extension without slashes. -/
theorem noSlash_extension {st : Settings} (h : st.fault? = none) :
    '/' ∉ (Output.ofSettings st).extension.toList := by
  have hany : (st.extension.toList.any fun c => c == '/' || c == '\\') = false := by
    unfold Settings.fault? at h
    split_ifs at h with _ hany
    exact Bool.eq_false_iff.2 hany
  intro hmem
  have hext : (Output.ofSettings st).extension.toList = st.extension.toList.dropWhile (· = '.') :=
    String.toList_ofList
  rw [hext] at hmem
  have := List.any_eq_false.1 hany _ ((List.dropWhile_sublist _).subset hmem)
  exact this rfl

/-! ## Facts -/

/-- What a reading of texts says of a class, and the entries for the log. -/
def reflectFrom (read : Path → Except OsError String) (st : Settings) (d : Sdk.Descriptor) :
    Except Error Sdk.Facts × List Log.Entry :=
  match read d.sourceFile with
  | .error e => (.error (.reflection d.sourceFile (.unreadable e.message)), [])
  | .ok source =>
    let sources := (Reflection.neededClasses d source).map fun name =>
      (name, (read ((st.inputDirectory .object).entry (name ++ ".php"))).toOption)
    let answer :=
      Reflection.reflect st.sourceNamespaces (fun name => (sources.lookup name).join) d source
    (answer.1.mapError (.reflection d.sourceFile), answer.2)

theorem readSources_run (s : Machine) (root : Path) (names : List String) :
    (readSources root names : StateM Machine _).run s =
      (names.map fun name =>
        (name, (s.disk.readText s.base (root.entry (name ++ ".php"))).toOption), s) := by
  refine Files.mapM_run (fun name => ?_) names
  rfl

/-- **The facts of a class** are those of the texts on the disk. -/
theorem reflect_run (s : Machine) (st : Settings) (d : Sdk.Descriptor) :
    (reflect st d : StateM Machine _).run s =
      ((reflectFrom (s.disk.readText s.base) st d).1,
        s.logged (reflectFrom (s.disk.readText s.base) st d).2) := by
  have hread : (Host.readText d.sourceFile : StateM Machine _).run s =
      (s.disk.readText s.base d.sourceFile, s) := rfl
  rw [reflect, bind_run hread, reflectFrom]
  cases s.disk.readText s.base d.sourceFile with
  | error e => exact congrArg (Prod.mk _) (Machine.logged_nil s).symm
  | ok source =>
    refine (bind_run (readSources_run ..)).trans ?_
    dsimp only
    generalize Reflection.reflect st.sourceNamespaces _ d source = answer
    obtain ⟨result, entries⟩ := answer
    have hlog := forM_log_run s entries id
    rw [List.map_id] at hlog
    refine (bind_run hlog).trans ?_
    cases result <;> rfl

/-- **The facts of a class** depend on its own source and on what can be read of the classes that it
    needs. -/
theorem reflectFrom_congr_needed {read read' : Path → Except OsError String} {st : Settings}
    {d : Sdk.Descriptor} (hs : read d.sourceFile = read' d.sourceFile)
    (ho : ∀ source, read d.sourceFile = .ok source → ∀ name ∈ Reflection.neededClasses d source,
      (read ((st.inputDirectory .object).entry (name ++ ".php"))).toOption =
        (read' ((st.inputDirectory .object).entry (name ++ ".php"))).toOption) :
    reflectFrom read st d = reflectFrom read' st d := by
  unfold reflectFrom
  rw [← hs]
  cases hsource : read d.sourceFile with
  | error e => rfl
  | ok source =>
    have hsources : (Reflection.neededClasses d source).map (fun name =>
          (name, (read ((st.inputDirectory .object).entry (name ++ ".php"))).toOption)) =
        (Reflection.neededClasses d source).map (fun name =>
          (name, (read' ((st.inputDirectory .object).entry (name ++ ".php"))).toOption)) :=
      List.map_congr_left fun name hname => by rw [ho source hsource name hname]
    simp only [hsources]

/-- **The facts of a class** depend on its own source and on what can be read of some entries of
    the directory for objects. -/
theorem reflectFrom_congr {read read' : Path → Except OsError String} {st : Settings}
    {d : Sdk.Descriptor} (hs : read d.sourceFile = read' d.sourceFile)
    (ho : ∀ name, IsEntry name → (read ((st.inputDirectory .object).entry name)).toOption =
      (read' ((st.inputDirectory .object).entry name)).toOption) :
    reflectFrom read st d = reflectFrom read' st d :=
  reflectFrom_congr_needed hs fun source _ name hname =>
    ho _ (isEntry_php (Reflection.noSlash_neededClasses d source name hname))

/-! ## What comes of a class -/

namespace Plan

variable (p : Plan) (s : Machine) (d : Sdk.Descriptor)

/-- The directory for what is generated for a class. -/
def directory : Path := p.settings.outputDirectory d.kind

/-- The path of the file for a class. -/
def path : Path := (Output.ofSettings p.settings).path d.kind d.shortName

/-- Where the file for a class is. -/
def location (base : Location) : Location := (p.path d).location base

/-- What is generated for a class. -/
def generated : Except Error String :=
  match (reflectFrom (s.disk.readText s.base) p.settings d).1 with
  | .error e => .error e
  | .ok facts => (CSharp.render p.settings.profile { d with facts? := some facts } p.date).mapError
      (.template d.shortName)

/-- What comes of writing the file for a class. -/
def writing : Except Error Path :=
  match s.make (p.directory d) with
  | (.error e, _) => .error (.write (p.directory d) e)
  | (.ok (), made) =>
    match (s.withDisk made).replaceAnswer (p.directory d) (p.path d) with
    | .error e => .error (.write (p.path d) e)
    | .ok () => .ok (p.path d)

/-- What comes of converting a class on a machine whose clock stands still. -/
def conversion : Status × Option Nat :=
  match p.generated s d with
  | .error e => (.failed e, none)
  | .ok _ =>
    if p.isDry then (.planned (p.path d), some 0)
    else match p.writing s d with
      | .error e => (.failed e, some 0)
      | .ok path => (.written path, some 0)

/-- **The outcome of a class,** if no other is processed. -/
def outcome (i : Nat) : Outcome where
  index := i
  kind := d.kind
  shortName := d.shortName
  sourceFile := d.sourceFile
  duration := 0
  renderDuration? := (p.conversion s d).2
  status := (p.conversion s d).1

/-- **What is written for a class,** if no other is processed. -/
def effect : List (Location × Files.Content) :=
  match p.generated s d, (p.conversion s d).1 with
  | .ok text, .written _ => [(p.location d s.base, .text text)]
  | _, _ => []

/-- The ways to all directories for generated files. -/
def ways (base : Location) : List Location :=
  Sdk.Kind.all.flatMap fun k => (p.settings.outputDirectory k).way base

variable {p s d}

theorem way_subset_ways (base : Location) : (p.directory d).way base ⊆ p.ways base :=
  fun _ hl => List.mem_flatMap.2 ⟨d.kind, Sdk.Kind.mem_all _, hl⟩

/-- A file that was written was moved to its place in a directory that was made. -/
theorem writing_eq_ok {path : Path} (h : p.writing s d = .ok path) : path = p.path d ∧
    (s.make (p.directory d)).2.moveAnswer s.base (p.path d) = .ok () := by
  unfold writing at h
  split at h
  · cases h
  · rename_i made hmake
    split at h
    · cases h
    · rename_i hanswer
      cases h
      rw [hmake]
      exact ⟨rfl, Machine.moveAnswer_of_replaceAnswer hanswer⟩

/-- What is known of a class whose file was written. -/
theorem of_conversion_eq_written {path : Path} (h : (p.conversion s d).1 = .written path) :
    p.writing s d = .ok path ∧ ∃ text, p.generated s d = .ok text ∧
      p.effect s d = [(p.location d s.base, .text text)] := by
  have heffect : ∀ text, p.generated s d = .ok text →
      p.effect s d = [(p.location d s.base, .text text)] := by
    intro text htext
    rw [effect, htext, h]
  unfold conversion at h
  split at h
  · cases h
  · rename_i text htext
    split at h
    · cases h
    · split at h
      · cases h
      · rename_i path' hpath
        cases h
        exact ⟨hpath, text, htext, heffect text htext⟩

end Plan

/-! ## Classes that keep apart -/

/-- A location that is not that of an entry of an input directory. -/
def Outside (st : Settings) (base l : Location) : Prop :=
  ∀ k name, l ≠ (st.inputDirectory k).location base ++ [name]

/-- A directory can be made, or no point on the way to it leads on from a directory that is
    missing: whether it can be made does not depend on what others make. -/
def Settled (s : Machine) (p : Path) : Prop :=
  ((Files.createDirectories p : StateM Machine _).run s).1 = .ok () ∨
    Disk.Straight s.disk s.base p

/-- Nothing is made at a location for any class, nor for a moment in the directory of one. -/
structure Untouched (p : Plan) (base : Location) (ds : List Sdk.Descriptor) (d : Sdk.Descriptor)
    (l : Location) : Prop where
  directory : l ∉ p.ways base
  file : l ∉ ds.map (p.location · base)
  temporary : ∀ n, l ≠ (p.directory d).location base ++ [Machine.temporaryName n]

/-- **Classes keep apart** if nothing is written among the sources, in the file of another class,
    where a directory is to be, or where the way to a file leads on from its directory (as it does
    only if the extension has a slash). -/
structure Apart (p : Plan) (base : Location) (ds : List Sdk.Descriptor) : Prop where
  inputs : ∀ k k', (p.settings.outputDirectory k).location base ≠
    (p.settings.inputDirectory k').location base
  outside : ∀ d ∈ ds, Outside p.settings base (p.location d base)
  files : (ds.map (p.location · base)).Nodup
  directories : ∀ d ∈ ds, p.location d base ∉ p.ways base
  onward : ∀ d ∈ ds, ∀ l ∈ (p.path d).trail base,
    l ∈ (p.directory d).way base ∨ Untouched p base ds d l

/-- Where settings are valid, the file for a class is outside of the input directories, unless an
    output directory is one. -/
theorem outside_of_valid {st : Settings} {base : Location} (hv : st.fault? = none)
    (ho : ∀ k k', (st.outputDirectory k).location base ≠ (st.inputDirectory k').location base)
    {k : Sdk.Kind} {shortName : String} (hname : Sdk.isClassName shortName = true) :
    Outside st base (((Output.ofSettings st).path k shortName).location base) := by
  obtain ⟨hne, hslash, hdot, hdots⟩ := isEntry_fileName (noSlash_extension hv) hname
  have hdirectory : (Output.ofSettings st).directories.get k = st.outputDirectory k :=
    Sdk.PerKind.get_ofFn ..
  rw [Output.path, hdirectory, Path.location_entry hslash hne hdot hdots]
  exact fun k' name he => ho k k' (List.append_inj_left' he rfl)

/-- **Where settings are valid,** classes keep apart if no output directory is an input directory,
    no two of them have the same file, and no file is where a directory is to be. -/
theorem Apart.of_valid {p : Plan} {base : Location} {ds : List Sdk.Descriptor}
    (hv : p.settings.fault? = none) (hnames : ∀ d ∈ ds, Sdk.isClassName d.shortName = true)
    (hinputs : ∀ k k', (p.settings.outputDirectory k).location base ≠
      (p.settings.inputDirectory k').location base)
    (hfiles : (ds.map (p.location · base)).Nodup)
    (hdirectories : ∀ d ∈ ds, p.location d base ∉ p.ways base) : Apart p base ds := by
  refine ⟨hinputs, fun d hd => outside_of_valid hv hinputs (hnames d hd), hfiles, hdirectories,
    fun d hd l hl => .inl ?_⟩
  have hentry := isEntry_fileName (noSlash_extension hv) (hnames d hd)
  have hdirectory : (Output.ofSettings p.settings).directories.get d.kind = p.directory d :=
    Sdk.PerKind.get_ofFn ..
  rwa [Plan.path, Output.path, hdirectory,
    Path.trail_entry hentry.noSlash hentry.ne_empty] at hl

/-- A machine as systems are, in a directory that is there. What it refuses depends on the place. -/
structure Sound (s : Machine) : Prop where
  refusals : s.RefusesByPlace
  disk : s.disk.Sound
  base : s.disk.HasDirectory s.base

/-- A way without points is settled. -/
theorem Settled.of_names {s : Machine} {q : Path} (h : ∀ n ∈ q.names, n ≠ "." ∧ n ≠ "..") :
    Settled s q :=
  .inr (.of_names h)

/-- **Whether a directory can be made is settled,** and the same, where others were made. -/
theorem Settled.grown {s s' : Machine} {q : Path} (hs : Sound s) (hs' : Sound s')
    (hb : s'.base = s.base) (hr : s'.refuses = s.refuses)
    (hg : Disk.Grown s.closed (q.way s.base) s.disk s'.disk) (h : Settled s q) :
    Settled s' q ∧ (s'.make q).1 = (s.make q).1 := by
  rw [Settled, Files.createDirectories_run hs.refusals.directory] at h
  have hsame : (s'.make q).1 = (s.make q).1 := by
    unfold Machine.make
    rw [Machine.closed_congr hr, hb]
    exact Disk.makeAlong_stable hs.refusals.closes hs.disk hs.base hg h
  refine ⟨?_, hsame⟩
  rw [Settled, Files.createDirectories_run hs'.refusals.directory, hsame, hb]
  exact h.imp_right fun hstraight => hstraight.grown hg

/-- What is known of the classes that were found on a machine. -/
structure Prepared (p : Plan) (s : Machine) (ds : List Sdk.Descriptor) : Prop extends Sound s where
  inputs : ∀ k, s.disk.isDirectory s.base (p.settings.inputDirectory k) = true
  found : ∀ d ∈ ds, Found p.settings s.disk s.base d
  apart : Apart p s.base ds
  settled : ∀ d ∈ ds, Settled s (p.directory d)

/-- **A machine on the way:** what was written for classes so far is on the disk. -/
structure Onward (p : Plan) (s : Machine) (writes : List (Location × Files.Content))
    (s' : Machine) : Prop where
  base : s'.base = s.base
  refuses : s'.refuses = s.refuses
  disk : Files.Disk.After (Disk.free s.closed (p.ways s.base)) writes s.disk s'.disk
  sound : s'.disk.Sound

section
variable {p : Plan} {s s' : Machine} {ds : List Sdk.Descriptor} {d : Sdk.Descriptor}
  {writes : List (Location × Files.Content)}

theorem Prepared.reaches (hp : Prepared p s ds) (k : Sdk.Kind) :
    s.disk.Reaches s.base (p.settings.inputDirectory k) :=
  .of_isDirectory (hp.inputs k)

/-- No file for a class is in an input directory. -/
theorem Prepared.not_mem_writes (hp : Prepared p s ds)
    (hw : ∀ w ∈ writes, w.1 ∈ ds.map (p.location · s.base)) (k : Sdk.Kind) (name : String)
    (c : Files.Content) :
    ((p.settings.inputDirectory k).location s.base ++ [name], c) ∉ writes := by
  intro hmem
  obtain ⟨d, hd, he⟩ := List.mem_map.1 (hw _ hmem)
  exact hp.apart.outside d hd k name he

/-- No file for a class is where a directory is to be. -/
theorem Prepared.not_mem_ways (hp : Prepared p s ds)
    (hw : ∀ w ∈ writes, w.1 ∈ ds.map (p.location · s.base)) :
    ∀ l ∈ p.ways s.base, ∀ c, (l, c) ∉ writes := by
  intro l hl c hmem
  obtain ⟨d, hd, he⟩ := List.mem_map.1 (hw _ hmem)
  exact hp.apart.directories d hd (by rwa [he])

/-- To those who make directories on a way it is as before. -/
theorem Onward.grown (ho : Onward p s writes s') (hp : Prepared p s ds)
    (hw : ∀ w ∈ writes, w.1 ∈ ds.map (p.location · s.base)) :
    Disk.Grown s.closed (p.ways s.base) s.disk s'.disk :=
  ho.disk.grown (List.Subset.refl _) (hp.not_mem_ways hw)

/-- **A machine on the way is as systems are.** -/
theorem Onward.toSound (ho : Onward p s writes s') (hp : Prepared p s ds)
    (hw : ∀ w ∈ writes, w.1 ∈ ds.map (p.location · s.base)) : Sound s' := by
  have hcloses := (ho.grown hp hw).closes hp.refusals.closes
  refine ⟨hp.refusals.congr ho.base ho.refuses hcloses, ho.sound, ?_⟩
  rw [ho.base]
  exact ho.disk.directory hp.base

/-- **The facts of a class are the same** after files of classes were written. -/
theorem Onward.reflect_eq (ho : Onward p s writes s') (hp : Prepared p s ds) (hd : d ∈ ds)
    (hw : ∀ w ∈ writes, w.1 ∈ ds.map (p.location · s.base)) :
    reflectFrom (s'.disk.readText s'.base) p.settings d =
      reflectFrom (s.disk.readText s.base) p.settings d := by
  rw [ho.base]
  refine reflectFrom_congr ?_ (fun name hname => ?_)
  · obtain ⟨name, hsource, hthere⟩ := (hp.found d hd).file
    have hentry : IsEntry name := (hp.disk.name hthere).toIsEntry
    have hfile : d.sourceFile = (p.settings.inputDirectory d.kind).entry name :=
      congrArg Sdk.Descriptor.sourceFile hsource
    rw [hfile]
    exact (ho.disk.readText_eq (hp.reaches d.kind) hentry
      (hp.not_mem_writes hw d.kind name)).resolve_right (fun h => hthere h.1)
  · exact ho.disk.toOption_readText (hp.reaches .object) hname (hp.not_mem_writes hw .object name)

/-! ## Writing -/

/-- A machine on which directories were made is as systems are. -/
theorem Sound.make (hs : Sound s) (q : Path) : Sound (s.withDisk (s.make q).2) := by
  have hmade := Machine.make_made (p := q) hs.base hs.refusals.closes
  have hsound : (s.make q).2.Sound := by
    unfold Machine.make
    exact hs.disk.makeAlong hs.refusals.closes hs.base (Path.ascent_parents q)
  exact ⟨hs.refusals.congr rfl rfl (hs.refusals.closes.made hmade), hsound,
    hmade.directory hs.base⟩

/-- Off the way to it, what there is stays when a directory is made. -/
theorem Sound.get?_make (hs : Sound s) {q : Path} {l : Location} (h : l ∉ q.way s.base) :
    (s.make q).2.get? l = s.disk.get? l :=
  (Machine.make_made hs.base hs.refusals.closes l).resolve_right fun hmem =>
    h (Disk.mem_free.1 hmem.1).1

/-- **What comes of writing is the same on two machines** that refuse the same calls, if it is so
    with making the directory, and the same directories and files are where the way to the file
    leads on from it. -/
theorem Plan.writing_congr (hs : Sound s) (hs' : Sound s') (hb : s'.base = s.base)
    (hr : s'.refuses = s.refuses)
    (hmake : (s'.make (p.directory d)).1 = (s.make (p.directory d)).1)
    (hway : ∀ l ∈ (p.path d).way s.base, l ∈ (p.directory d).way s.base ∨
      (s'.disk.HasDirectory l ↔ s.disk.HasDirectory l) ∧
        (l ∈ (p.path d).trail s.base → (s'.disk.HasFile l ↔ s.disk.HasFile l))) :
    p.writing s' d = p.writing s d := by
  have hoff : ∀ {l}, l ∉ (p.directory d).way s.base →
      (s.make (p.directory d)).2.get? l = s.disk.get? l := fun h => hs.get?_make h
  have hoff' : ∀ {l}, l ∉ (p.directory d).way s.base →
      (s'.make (p.directory d)).2.get? l = s'.disk.get? l := fun h => hs'.get?_make (hb ▸ h)
  have hreach := Machine.make_reaches (p := p.directory d) hs.base
  have hreach' := Machine.make_reaches (p := p.directory d) hs'.base
  unfold Plan.writing
  generalize s.make (p.directory d) = here at hmake hoff hreach ⊢
  generalize s'.make (p.directory d) = there at hmake hoff' hreach' ⊢
  obtain ⟨answer, made⟩ := here
  obtain ⟨answer', made'⟩ := there
  obtain rfl : answer' = answer := hmake
  cases answer' with
  | error e => rfl
  | ok u =>
    have hdir : ∀ l ∈ (p.directory d).way s.base, made.HasDirectory l ∧ made'.HasDirectory l :=
      fun l hl => ⟨(hreach rfl).way l hl, (hreach' rfl).way l (hb ▸ hl)⟩
    have hmove : made'.moveAnswer s.base (p.path d) = made.moveAnswer s.base (p.path d) := by
      refine Disk.moveAnswer_congr (fun l hl => ?_) fun l hl => ?_
      · by_cases hmem : l ∈ (p.directory d).way s.base
        · exact iff_of_true (hdir l hmem).2 (hdir l hmem).1
        · rw [Disk.HasDirectory, Disk.HasDirectory, hoff hmem, hoff' hmem]
          exact ((hway l hl).resolve_left hmem).1
      · by_cases hmem : l ∈ (p.directory d).way s.base
        · exact iff_of_false (hdir l hmem).2.not_file (hdir l hmem).1.not_file
        · rw [Disk.HasFile, Disk.HasFile, hoff hmem, hoff' hmem]
          exact ((hway l (Path.mem_way.2 (.inl hl))).resolve_left hmem).2 hl
    have hbase : (s'.withDisk made').base = (s.withDisk made).base := hb
    have hanswer : (s'.withDisk made').replaceAnswer (p.directory d) (p.path d) =
        (s.withDisk made).replaceAnswer (p.directory d) (p.path d) :=
      Machine.replaceAnswer_congr hbase hr hmove
    dsimp only
    rw [hanswer]

/-- **Writing the file for a class,** which leaves a disk as systems have them. -/
theorem Sound.write_run (hs : Sound s) (hown : ∀ l ∈ (p.path d).trail s.base,
      l ∈ (p.directory d).way s.base ∨
        ∀ n, l ≠ (p.directory d).location s.base ++ [Machine.temporaryName n]) (text : String) :
    ∃ d', (write (Output.ofSettings p.settings) d.kind d.shortName text :
        StateM Machine _).run s = (p.writing s d, s.withDisk d') ∧ d'.Sound ∧
      match p.writing s d with
      | .error _ => ∀ k, d'.get? k = (s.make (p.directory d)).2.get? k
      | .ok _ => ∀ k, d'.get? k = if k = p.location d s.base then some (.file (.text text))
          else (s.make (p.directory d)).2.get? k := by
  have hdirectory : (Output.ofSettings p.settings).directories.get d.kind = p.directory d :=
    Sdk.PerKind.get_ofFn ..
  have hreach := Machine.make_reaches (p := p.directory d) hs.base
  have hsound := hs.make (p.directory d)
  have hrun := Files.createDirectories_run hs.refusals.directory (p.directory d)
  unfold write Plan.writing
  rw [hdirectory, Files.bind_run hrun]
  generalize s.make (p.directory d) = make at hreach hsound ⊢
  obtain ⟨answer, made⟩ := make
  cases answer with
  | error e => exact ⟨made, rfl, hsound.disk, fun _ => rfl⟩
  | ok u =>
    have hreplaces := Files.replaceFile_run hsound.refusals (hsound.disk.based hsound.base)
      (hreach rfl) hown text
    dsimp only
    rw [show (Output.ofSettings p.settings).path d.kind d.shortName = p.path d from rfl]
    rcases hreplaced : (Files.replaceFile (p.directory d) (p.path d) text :
      StateM Machine _).run (s.withDisk made) with ⟨result, final⟩
    rw [hreplaced] at hreplaces
    rw [Files.bind_run hreplaced]
    generalize hanswer : (s.withDisk made).replaceAnswer (p.directory d) (p.path d) = answer
      at hreplaces ⊢
    cases hreplaces with
    | error hsame => exact ⟨_, rfl, hsound.disk.congr hsame, hsame⟩
    | ok hmoved =>
      have hmove := Machine.moveAnswer_of_replaceAnswer hanswer
      exact ⟨_, rfl, (hsound.disk.move hmove hmoved).1, hmoved⟩

/-- What is untouched is as it was. -/
theorem Onward.get?_untouched {l : Location} (ho : Onward p s writes s')
    (hw : ∀ w ∈ writes, w.1 ∈ ds.map (p.location · s.base)) (h : Untouched p s.base ds d l) :
    s'.disk.get? l = s.disk.get? l := by
  have hno : ∀ c, (l, c) ∉ writes := fun c hmem => h.file (hw _ hmem)
  refine (ho.disk.get? hno).resolve_right fun hmade => ?_
  rcases ho.disk.made hmade.2 with hold | hnew
  · exact hold.ne_none hmade.1
  · exact h.directory (Disk.mem_free.1 hnew).1

/-- Whether a directory is in the place of the file for a class is the same after files of classes
    were written. -/
theorem Onward.directory_location (ho : Onward p s writes s') (hp : Prepared p s ds) (hd : d ∈ ds) :
    s'.disk.HasDirectory (p.location d s.base) ↔ s.disk.HasDirectory (p.location d s.base) := by
  refine ⟨fun h => (ho.disk.made h).resolve_right fun hmem => ?_, ho.disk.directory⟩
  exact hp.apart.directories d hd (Disk.mem_free.1 hmem).1

/-- Writing the file for a class comes to the same after files of others were written, -/
theorem Onward.writing_eq (ho : Onward p s writes s') (hp : Prepared p s ds) (hd : d ∈ ds)
    (hw : ∀ w ∈ writes, w.1 ∈ ds.map (p.location · s.base)) :
    p.writing s' d = p.writing s d := by
  have hs' := ho.toSound hp hw
  have hgrown := (ho.grown hp hw).mono (Plan.way_subset_ways (d := d) s.base)
  refine Plan.writing_congr hp.toSound hs' ho.base ho.refuses
    ((hp.settled d hd).grown hp.toSound hs' ho.base ho.refuses hgrown).2 fun l hl => ?_
  have htrail : l ∈ (p.path d).trail s.base → l ∈ (p.directory d).way s.base ∨
      s'.disk.get? l = s.disk.get? l := fun hmem =>
    (hp.apart.onward d hd l hmem).imp_right fun h => ho.get?_untouched hw h
  by_cases hmem : l ∈ (p.path d).trail s.base
  · refine (htrail hmem).imp_right fun hsame => ?_
    rw [Disk.HasDirectory, Disk.HasDirectory, Disk.HasFile, Disk.HasFile, hsame]
    exact ⟨Iff.rfl, fun _ => Iff.rfl⟩
  · have hend : l = p.location d s.base := (Path.mem_way.1 hl).resolve_left hmem
    exact .inr ⟨hend ▸ ho.directory_location hp hd, fun h => absurd h hmem⟩

/-- and nothing else is written. -/
theorem Onward.write_run (ho : Onward p s writes s') (hp : Prepared p s ds) (hd : d ∈ ds)
    (hw : ∀ w ∈ writes, w.1 ∈ ds.map (p.location · s.base))
    (hnew : ∀ c, (p.location d s.base, c) ∉ writes) (text : String) :
    ∃ s'', (write (Output.ofSettings p.settings) d.kind d.shortName text :
        StateM Machine _).run s' = (p.writing s d, s'') ∧
      Onward p s (writes ++ match p.writing s d with
        | .ok _ => [(p.location d s.base, .text text)]
        | .error _ => []) s'' ∧
      (∀ l, s'.disk.HasDirectory l → s''.disk.HasDirectory l) ∧
      ∀ path, p.writing s d = .ok path →
        s''.disk.locate s.base (p.path d) = .ok (p.location d s.base) := by
  have hs' := ho.toSound hp hw
  have hown : ∀ l ∈ (p.path d).trail s'.base, l ∈ (p.directory d).way s'.base ∨
      ∀ n, l ≠ (p.directory d).location s'.base ++ [Machine.temporaryName n] := by
    rw [ho.base]
    exact fun l hl => (hp.apart.onward d hd l hl).imp_right (·.temporary)
  have hmade := Machine.make_made (p := p.directory d) hs'.base hs'.refusals.closes
  rw [Machine.closed_congr ho.refuses, ho.base] at hmade
  have hafter := ho.disk.make hmade (Disk.free_subset (Plan.way_subset_ways s.base))
  obtain ⟨disk, hrun, hsound, hget⟩ := hs'.write_run hown text
  have hsame := ho.writing_eq hp hd hw
  rw [hsame, ho.base] at hget
  rw [hsame] at hrun
  refine ⟨s'.withDisk disk, hrun, ?_⟩
  cases hwriting : p.writing s d with
  | error e =>
    rw [hwriting] at hget
    refine ⟨⟨ho.base, ho.refuses, ?_, hsound⟩, fun l hl => ?_, fun path hpath => nomatch hpath⟩
    · rw [List.append_nil]
      exact hafter.congr hget
    · exact (hget l).trans (hmade.directory hl)
  | ok path =>
    rw [hwriting] at hget
    have hmove := (Plan.writing_eq_ok (hsame.trans hwriting)).2
    rw [ho.base] at hmove
    obtain ⟨hlocate, -, -, hfree⟩ := Disk.moveAnswer_eq_ok.1 hmove
    change ¬ (s'.make (p.directory d)).2.HasDirectory (p.location d s.base) at hfree
    have hkept : ∀ {l}, (s'.make (p.directory d)).2.HasDirectory l → disk.HasDirectory l := by
      intro l hl
      have hne : l ≠ p.location d s.base := fun he => hfree (he ▸ hl)
      rw [Disk.HasDirectory, hget, if_neg hne]
      exact hl
    exact ⟨⟨ho.base, ho.refuses, hafter.write hnew hfree hget, hsound⟩, fun l hl =>
      hkept (hmade.directory hl), fun _ _ => Disk.locate_mono hkept hlocate⟩

/-! ## Converting -/

theorem Onward.logged (ho : Onward p s writes s') (es : List Log.Entry) :
    Onward p s writes (s'.logged es) :=
  ⟨ho.base, ho.refuses, ho.disk, ho.sound⟩

/-- **Converting a class** comes to the same after files of others were written. -/
theorem Onward.convert_run (ho : Onward p s writes s') (hp : Prepared p s ds) (hd : d ∈ ds)
    (hw : ∀ w ∈ writes, w.1 ∈ ds.map (p.location · s.base))
    (hnew : ∀ c, (p.location d s.base, c) ∉ writes) :
    ∃ s'', (convert p d : StateM Machine _).run s' = (p.conversion s d, s'') ∧
      Onward p s (writes ++ p.effect s d) s'' ∧
      (∀ l, s'.disk.HasDirectory l → s''.disk.HasDirectory l) ∧
      ∀ path, (p.conversion s d).1 = .written path →
        s''.disk.locate s.base (p.path d) = .ok (p.location d s.base) := by
  have hreflect := reflect_run s' p.settings d
  rw [ho.reflect_eq hp hd hw] at hreflect
  have hclock : ∀ s : Machine, (Host.clock : StateM Machine Nat).run s = (0, s) := fun _ => rfl
  generalize hs₁ : s'.logged _ = s₁ at hreflect
  have ho₁ : Onward p s writes s₁ := hs₁ ▸ ho.logged _
  have hnone : Onward p s (writes ++ []) s₁ := by rwa [List.append_nil]
  have hkept₁ : ∀ l, s'.disk.HasDirectory l → s₁.disk.HasDirectory l := by
    subst hs₁
    exact fun l hl => hl
  unfold convert
  rw [Files.bind_run hreflect]
  unfold Plan.effect Plan.conversion Plan.generated
  cases hfacts : (reflectFrom (s.disk.readText s.base) p.settings d).1 with
  | error e => exact ⟨s₁, rfl, hnone, hkept₁, fun path hpath => nomatch hpath⟩
  | ok facts =>
    dsimp only
    rw [Files.bind_run (hclock s₁)]
    cases CSharp.render p.settings.profile { d with facts? := some facts } p.date with
    | error fault =>
      exact ⟨s₁, rfl, hnone, hkept₁, fun path hpath => nomatch hpath⟩
    | ok text =>
      dsimp only
      rw [Files.bind_run (hclock s₁)]
      by_cases hdry : p.isDry = true
      · rw [if_pos hdry, if_pos hdry]
        exact ⟨s₁, rfl, hnone, hkept₁, fun path hpath => nomatch hpath⟩
      · rw [if_neg hdry, if_neg hdry]
        obtain ⟨s₂, hwritten, ho₂, hkept₂, hreach⟩ := ho₁.write_run hp hd hw hnew text
        rw [Files.bind_run hwritten]
        cases hwriting : p.writing s d with
        | error e =>
          rw [hwriting] at ho₂
          exact ⟨s₂, rfl, ho₂, fun l hl => hkept₂ l (hkept₁ l hl), fun path hpath => nomatch hpath⟩
        | ok path =>
          rw [hwriting] at ho₂
          exact ⟨s₂, rfl, ho₂, fun l hl => hkept₂ l (hkept₁ l hl), fun _ _ => hreach path hwriting⟩

/-- **Processing a class** comes to the same after others were processed. -/
theorem Onward.process_run (ho : Onward p s writes s') (hp : Prepared p s ds) (hd : d ∈ ds)
    (hw : ∀ w ∈ writes, w.1 ∈ ds.map (p.location · s.base))
    (hnew : ∀ c, (p.location d s.base, c) ∉ writes) (i : Nat) :
    ∃ s'', (process p i d : StateM Machine _).run s' = (p.outcome s d i, s'') ∧
      Onward p s (writes ++ p.effect s d) s'' ∧
      (∀ l, s'.disk.HasDirectory l → s''.disk.HasDirectory l) ∧
      ∀ path, (p.conversion s d).1 = .written path →
        s''.disk.locate s.base (p.path d) = .ok (p.location d s.base) := by
  have hclock : ∀ s : Machine, (Host.clock : StateM Machine Nat).run s = (0, s) := fun _ => rfl
  obtain ⟨s₁, hrun, ho₁, hkept, hreach⟩ := ho.convert_run hp hd hw hnew
  unfold process
  rw [Files.bind_run (hclock s'), Files.bind_run hrun]
  unfold Plan.outcome
  generalize hconversion : p.conversion s d = answer at hreach ⊢
  obtain ⟨status, took?⟩ := answer
  cases status with
  | failed e =>
    exact ⟨s₁.logged [failedEntry d e], rfl, ho₁.logged _, hkept, fun path hpath => nomatch hpath⟩
  | written path => exact ⟨s₁, rfl, ho₁, hkept, hreach⟩
  | planned path => exact ⟨s₁, rfl, ho₁, hkept, hreach⟩

end

end PhpSharp.Conversion
