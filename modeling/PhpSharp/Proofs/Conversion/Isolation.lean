/-
  What happens to one class does not depend on the source of another, nor on the order in which
  they are found.

  * `DependsOn read st d source`: the exception, an object with a call that names the class of
    that source;
  * `Prepared.same`: on disks that are alike the same comes of a class whose source, and those that
    it depends on, are not changed;
  * `failures_isolated`: so it is in whole runs.
-/
import PhpSharp.Proofs.Conversion.ObjectRoot
import PhpSharp.Proofs.Conversion.Same
import PhpSharp.Proofs.Files.Alike

namespace PhpSharp.Conversion

open Files (Host Machine Disk Location Content OsError)
open Files.Disk (Reaches IsEntry Alike)
open Reflection (Consults findClass?)

/-! ## What is found -/

/-- **The same was found,** within each kind perhaps in another order. -/
structure Rearranged (found found' : List Sdk.Descriptor) : Prop where
  kinds : found'.map (·.kind) = found.map (·.kind)
  perm : ∀ k, (found'.filter (·.kind = k)).Perm (found.filter (·.kind = k))

namespace Rearranged

variable {found found' rest rest' : List Sdk.Descriptor}

theorem nil : Rearranged [] [] := ⟨rfl, fun _ => .nil⟩

theorem append (h : Rearranged found found') (hrest : Rearranged rest rest') :
    Rearranged (found ++ rest) (found' ++ rest') := by
  refine ⟨by rw [List.map_append, List.map_append, h.kinds, hrest.kinds], fun k => ?_⟩
  rw [List.filter_append, List.filter_append]
  exact (h.perm k).append (hrest.perm k)

/-- Classes of one kind may be found in any order. -/
theorem of_kind {k : Sdk.Kind} (hk : ∀ d ∈ found, d.kind = k) (h : found'.Perm found) :
    Rearranged found found' := by
  have hk' : ∀ d ∈ found', d.kind = k := fun d hd => hk d (h.subset hd)
  refine ⟨?_, fun k => h.filter _⟩
  rw [List.map_congr_left hk, List.map_congr_left hk', List.map_const', List.map_const',
    h.length_eq]

theorem perm_all (h : Rearranged found found') : found'.Perm found := by
  refine List.perm_iff_count.2 fun d => ?_
  have hcount := (h.perm d.kind).count_eq d
  rwa [List.count_filter (by simp), List.count_filter (by simp)] at hcount

end Rearranged

section
variable {a a' : Answers} {st : Settings} {k : Sdk.Kind} {found : Scan}

theorem kind_of_mem_select {t : Target} {denylist : List String} {entries : List (String × Bool)} :
    ∀ d ∈ (t.select denylist entries).descriptors, d.kind = t.kind := by
  intro d hd
  obtain ⟨e, -, rfl⟩ := List.mem_map.1 hd
  rfl

/-- Where directories have the same names in another order, the same is found. -/
theorem Answers.scan_perm (hd : ∀ p, a'.isDirectory p = a.isDirectory p)
    (hn : ∀ p names, a.names? p = some names → ∃ names', a'.names? p = some names' ∧
      names'.Perm names) (h : a.scan st k = .ok found) :
    ∃ found', a'.scan st k = .ok found' ∧ Rearranged found.descriptors found'.descriptors := by
  unfold Answers.scan at h ⊢
  cases hnames : a.names? (st.inputDirectory k) with
  | none =>
    rw [hnames] at h
    cases h
  | some names =>
    obtain ⟨names', hnames', hperm⟩ := hn _ _ hnames
    rw [hnames] at h
    rw [hnames']
    cases h
    refine ⟨_, rfl, .of_kind (k := k) kind_of_mem_select ?_⟩
    have hmarked : a'.marked (st.inputDirectory k) = a.marked (st.inputDirectory k) :=
      funext fun names => List.map_congr_left fun name _ => by rw [hd]
    rw [hmarked]
    exact ((hperm.map _).filter _).map _

theorem Answers.discovery_perm (hd : ∀ p, a'.isDirectory p = a.isDirectory p)
    (hn : ∀ p names, a.names? p = some names → ∃ names', a'.names? p = some names' ∧
      names'.Perm names) {ks : List Sdk.Kind} (h : a.discovery st ks = .ok found) :
    ∃ found', a'.discovery st ks = .ok found' ∧
      Rearranged found.descriptors found'.descriptors := by
  induction ks generalizing found with
  | nil =>
    cases h
    exact ⟨_, rfl, .nil⟩
  | cons k ks ih =>
    rw [discovery] at h ⊢
    cases hfirst : a.scan st k with
    | error e =>
      rw [hfirst] at h
      cases h
    | ok first =>
      obtain ⟨first', hfirst', hrearranged⟩ := scan_perm hd hn hfirst
      rw [hfirst] at h
      rw [hfirst']
      cases hrest : a.discovery st ks with
      | error e =>
        rw [hrest] at h
        cases h
      | ok rest =>
        obtain ⟨rest', hrest', hrearranged'⟩ := ih hrest
        rw [hrest] at h
        rw [hrest']
        cases h
        exact ⟨_, rfl, hrearranged.append hrearranged'⟩

end

section
variable {changed : Location → Prop} {s s' : Machine} {disk : Disk} {st : Settings} {found : Scan}

/-- **What is found on disks that are alike** is the same, within each kind perhaps in another
    order. -/
theorem discover_alike (h : Alike changed s.disk disk)
    (hf : (discover st : StateM Machine _).run s = (.ok found, s')) :
    ∃ found' s'', (discover st : StateM Machine _).run (s.withDisk disk) = (.ok found', s'') ∧
      Rearranged found.descriptors found'.descriptors := by
  have hanswers := discover_eq s st
  rw [hf] at hanswers
  have hdirectory : ∀ p, (diskAnswers disk s.base).isDirectory p =
      (diskAnswers s.disk s.base).isDirectory p := fun p => h.isDirectory_eq
  have hnames : ∀ p names, (diskAnswers s.disk s.base).names? p = some names →
      ∃ names', (diskAnswers disk s.base).names? p = some names' ∧ names'.Perm names := by
    intro p names hnames
    rw [names?_diskAnswers] at hnames ⊢
    rw [h.isDirectory_eq]
    split at hnames
    · rename_i hthere
      rw [if_pos hthere]
      exact ⟨_, rfl, Option.some.inj hnames ▸ h.children _⟩
    · cases hnames
  obtain ⟨found', hfound', hrearranged⟩ := Answers.discovery_perm hdirectory hnames hanswers.symm
  exact ⟨found', _, Prod.ext ((discover_eq _ st).trans hfound') rfl, hrearranged⟩

/-- Where directories list the same in the same order, too, exactly the same is found. -/
theorem discover_of_children (h : Alike changed s.disk disk)
    (hchildren : ∀ k, disk.children k = s.disk.children k)
    (hf : (discover st : StateM Machine _).run s = (.ok found, s')) :
    ∃ s'', (discover st : StateM Machine _).run (s.withDisk disk) = (.ok found, s'') := by
  have hanswers := discover_eq s st
  rw [hf] at hanswers
  have hsame : (diskAnswers disk s.base).discovery st Sdk.Kind.all =
      (diskAnswers s.disk s.base).discovery st Sdk.Kind.all := by
    refine Answers.discovery_congr fun k _ => ?_
    have hmarked : (diskAnswers disk s.base).marked (st.inputDirectory k) =
        (diskAnswers s.disk s.base).marked (st.inputDirectory k) :=
      funext fun names => List.map_congr_left fun name _ => congrArg (Prod.mk name) h.isDirectory_eq
    rw [Answers.scan, Answers.scan, names?_diskAnswers, names?_diskAnswers, h.isDirectory_eq,
      hchildren, hmarked]
  have hfound : ((discover st : StateM Machine _).run (s.withDisk disk)).1 = .ok found :=
    (discover_eq _ st).trans (hsame.trans hanswers.symm)
  exact ⟨_, Prod.ext hfound rfl⟩

end

/-! ## One class -/

/-- **A class depends on a source:** it is an object, and has a call that names the class of that
    source and no edge. -/
structure DependsOn (read : Path → Except OsError String) (st : Settings) (d : Sdk.Descriptor)
    (source : Path) : Prop where
  kind : d.kind = .object
  consulted : ∃ c name, findClass? (read d.sourceFile).toOption d.shortName = some c ∧
    Consults c name ∧ source = objectFile st name

theorem of_mem_neededClasses {d : Sdk.Descriptor} {source name : String}
    (h : name ∈ Reflection.neededClasses d source) :
    d.kind = .object ∧ ∃ c, findClass? (some source) d.shortName = some c ∧ Consults c name := by
  unfold Reflection.neededClasses at h
  split at h
  · rename_i hk
    refine ⟨hk, ?_⟩
    cases hc : findClass? (some source) d.shortName with
    | none =>
      rw [hc] at h
      cases h
    | some c =>
      rw [hc] at h
      exact ⟨c, rfl, Reflection.mem_otherClasses_iff.1 h⟩
  · cases h
  · cases h

section
variable {changed : Location → Prop} {p : Plan} {s s' : Machine} {disk : Disk}
  {ds : List Sdk.Descriptor} {d e : Sdk.Descriptor}

/-- The source of a class is an entry of the directory of its kind. -/
theorem Prepared.source (hp : Prepared p s ds) (hd : d ∈ ds) :
    ∃ name, IsEntry name ∧ d = (target p.settings d.kind).descriptor name ∧
      d.sourceFile = (p.settings.inputDirectory d.kind).entry name ∧
      d.sourceFile.location s.base =
        (p.settings.inputDirectory d.kind).location s.base ++ [name] := by
  obtain ⟨name, hname, hthere⟩ := (hp.found d hd).file
  have hentry := (hp.disk.name hthere).toIsEntry
  have hfile : d.sourceFile = (p.settings.inputDirectory d.kind).entry name :=
    congrArg Sdk.Descriptor.sourceFile hname
  refine ⟨name, hentry, hname, hfile, ?_⟩
  rw [hfile, Path.location_entry hentry.noSlash hentry.ne_empty hentry.ne_dot hentry.ne_dots]

/-- A machine with a disk that is alike is as systems are, too. -/
theorem Sound.alike (hs : Sound s) (h : Alike changed s.disk disk) : Sound (s.withDisk disk) :=
  ⟨hs.refusals.congr rfl rfl ((h.grown s.closed []).closes hs.refusals.closes), h.sound hs.disk,
    h.directory.2 hs.base⟩

/-- Writing the file for a class comes to the same on disks that are alike. -/
theorem Sound.writing_alike (hs : Sound s) (hd : Settled s (p.directory d))
    (h : Alike changed s.disk disk) : p.writing (s.withDisk disk) d = p.writing s d :=
  Plan.writing_congr hs (hs.alike h) rfl rfl (hd.grown hs (hs.alike h) rfl rfl (h.grown ..)).2
    fun _ _ => .inr ⟨h.directory, fun _ => h.file⟩

/-- Classes keep apart in any order. -/
theorem Apart.perm {base : Location} {ds' : List Sdk.Descriptor} (ha : Apart p base ds)
    (hperm : ds'.Perm ds) : Apart p base ds' where
  inputs := ha.inputs
  outside d hd := ha.outside d (hperm.subset hd)
  files := (hperm.map _).nodup_iff.2 ha.files
  directories d hd := ha.directories d (hperm.subset hd)
  onward d hd l hl := (ha.onward d (hperm.subset hd) l hl).imp_right fun h =>
    ⟨h.directory, fun hmem => h.file ((hperm.map _).subset hmem), h.temporary⟩

/-- **On disks that are alike the same comes of a class** whose source is not changed, nor one that
    it depends on. -/
theorem Prepared.same (hp : Prepared p s ds) (hd : d ∈ ds) (h : Alike changed s.disk disk)
    (hown : ¬ changed (d.sourceFile.location s.base))
    (hother : ∀ name,
      DependsOn (s.disk.readText s.base) p.settings d (objectFile p.settings name) →
        ¬ changed ((p.settings.inputDirectory .object).location s.base ++ [name ++ ".php"])) :
    p.Same d s (s.withDisk disk) := by
  obtain ⟨name, hentry, -, hfile, hlocation⟩ := hp.source hd
  refine ⟨rfl, (reflectFrom_congr_needed ?_ fun source hsource other hneeded => ?_).symm,
    hp.toSound.writing_alike (hp.settled d hd) h⟩
  · rw [hfile]
    exact (h.readText_eq (hp.reaches d.kind) hentry (hlocation ▸ hown)).symm
  · obtain ⟨hk, c, hc, hconsults⟩ := of_mem_neededClasses hneeded
    have hphp := isEntry_php (Reflection.noSlash_neededClasses d source other hneeded)
    refine congrArg Except.toOption (h.readText_eq (hp.reaches .object) hphp
      (hother other ⟨hk, c, other, ?_, hconsults, rfl⟩)).symm
    rw [hsource]
    exact hc
/-- What is known of classes on a disk is known on one that is alike. -/
theorem Prepared.alike {found' : Scan} {s'' : Machine} (hp : Prepared p s ds)
    (h : Alike changed s.disk disk)
    (hf : (discover p.settings : StateM Machine _).run (s.withDisk disk) = (.ok found', s''))
    (hperm : found'.descriptors.Perm ds) : Prepared p (s.withDisk disk) found'.descriptors := by
  have hs' := hp.toSound.alike h
  refine (Prepared.of_discover hs' hf (hp.apart.perm hperm) fun d hd => ?_).1
  exact ((hp.settled d (hperm.subset hd)).grown hp.toSound hs' rfl rfl (h.grown ..)).1

/-- Two classes have two sources, if each kind has its own directory. -/
theorem Prepared.source_ne (hp : Prepared p s ds)
    (hroots : ∀ k k', (p.settings.inputDirectory k).location s.base =
      (p.settings.inputDirectory k').location s.base → k = k')
    {i j : Nat} (hij : j ≠ i) (he : ds[i]? = some e) (hd : ds[j]? = some d) :
    d.sourceFile.location s.base ≠ e.sourceFile.location s.base := by
  intro hsame
  obtain ⟨name, -, hname, -, hlocation⟩ := hp.source (List.mem_of_getElem? hd)
  obtain ⟨name', -, hname', -, hlocation'⟩ := hp.source (List.mem_of_getElem? he)
  rw [hlocation, hlocation'] at hsame
  obtain ⟨hroot, hlast⟩ := List.append_inj' hsame rfl
  have hkind := hroots _ _ hroot
  obtain rfl : d = e := by
    rw [hname, hname', hkind, List.singleton_inj.1 hlast]
  -- then it was found twice, and would have one file twice
  have hlt : j < (ds.map (p.location · s.base)).length := by
    rw [List.length_map]
    exact (List.getElem?_eq_some_iff.1 hd).1
  refine hij ((List.getElem?_inj hlt hp.apart.files).1 ?_)
  rw [List.getElem?_map, List.getElem?_map, hd, he]

/-- What is in the file of a class after all classes is what was written for it, or was there
    before. -/
theorem Progress.file_at {history : List Nat} {c : Content} (hp : Prepared p s ds)
    (hg : Progress p s ds history s') (hall : history.Perm (List.range ds.length)) (hd : d ∈ ds) :
    s'.disk.get? (p.location d s.base) = some (.file c) ↔
      (p.location d s.base, c) ∈ p.effect s d ∨ (∀ c', (p.location d s.base, c') ∉ p.effect s d) ∧
        s.disk.get? (p.location d s.base) = some (.file c) := by
  have hmem : ∀ c, (∃ d' ∈ ds, (p.location d s.base, c) ∈ p.effect s d') ↔
      (p.location d s.base, c) ∈ p.effect s d := by
    refine fun c => ⟨?_, fun hc => ⟨d, hd, hc⟩⟩
    rintro ⟨d', hd', hc⟩
    obtain rfl := List.inj_on_of_nodup_map hp.apart.files hd hd' (Plan.location_of_mem_effect hc)
    exact hc
  simp only [hg.file hall, hmem]

/-! ## All classes -/

/-- **Another content of one source** changes nothing about the classes that do not depend on it. -/
theorem Runs.isolated {found : Scan} {s₀ s₀' s₁ s₁' : Machine} {outcomes outcomes' : List Outcome}
    {i j : Nat} (hp : Prepared p s found.descriptors)
    (hroots : ∀ k k', (p.settings.inputDirectory k).location s.base =
      (p.settings.inputDirectory k').location s.base → k = k')
    (hf : (discover p.settings : StateM Machine _).run s = (.ok found, s₀))
    (he : found.descriptors[i]? = some e)
    (h : Alike (· = e.sourceFile.location s.base) s.disk disk)
    (hf' : (discover p.settings : StateM Machine _).run (s.withDisk disk) = (.ok found, s₀'))
    (hr : Runs p s outcomes s₁) (hr' : Runs p (s.withDisk disk) outcomes' s₁') (hij : j ≠ i)
    (hd : found.descriptors[j]? = some d)
    (hdepends : ¬ DependsOn (s.disk.readText s.base) p.settings d e.sourceFile) :
    outcomes'[j]? = outcomes[j]? ∧ ∀ c, s₁'.disk.get? (p.location d s.base) = some (.file c) ↔
      s₁.disk.get? (p.location d s.base) = some (.file c) := by
  have hmem := List.mem_of_getElem? hd
  obtain ⟨name, -, -, hfile, hlocation⟩ := hp.source (List.mem_of_getElem? he)
  have hp' := hp.alike h hf' (.refl _)
  have hsame : p.Same d s (s.withDisk disk) := by
    refine hp.same hmem h (hp.source_ne hroots hij he hd) fun other hother hchanged => hdepends ?_
    -- the changed source is that of the class that is consulted
    rw [hlocation] at hchanged
    obtain ⟨hroot, hlast⟩ := List.append_inj' hchanged rfl
    rw [hfile, ← hroots _ _ hroot, ← List.singleton_inj.1 hlast]
    exact hother
  obtain ⟨houtcomes, history, hall, hg⟩ := hr.progress hp hf
  obtain ⟨houtcomes', history', hall', hg'⟩ := hr'.progress hp' hf'
  constructor
  · rw [houtcomes, houtcomes', List.getElem?_mapIdx, List.getElem?_mapIdx, hd, Option.map_some,
      Option.map_some, hsame.outcome_eq]
  · intro c
    have hunchanged : disk.get? (p.location d s.base) = s.disk.get? (p.location d s.base) :=
      h.get?_eq fun hchanged => hp.apart.outside d hmem e.kind name (hchanged.trans hlocation)
    rw [hg.file_at hp hall hmem, ← hunchanged, ← hsame.effect_eq]
    exact hg'.file_at hp' hall' hmem

/-- An outcome without the place of its class. -/
def Outcome.unplaced (o : Outcome) : Outcome := { o with index := 0 }

/-- What does not show the places shows the classes. -/
theorem map_outcomes {γ : Type} {view : Outcome → γ} {p : Plan} {s : Machine}
    (hview : ∀ i d, view (p.outcome s d i) = view (p.outcome s d 0)) (ds : List Sdk.Descriptor) :
    (ds.mapIdx fun i d => p.outcome s d i).map view = ds.map fun d => view (p.outcome s d 0) := by
  refine List.ext_getElem? fun i => ?_
  rw [List.getElem?_map, List.getElem?_mapIdx, List.getElem?_map]
  cases ds[i]? with
  | none => rfl
  | some d => exact congrArg some (hview i d)

/-- The outcomes of a kind, without their places, are those of its classes. -/
theorem unplaced_filter_kind (p : Plan) (s : Machine) (ds : List Sdk.Descriptor) (k : Sdk.Kind) :
    ((ds.mapIdx fun i d => p.outcome s d i).filter (·.kind = k)).map Outcome.unplaced =
      (ds.filter (·.kind = k)).map fun d => p.outcome s d 0 := by
  have hunplaced : (ds.mapIdx fun i d => p.outcome s d i).map Outcome.unplaced =
      ds.map fun d => p.outcome s d 0 := map_outcomes (fun _ _ => rfl) ds
  have hfilter := congrArg (List.filter fun o => decide (o.kind = k)) hunplaced
  rw [List.filter_map, List.filter_map] at hfilter
  exact hfilter

/-- **Another order of what directories list** changes only the order of the outcomes of a kind. -/
theorem Runs.rearranged {found found' : Scan} {s₀ s₀' s₁ s₁' : Machine}
    {outcomes outcomes' : List Outcome} (hp : Prepared p s found.descriptors)
    (hf : (discover p.settings : StateM Machine _).run s = (.ok found, s₀))
    (h : Alike (fun _ => False) s.disk disk)
    (hf' : (discover p.settings : StateM Machine _).run (s.withDisk disk) = (.ok found', s₀'))
    (hfound : Rearranged found.descriptors found'.descriptors)
    (hr : Runs p s outcomes s₁) (hr' : Runs p (s.withDisk disk) outcomes' s₁') :
    outcomes'.map (·.kind) = outcomes.map (·.kind) ∧
      (∀ k, ((outcomes'.filter (·.kind = k)).map Outcome.unplaced).Perm
        ((outcomes.filter (·.kind = k)).map Outcome.unplaced)) ∧
      ∀ l c, s₁'.disk.get? l = some (.file c) ↔ s₁.disk.get? l = some (.file c) := by
  have hp' := hp.alike h hf' hfound.perm_all
  have hsame : ∀ d ∈ found.descriptors, p.Same d s (s.withDisk disk) := fun d hd =>
    hp.same hd h id fun _ _ => id
  obtain ⟨rfl, history, hall, hg⟩ := hr.progress hp hf
  obtain ⟨rfl, history', hall', hg'⟩ := hr'.progress hp' hf'
  refine ⟨?_, fun k => ?_, fun l c => ?_⟩
  · rw [map_outcomes fun _ _ => rfl, map_outcomes fun _ _ => rfl]
    exact hfound.kinds
  · rw [unplaced_filter_kind, unplaced_filter_kind]
    refine ((hfound.perm k).map _).trans (.of_eq (List.map_congr_left fun d hd => ?_))
    exact (hsame d (List.mem_filter.1 hd).1).outcome_eq 0
  · have heffect : ∀ c, (∃ d ∈ found'.descriptors, (l, c) ∈ p.effect (s.withDisk disk) d) ↔
        ∃ d ∈ found.descriptors, (l, c) ∈ p.effect s d := fun c => exists_congr fun d => by
      rw [hfound.perm_all.mem_iff]
      exact and_congr_right fun hd => by rw [(hsame d hd).effect_eq]
    have hthere : (s.withDisk disk).disk.get? l = s.disk.get? l := h.get?_eq id
    simp only [hg.file hall, hg'.file hall', heffect, hthere]

/-- **What happens to one class does not depend on the source of another,** nor on the order in
    which they are listed, where each kind has its own directory, classes keep apart and whether a
    directory can be made does not depend on what else is made. Calls may be refused by their place.

    Another content of one source, whatever it is, changes neither the outcomes of other classes nor
    what is in their files, but for objects with a call that names the class of that source and no
    edge. Another order of what directories list changes only the order of the outcomes of a kind,
    and no file. -/
theorem failures_isolated {found : Scan} {s₀ : Machine} (hs : Sound s)
    (hf : (discover p.settings : StateM Machine _).run s = (.ok found, s₀))
    (hroots : ∀ k k', (p.settings.inputDirectory k).location s.base =
      (p.settings.inputDirectory k').location s.base → k = k')
    (ha : Apart p s.base found.descriptors)
    (hd : ∀ d ∈ found.descriptors, Settled s (p.directory d)) :
    (∀ (i : Nat) (e : Sdk.Descriptor) (content : Content), found.descriptors[i]? = some e →
      s.disk.HasFile (e.sourceFile.location s.base) →
      let s' := s.withDisk (s.disk.put (e.sourceFile.location s.base) (.file content))
      (∃ report, ((run p : StateM Machine _).run s').1 = .ok report) ∧
        ∀ outcomes s₁ outcomes' s₁', Runs p s outcomes s₁ → Runs p s' outcomes' s₁' →
          outcomes'.map Outcome.subject = outcomes.map Outcome.subject ∧
          ∀ (j : Nat) (d), j ≠ i → found.descriptors[j]? = some d →
            ¬ DependsOn (s.disk.readText s.base) p.settings d e.sourceFile →
              outcomes'[j]? = outcomes[j]? ∧
                ∀ c, s₁'.disk.get? (p.location d s.base) = some (.file c) ↔
                  s₁.disk.get? (p.location d s.base) = some (.file c)) ∧
    ∀ disk, Alike (fun _ => False) s.disk disk →
      let s' := s.withDisk disk
      (∃ report, ((run p : StateM Machine _).run s').1 = .ok report) ∧
        ∀ outcomes s₁ outcomes' s₁', Runs p s outcomes s₁ → Runs p s' outcomes' s₁' →
          outcomes'.map (·.kind) = outcomes.map (·.kind) ∧
          (∀ k, ((outcomes'.filter (·.kind = k)).map Outcome.unplaced).Perm
            ((outcomes.filter (·.kind = k)).map Outcome.unplaced)) ∧
          ∀ l c, s₁'.disk.get? l = some (.file c) ↔ s₁.disk.get? l = some (.file c) := by
  obtain ⟨hp, -⟩ := Prepared.of_discover hs hf ha hd
  constructor
  · intro i e content he hfile s'
    obtain ⟨halike, hchildren⟩ := Disk.alike_put hfile content
    obtain ⟨s₀', hf'⟩ := discover_of_children halike hchildren hf
    obtain ⟨report, hreport, -⟩ := run_of_discover (p := p) hf'
    refine ⟨⟨report, congrArg Prod.fst hreport⟩, fun outcomes s₁ outcomes' s₁' hr hr' => ?_⟩
    exact ⟨(hr'.subjects hf').trans (hr.subjects hf).symm, fun j d hij hd hdepends =>
      hr.isolated hp hroots hf he halike hf' hr' hij hd hdepends⟩
  · intro disk halike s'
    obtain ⟨found', s₀', hf', hfound⟩ := discover_alike halike hf
    obtain ⟨report, hreport, -⟩ := run_of_discover (p := p) hf'
    exact ⟨⟨report, congrArg Prod.fst hreport⟩, fun outcomes s₁ outcomes' s₁' hr hr' =>
      hr.rearranged hp hf halike hf' hfound hr'⟩

end

/-- A source is cut off, or the directories list their entries backwards. -/
theorem failures_isolated_smallSdk :
    let cut := smallSdk.withDisk
      (smallSdk.disk.put ["sdk", "o", "Ad.php"] (.file (.text "<?php class Ad \x7b")))
    let backwards := smallSdk.withDisk ⟨smallSdk.disk.entries.reverse⟩
    (∃ report, ((run smallPlan : StateM Machine _).run cut).1 = .ok report) ∧
    ∀ outcomes s₁, Runs smallPlan smallSdk outcomes s₁ →
      (∀ outcomes' s₁', Runs smallPlan cut outcomes' s₁' → outcomes'[1]? = outcomes[1]?) ∧
      ∀ outcomes' s₁', Runs smallPlan backwards outcomes' s₁' →
        ∀ l c, s₁'.disk.get? l = some (.file c) ↔ s₁.disk.get? l = some (.file c) := by
  intro cut backwards
  have hroots : ∀ k k', (smallPlan.settings.inputDirectory k).location smallSdk.base =
      (smallPlan.settings.inputDirectory k').location smallSdk.base → k = k' := by
    intro k k'
    cases k <;> cases k' <;> decide +kernel
  obtain ⟨hchanged, hordered⟩ := failures_isolated sound_smallSdk discover_smallSdk
    hroots apart_smallSdk settled_smallSdk
  have hlocation : ((target smallPlan.settings .object).descriptor "Ad.php").sourceFile.location
      smallSdk.base = ["sdk", "o", "Ad.php"] := by decide +kernel
  have hfile : smallSdk.disk.HasFile ["sdk", "o", "Ad.php"] :=
    ⟨.text "<?php class Ad extends AbstractCrudObject \x7b\x7d", by decide +kernel⟩
  obtain ⟨hruns, hcut⟩ := hchanged 0 _ (.text "<?php class Ad \x7b") rfl
    (by rw [hlocation]; exact hfile)
  rw [hlocation] at hruns hcut
  have halike : Alike (fun _ => False) smallSdk.disk ⟨smallSdk.disk.entries.reverse⟩ :=
    Disk.alike_of_perm (List.reverse_perm _) (by decide +kernel)
  obtain ⟨-, hbackwards⟩ := hordered _ halike
  refine ⟨hruns, fun outcomes s₁ hr =>
    ⟨fun outcomes' s₁' hr' => ?_, fun outcomes' s₁' hr' => ?_⟩⟩
  · obtain ⟨-, hothers⟩ := hcut _ _ _ _ hr hr'
    exact (hothers 1 _ (by decide) rfl fun hdepends => nomatch hdepends.kind).1
  · exact (hbackwards _ _ _ _ hr hr').2.2

end PhpSharp.Conversion
