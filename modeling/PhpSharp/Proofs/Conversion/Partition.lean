/-
  What is found in an input directory, entry by entry.

  * `IsCandidate`: what an entry is, by its name and the list of those that are no classes; it is
    exactly one of four things (`classify_eq_iff`);
  * `Partition`: what was found are the entries that stand for classes and those with other names,
    each in the order of the listing and none twice;
  * `scan_partition`: this is what a scan finds, and all that is found is what is found in the
    directories of the three kinds.
-/
import PhpSharp.Proofs.Conversion.Runs
import PhpSharp.Proofs.Sdk.Identifier

namespace PhpSharp.Conversion

open Files (Host Keeps Machine)
open Sdk (IsStem IsUsable IsQualified)

/-! ## Entries -/

/-- **What an entry is:** a directory, a file that is denied by its exact name, or a file of
    another name, which stands for a class if its stem is a name that a class can have. -/
inductive IsCandidate (denylist : List String) (name : String) : Bool → Candidate → Prop
  | directory : IsCandidate denylist name true .directory
  | denied (h : name ∈ denylist) : IsCandidate denylist name false .denied
  | skipped {stem} (h : name ∉ denylist) (hstem : IsStem stem name) (hname : ¬ IsUsable stem) :
      IsCandidate denylist name false .skipped
  | described {stem} (h : name ∉ denylist) (hstem : IsStem stem name) (hname : IsUsable stem) :
      IsCandidate denylist name false .described

section
variable {denylist : List String} {name : String} {isDirectory : Bool} {c : Candidate}

theorem classify_eq_iff :
    classify denylist name isDirectory = c ↔ IsCandidate denylist name isDirectory c := by
  constructor
  · rintro rfl
    unfold classify
    cases isDirectory with
    | true => exact .directory
    | false =>
      rw [if_neg Bool.false_ne_true]
      split
      · rename_i hdenied
        exact .denied (List.contains_iff_mem.1 hdenied)
      · rename_i hother
        rw [List.contains_iff_mem] at hother
        split
        · rename_i hclass
          exact .described hother (Sdk.isStem_shortName name) (Sdk.isClassName_iff.1 hclass)
        · rename_i hclass
          exact .skipped hother (Sdk.isStem_shortName name) fun h =>
            hclass (Sdk.isClassName_iff.2 h)
  · intro h
    cases h with
    | directory => rfl
    | denied h => simp [classify, h]
    | skipped h hstem hname =>
      obtain rfl := Sdk.shortName_eq_iff.2 hstem
      rw [← Sdk.isClassName_iff] at hname
      simp [classify, h, hname]
    | described h hstem hname =>
      obtain rfl := Sdk.shortName_eq_iff.2 hstem
      rw [← Sdk.isClassName_iff] at hname
      simp [classify, h, hname]

end

/-- **The descriptor of the class that a file stands for.** -/
structure Describes (t : Target) (name : String) (d : Sdk.Descriptor) : Prop where
  kind : d.kind = t.kind
  nameSpace : d.nameSpace = t.nameSpace
  shortName : IsStem d.shortName name
  sourceFile : d.sourceFile = t.root.entry name
  unread : d.facts? = none
  qualifiedName : IsQualified t.sourceNamespace d.shortName d.qualifiedName

theorem describes_descriptor (t : Target) (name : String) :
    Describes t name (t.descriptor name) where
  kind := rfl
  nameSpace := rfl
  shortName := Sdk.isStem_shortName name
  sourceFile := rfl
  unread := rfl
  qualifiedName := Sdk.qualify_eq_iff.1 rfl

/-! ## Directories -/

/-- **The names in a directory:** no two are the same, and none has a slash in it. -/
structure IsListing (names : List String) : Prop where
  nodup : names.Nodup
  noSlash : ∀ name ∈ names, '/' ∉ name.toList

/-- **What was found in a directory** with some names: of each entry what it is, in the order of
    the listing. -/
structure Partition (t : Target) (denylist : List String) (isDirectory : String → Bool)
    (names : List String) (found : Scan) : Prop where
  /-- Each entry is one thing only; it is described or skipped if it is that, -/
  entry : ∀ name ∈ names, ∃ c, IsCandidate denylist name (isDirectory name) c ∧
    (∀ c', IsCandidate denylist name (isDirectory name) c' → c' = c) ∧
    (t.root.entry name ∈ found.descriptors.map Sdk.Descriptor.sourceFile ↔ c = .described) ∧
    (t.root.entry name ∈ found.skipped ↔ c = .skipped)
  /-- and nothing else is. -/
  descriptor : ∀ d ∈ found.descriptors, ∃ name ∈ names, Describes t name d
  descriptors_order : (found.descriptors.map Sdk.Descriptor.sourceFile).Sublist
    (names.map t.root.entry)
  skipped_order : found.skipped.Sublist (names.map t.root.entry)
  descriptors_nodup : (found.descriptors.map Sdk.Descriptor.sourceFile).Nodup
  skipped_nodup : found.skipped.Nodup

section
variable {t : Target} {denylist : List String} {isDirectory : String → Bool} {names : List String}

/-- The paths of the entries that are one thing. -/
def pathsOf (t : Target) (denylist : List String) (isDirectory : String → Bool) (c : Candidate)
    (names : List String) : List Path :=
  (names.filter fun name => classify denylist name (isDirectory name) = c).map t.root.entry

theorem descriptors_select : (t.select denylist (names.map fun name =>
    (name, isDirectory name))).descriptors = (names.filter fun name =>
      classify denylist name (isDirectory name) = .described).map t.descriptor := by
  simp only [Target.select, List.filter_map, List.map_map]
  rfl

theorem skipped_select : (t.select denylist (names.map fun name =>
    (name, isDirectory name))).skipped = pathsOf t denylist isDirectory .skipped names := by
  simp only [Target.select, List.filter_map, List.map_map]
  rfl

theorem sublist_pathsOf {c : Candidate} :
    (pathsOf t denylist isDirectory c names).Sublist (names.map t.root.entry) :=
  (List.filter_sublist ..).map _

theorem IsListing.nodup_entries (h : IsListing names) (root : Path) :
    (names.map root.entry).Nodup :=
  (List.nodup_map_iff_inj_on h.nodup).2 fun name hname name' hname' =>
    Path.entry_injective (h.noSlash name hname) (h.noSlash name' hname')

theorem IsListing.mem_pathsOf_iff (h : IsListing names) {name : String} (hname : name ∈ names)
    {c : Candidate} : t.root.entry name ∈ pathsOf t denylist isDirectory c names ↔
      classify denylist name (isDirectory name) = c := by
  simp only [pathsOf, List.mem_map, List.mem_filter, decide_eq_true_eq]
  constructor
  · rintro ⟨name', ⟨hname', hc⟩, he⟩
    obtain rfl := Path.entry_injective (h.noSlash name' hname') (h.noSlash name hname) he
    exact hc
  · exact fun hc => ⟨name, ⟨hname, hc⟩, rfl⟩

/-- What is selected from a listing are its parts. -/
theorem partition_select (h : IsListing names) : Partition t denylist isDirectory names
    (t.select denylist (names.map fun name => (name, isDirectory name))) := by
  have hdescriptors : (t.select denylist (names.map fun name =>
      (name, isDirectory name))).descriptors.map Sdk.Descriptor.sourceFile =
        pathsOf t denylist isDirectory .described names := by
    rw [descriptors_select, List.map_map]
    rfl
  have hnodup : ∀ c, (pathsOf t denylist isDirectory c names).Nodup := fun c =>
    (h.nodup_entries t.root).sublist sublist_pathsOf
  constructor
  · intro name hname
    refine ⟨_, classify_eq_iff.1 rfl, fun c' hc' => (classify_eq_iff.2 hc').symm, ?_, ?_⟩
    · rw [hdescriptors]
      exact h.mem_pathsOf_iff hname
    · rw [skipped_select]
      exact h.mem_pathsOf_iff hname
  · intro d hd
    rw [descriptors_select] at hd
    obtain ⟨name, hname, rfl⟩ := List.mem_map.1 hd
    exact ⟨name, List.mem_of_mem_filter hname, describes_descriptor t name⟩
  · rw [hdescriptors]
    exact sublist_pathsOf
  · rw [skipped_select]
    exact sublist_pathsOf
  · rw [hdescriptors]
    exact hnodup _
  · rw [skipped_select]
    exact hnodup _

end

/-! ## All kinds -/

/-- What is found in the input directory of a kind, if it is one. -/
def Answers.part (a : Answers) (st : Settings) (k : Sdk.Kind) : Scan :=
  (a.scan st k).toOption.getD {}

theorem Answers.discovery_eq_ok {a : Answers} {st : Settings} {ks : List Sdk.Kind} {found : Scan}
    (h : a.discovery st ks = .ok found) :
    (∀ k ∈ ks, a.scan st k = .ok (a.part st k)) ∧
      found.descriptors = ks.flatMap (fun k => (a.part st k).descriptors) ∧
      found.skipped = ks.flatMap fun k => (a.part st k).skipped := by
  induction ks generalizing found with
  | nil =>
    cases h
    exact ⟨fun _ hk => (nomatch hk), rfl, rfl⟩
  | cons k ks ih =>
    rw [discovery] at h
    cases hk : a.scan st k with
    | error e =>
      rw [hk] at h
      cases h
    | ok first =>
      have hpart : a.part st k = first := by rw [part, hk]; rfl
      rw [hk] at h
      cases hrest : a.discovery st ks with
      | error e =>
        rw [hrest] at h
        cases h
      | ok rest =>
        rw [hrest] at h
        cases h
        obtain ⟨hscans, hdescriptors, hskipped⟩ := ih hrest
        refine ⟨List.forall_mem_cons.2 ⟨hpart ▸ hk, hscans⟩, ?_, ?_⟩
        · rw [List.flatMap_cons, hpart, ← hdescriptors]
        · rw [List.flatMap_cons, hpart, ← hskipped]

section
variable {σ φ : Type} [Host (StateM σ)] {files : σ → φ} {answers : φ → Answers} {s : σ}

/-- A report counts what was found. -/
theorem run_report (hq : Quiet files answers) {p : Plan} {report : Report}
    (h : ((run p : StateM σ _).run s).1 = .ok report) :
    ∃ found, ((discover p.settings : StateM σ _).run s).1 = .ok found ∧
      report.discovered = found.descriptors.length ∧ report.skipped = found.skipped.length := by
  obtain ⟨found, s₁, s₂, hfound, -, hdiscovered, hskipped⟩ := run_eq_ok h
  have hfiles := (hq.clock (files s) s rfl).1
  have hsame := (keeps_discover hq p.settings _ hfiles).2.trans
    (keeps_discover hq p.settings s rfl).2.symm
  rw [hfound] at hsame
  exact ⟨found, hsame.symm, hdiscovered, hskipped⟩

/-- **A scan tells the entries of a directory apart.** On every system that leaves files alone when
    it is asked, each entry of a listing is a directory, or denied by its exact name, or skipped, or
    described, and one of these only. It is described if it is neither of the first two and the part
    of its name before the first point is an identifier and no keyword. What is described and what
    is skipped is found in the order of the listing, without repetition. What is found of all kinds
    is what is found of each, one behind the other, and a report counts all that was skipped. -/
theorem scan_partition (hq : Quiet files answers) (s : σ) :
    let a := answers (files s)
    (∀ t denylist names, a.names? t.root = some names → IsListing names →
      ∃ found, ((scan t denylist : StateM σ _).run s).1 = .ok found ∧
        Partition t denylist (fun name => a.isDirectory (t.root.entry name)) names found) ∧
    (∀ st found, ((discover st : StateM σ _).run s).1 = .ok found → ∃ part : Sdk.Kind → Scan,
      (∀ k, ((scan (target st k) st.denylist : StateM σ _).run s).1 = .ok (part k)) ∧
      found.descriptors =
        (part .object).descriptors ++ (part .fields).descriptors ++ (part .values).descriptors ∧
      found.skipped = (part .object).skipped ++ (part .fields).skipped ++ (part .values).skipped) ∧
    ∀ p report, ((run p : StateM σ _).run s).1 = .ok report → ∃ part : Sdk.Kind → Scan,
      (∀ k, ((scan (target p.settings k) p.settings.denylist : StateM σ _).run s).1 =
        .ok (part k)) ∧
      report.discovered = (part .object).descriptors.length + (part .fields).descriptors.length +
        (part .values).descriptors.length ∧
      report.skipped = (part .object).skipped.length + (part .fields).skipped.length +
        (part .values).skipped.length := by
  intro a
  have hdiscover : ∀ st found, ((discover st : StateM σ _).run s).1 = .ok found →
      ∃ part : Sdk.Kind → Scan,
        (∀ k, ((scan (target st k) st.denylist : StateM σ _).run s).1 = .ok (part k)) ∧
        found.descriptors =
          (part .object).descriptors ++ (part .fields).descriptors ++ (part .values).descriptors ∧
        found.skipped =
          (part .object).skipped ++ (part .fields).skipped ++ (part .values).skipped := by
    intro st found h
    obtain ⟨hscans, hdescriptors, hskipped⟩ := Answers.discovery_eq_ok
      ((keeps_discover hq st s rfl).2.symm.trans h)
    refine ⟨a.part st, fun k => ?_, ?_, ?_⟩
    · exact (keeps_scan hq (target st k) st.denylist s rfl).2.trans (hscans k (Sdk.Kind.mem_all k))
    · simpa [Sdk.Kind.all] using hdescriptors
    · simpa [Sdk.Kind.all] using hskipped
  refine ⟨fun t denylist names hnames hlisting => ?_, hdiscover, fun p report h => ?_⟩
  · have hscan := (keeps_scan hq t denylist s rfl).2
    rw [hnames] at hscan
    exact ⟨_, hscan, partition_select hlisting⟩
  · obtain ⟨found, hfound, hdiscovered, hskipped⟩ := run_report hq h
    obtain ⟨part, hscans, hdescriptors, hparts⟩ := hdiscover p.settings found hfound
    refine ⟨part, hscans, ?_, ?_⟩
    · rw [hdiscovered, hdescriptors, List.length_append, List.length_append]
    · rw [hskipped, hparts, List.length_append, List.length_append]

end

/-- Settings that deny a file -/
def denyingSettings : Settings := { smallPlan.settings with denylist := ["Old.php"] }

/-- A machine with a directory, that file, one with the name of a keyword and one of a class -/
def mixedSdk : Machine where
  disk := ⟨[(["sdk"], .directory), (["sdk", "o"], .directory), (["sdk", "f"], .directory),
    (["sdk", "v"], .directory), (["sdk", "o", "Sub.php"], .directory),
    (["sdk", "o", "Old.php"], .file (.text "")), (["sdk", "o", "class.php"], .file (.text "")),
    (["sdk", "o", "Ad.Creative.php"], .file (.text ""))]⟩
  base := []
  time := ⟨2020, 1, 1, 0, 0, 0⟩

theorem scan_partition_mixedSdk :
    let names := ["Sub.php", "Old.php", "class.php", "Ad.Creative.php"]
    let objects := target denyingSettings .object
    let found : Scan := ⟨[objects.descriptor "Ad.Creative.php"], [⟨"sdk/o/class.php"⟩]⟩
    IsListing names ∧
      ((scan objects ["Old.php"] : StateM Machine _).run mixedSdk).1 = .ok found ∧
      Partition objects ["Old.php"]
        (fun name => mixedSdk.disk.isDirectory mixedSdk.base (objects.root.entry name)) names
        found ∧
      ∃ part : Sdk.Kind → Scan,
        (∀ k, ((scan (target denyingSettings k) ["Old.php"] : StateM Machine _).run mixedSdk).1 =
          .ok (part k)) ∧
        found.descriptors = (part .object).descriptors ++ (part .fields).descriptors ++
          (part .values).descriptors := by
  intro names objects found
  have hlisting : IsListing names := ⟨by decide, by decide⟩
  have hscan : ((scan objects ["Old.php"] : StateM Machine _).run mixedSdk).1 = .ok found := by
    decide +kernel
  have hdiscover : ((discover denyingSettings : StateM Machine _).run mixedSdk).1 = .ok found := by
    decide +kernel
  have hnames : (diskAnswers mixedSdk.disk mixedSdk.base).names? objects.root = some names := by
    decide +kernel
  obtain ⟨hparts, hall, -⟩ := scan_partition quiet_machine mixedSdk
  obtain ⟨found', hfound', hpartition⟩ := hparts objects ["Old.php"] names hnames hlisting
  obtain rfl : found = found' := Except.ok.inj (hscan.symm.trans hfound')
  obtain ⟨part, hscans, hdescriptors, -⟩ := hall denyingSettings found hdiscover
  exact ⟨hlisting, hscan, hpartition, part, hscans, hdescriptors⟩

end PhpSharp.Conversion
