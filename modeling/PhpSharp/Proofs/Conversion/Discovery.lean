/-
  What is found in the input directories, on any system that leaves files alone when it is asked.

  * `Answers` is what a system says of its directories, and `Answers.discovery` what is found by
    that; it fails exactly at the first directory that cannot be listed
    (`Answers.discovery_eq_error_iff`);
  * `Quiet files answers`: questions, the log and the clock leave the files as they are, and
    questions are answered from the files. A machine is such a system (`quiet_machine`);
  * `keeps_discover`: so a scan finds what the answers say, and changes no file.
-/
import PhpSharp.Proofs.Conversion.Scan
import PhpSharp.Proofs.Files.Keeps

namespace PhpSharp.Conversion

open Files (Host Keeps OsError Machine Disk Location)

/-! ## Answers -/

/-- What a system says of its directories. -/
structure Answers where
  isDirectory : Path → Bool
  list : Path → Except OsError (List String)

namespace Answers

variable (a : Answers) (st : Settings)

/-- The names in a directory, if it is one and can be listed. -/
def names? (p : Path) : Option (List String) :=
  if a.isDirectory p then (a.list p).toOption else none

/-- Whether a path is that of a directory that can be listed. -/
def isListable (p : Path) : Bool := (a.names? p).isSome

/-- Names, each with whether it is that of a directory. -/
def marked (root : Path) (names : List String) : List (String × Bool) :=
  names.map fun name => (name, a.isDirectory (root.entry name))

/-- What is found in the input directory of a kind. -/
def scan (k : Sdk.Kind) : Except Error Scan :=
  match a.names? (st.inputDirectory k) with
  | none => .error (.directoryNotFound k (st.inputDirectory k))
  | some names => .ok ((target st k).select st.denylist (a.marked (st.inputDirectory k) names))

/-- What is found in the input directories of some kinds. -/
def discovery : List Sdk.Kind → Except Error Scan
  | [] => .ok {}
  | k :: ks =>
    match a.scan st k with
    | .error e => .error e
    | .ok found => (discovery ks).map fun rest =>
      ⟨found.descriptors ++ rest.descriptors, found.skipped ++ rest.skipped⟩

variable {a st} {k : Sdk.Kind} {e : Error}

theorem scan_of_not_isListable (h : a.isListable (st.inputDirectory k) = false) :
    a.scan st k = .error (.directoryNotFound k (st.inputDirectory k)) := by
  rw [isListable, Option.isSome_eq_false_iff, Option.isNone_iff_eq_none] at h
  rw [scan, h]

theorem scan_of_isListable (h : a.isListable (st.inputDirectory k) = true) :
    ∃ found, a.scan st k = .ok found := by
  obtain ⟨names, hnames⟩ := Option.isSome_iff_exists.1 h
  rw [scan, hnames]
  exact ⟨_, rfl⟩

/-- **A discovery fails** at the first directory that cannot be listed, and at no other. -/
theorem discovery_eq_error_iff {ks : List Sdk.Kind} :
    a.discovery st ks = .error e ↔
      ∃ k, ks.find? (fun k => !a.isListable (st.inputDirectory k)) = some k ∧
        e = .directoryNotFound k (st.inputDirectory k) := by
  induction ks with
  | nil => simp [discovery]
  | cons k ks ih =>
    rw [discovery, List.find?_cons]
    cases hk : a.isListable (st.inputDirectory k) with
    | false =>
      rw [scan_of_not_isListable hk]
      simp [eq_comm]
    | true =>
      obtain ⟨found, hfound⟩ := scan_of_isListable hk
      simp only [hfound, Bool.not_true, ← ih]
      cases a.discovery st ks <;> simp [Except.map]

theorem discovery_congr {a' : Answers} {ks : List Sdk.Kind}
    (h : ∀ k ∈ ks, a.scan st k = a'.scan st k) : a.discovery st ks = a'.discovery st ks := by
  induction ks with
  | nil => rfl
  | cons k ks ih =>
    obtain ⟨hfirst, hrest⟩ := List.forall_mem_cons.1 h
    rw [discovery, discovery, hfirst, ih hrest]

end Answers

/-! ## Systems -/

/-- **A system that leaves files alone when it is asked,** and answers from the files. -/
structure Quiet {σ φ : Type} [Host (StateM σ)] (files : σ → φ) (answers : φ → Answers) :
    Prop where
  isDirectory : ∀ f p,
    Keeps (files · = f) (Host.isDirectory p : StateM σ Bool) (· = (answers f).isDirectory p)
  list : ∀ f p, Keeps (files · = f) (Host.list p : StateM σ _) (· = (answers f).list p)
  log : ∀ f e, Keeps (files · = f) (Host.log e : StateM σ Unit) fun _ => True
  clock : ∀ f, Keeps (files · = f) (Host.clock : StateM σ Nat) fun _ => True

/-- What a disk says of its directories. -/
def diskAnswers (d : Disk) (base : Location) : Answers := ⟨d.isDirectory base, d.list base⟩

/-- The names in a directory of a disk are those of its children. -/
theorem names?_diskAnswers (d : Disk) (base : Location) (p : Path) :
    (diskAnswers d base).names? p =
      if d.isDirectory base p then some (d.children (p.location base)) else none := by
  have hlist : d.isDirectory base p = true → ∃ names, d.list base p = .ok names := by
    intro h
    unfold Disk.isDirectory at h
    split at h
    · rename_i l hstat
      exact ⟨d.children l, by rw [Disk.list, hstat]⟩
    · cases h
  show (if d.isDirectory base p then (d.list base p).toOption else none) = _
  by_cases h : d.isDirectory base p = true
  · obtain ⟨names, hnames⟩ := hlist h
    rw [if_pos h, if_pos h, hnames, Disk.list_eq_ok hnames]
    rfl
  · rw [if_neg h, if_neg h]

/-- A machine is a quiet system. -/
theorem quiet_machine :
    Quiet (fun s : Machine => (s.disk, s.base)) fun f => diskAnswers f.1 f.2 where
  isDirectory := by
    rintro _ p s rfl
    exact ⟨rfl, rfl⟩
  list := by
    rintro _ p s rfl
    exact ⟨rfl, rfl⟩
  log _ _ _ h := ⟨h, trivial⟩
  clock _ _ h := ⟨h, trivial⟩

section
variable {σ φ : Type} [Host (StateM σ)] {files : σ → φ} {answers : φ → Answers} {f : φ}

theorem keeps_markDirectories (hq : Quiet files answers) (root : Path) (names : List String) :
    Keeps (files · = f) (markDirectories root names : StateM σ _)
      (· = (answers f).marked root names) :=
  Keeps.mapM (fun name => (hq.isDirectory f (root.entry name)).bind fun _ h => .pure (by rw [h]))
    names

/-- What is found in a directory is what the answers say. -/
theorem keeps_scan (hq : Quiet files answers) (t : Target) (denylist : List String) :
    Keeps (files · = f) (scan t denylist : StateM σ _)
      (· = match (answers f).names? t.root with
        | none => .error (.directoryNotFound t.kind t.root)
        | some names => .ok (t.select denylist ((answers f).marked t.root names))) := by
  refine (hq.isDirectory f t.root).bind fun isThere hthere => ?_
  rw [Answers.names?, ← hthere]
  cases isThere with
  | false => exact .pure rfl
  | true =>
    refine (hq.list f t.root).bind fun listing hlisting => ?_
    rw [← hlisting]
    cases listing with
    | error e => exact .pure rfl
    | ok names =>
      refine (keeps_markDirectories hq _ names).bind fun entries hentries => ?_
      refine (Keeps.forM (fun e => hq.log f _) _).bind fun _ _ => .pure ?_
      rw [hentries]
      rfl

theorem keeps_scanAll (hq : Quiet files answers) (st : Settings) (ks : List Sdk.Kind) :
    Keeps (files · = f) (scanAll st ks : StateM σ _) (· = (answers f).discovery st ks) := by
  induction ks with
  | nil => exact .pure rfl
  | cons k ks ih =>
    refine (keeps_scan hq (target st k) st.denylist).bind fun first hscan => ?_
    have hfirst : first = (answers f).scan st k := hscan
    rw [Answers.discovery, ← hfirst]
    cases first with
    | error e => exact .pure rfl
    | ok found =>
      refine ih.bind fun rest hrest => ?_
      rw [← hrest]
      cases rest <;> exact .pure rfl

/-- **What is found** is what the answers say, and no file is changed. -/
theorem keeps_discover (hq : Quiet files answers) (st : Settings) :
    Keeps (files · = f) (discover st : StateM σ _) (· = (answers f).discovery st Sdk.Kind.all) :=
  keeps_scanAll hq st Sdk.Kind.all

/-- What is found on a machine is what its disk says. -/
theorem discover_eq (s : Machine) (st : Settings) :
    ((discover st : StateM Machine _).run s).1 =
      (diskAnswers s.disk s.base).discovery st Sdk.Kind.all :=
  (keeps_discover quiet_machine st s rfl).2

end

end PhpSharp.Conversion
