/-
  What a scan finds is on the disk, and the disk is as before.

  * `Found st d base c`: the class `c` stands for a file in the input directory of its kind;
  * `scanAll_run`: every class that is found is one of these, and all input directories are there.
-/
import Mathlib.Tactic.SplitIfs
import PhpSharp.Conversion.Scan
import PhpSharp.Proofs.Files.Replace

namespace PhpSharp.Files

variable {d : Disk} {l base : Location} {p : Path} {names : List String}

theorem Disk.list_eq_ok (h : d.list base p = .ok names) : names = d.children (p.location base) := by
  unfold Disk.list stat at h
  cases hl : d.locate base p with
  | error e =>
    rw [hl] at h
    cases h
  | ok l =>
    obtain ⟨-, -, -, rfl⟩ := locate_eq_ok.1 hl
    simp only [hl] at h
    cases hg : d.get? (p.location base) with
    | none =>
      rw [hg] at h
      cases h
    | some node =>
      rw [hg] at h
      cases node with
      | directory =>
        cases h
        rfl
      | file c => cases hs : p.endsWithSlash <;> rw [hs] at h <;> cases h

/-- The children of a directory are on the disk. -/
theorem Disk.get?_of_mem_children {name : String} (h : name ∈ d.children l) :
    d.get? (l ++ [name]) ≠ none := by
  obtain ⟨⟨k, node⟩, hmem, hname⟩ := List.mem_filterMap.1 h
  have hk : k = l ++ [name] := by
    dsimp only at hname
    cases hlast : k.getLast? with
    | none =>
      rw [hlast] at hname
      cases hname
    | some last =>
      simp only [hlast, Option.ite_none_right_eq_some, Option.some.injEq] at hname
      obtain ⟨rfl, rfl⟩ := hname
      exact (List.dropLast_append_getLast? last hlast).symm
  rw [Disk.get?, if_neg (by simp), ← hk]
  intro hnone
  have := List.lookup_eq_none_iff.1 hnone (k, node) hmem
  simp at this

end PhpSharp.Files

namespace PhpSharp.Conversion

open Files (Machine Host Disk Location bind_run forM_log_run mapM_run)
open Files.Disk (Reaches)

/-- **A class that was found:** a file in the input directory of its kind stands for it. -/
structure Found (st : Settings) (disk : Disk) (base : Location) (c : Sdk.Descriptor) : Prop where
  file : ∃ name, c = (target st c.kind).descriptor name ∧
    disk.get? ((st.inputDirectory c.kind).location base ++ [name]) ≠ none
  name : Sdk.isClassName c.shortName = true

section
variable {s s' : Machine} {st : Settings} {found : Scan}

/-- A scan asks for the entries of a directory that is there. -/
theorem scan_run {t : Target} {denylist : List String}
    (h : (scan t denylist : StateM Machine _).run s = (.ok found, s')) :
    (∃ es, s' = s.logged es) ∧ s.disk.isDirectory s.base t.root = true ∧
      ∃ entries : List (String × Bool), found = t.select denylist entries ∧
        ∀ e ∈ entries, e.1 ∈ s.disk.children (t.root.location s.base) := by
  have hasked : (Host.isDirectory t.root : StateM Machine Bool).run s =
    (s.disk.isDirectory s.base t.root, s) := rfl
  have hlist : (Host.list t.root : StateM Machine _).run s = (s.disk.list s.base t.root, s) := rfl
  rw [scan, bind_run hasked] at h
  by_cases hdir : s.disk.isDirectory s.base t.root = true
  · rw [if_pos hdir, bind_run hlist] at h
    cases hnames : s.disk.list s.base t.root with
    | error e =>
      rw [hnames] at h
      cases h
    | ok names =>
      rw [hnames] at h
      have hmarked : (markDirectories t.root names : StateM Machine _).run s =
          (names.map fun name => (name, s.disk.isDirectory s.base (t.root.entry name)), s) := by
        refine mapM_run (fun name => ?_) names
        rfl
      replace h := (bind_run hmarked).symm.trans h
      generalize hentries : (names.map fun name => _) = entries at h
      replace h := (bind_run (forM_log_run s _ _)).symm.trans h
      obtain ⟨hfound, hs⟩ := Prod.mk.inj h
      obtain rfl := Except.ok.inj hfound
      subst hs
      refine ⟨⟨_, rfl⟩, hdir, entries, rfl, fun e he => ?_⟩
      rw [← hentries] at he
      obtain ⟨name, hname, rfl⟩ := List.mem_map.1 he
      rwa [← Disk.list_eq_ok hnames]
  · rw [if_neg hdir] at h
    cases h

theorem isClassName_of_classify {denylist : List String} {name : String} {isDirectory : Bool}
    (h : classify denylist name isDirectory = .described) :
    Sdk.isClassName (Sdk.shortName name) = true := by
  unfold classify at h
  split_ifs at h
  assumption

/-- What is selected stands for a child of the directory. -/
theorem found_of_select {k : Sdk.Kind} {denylist : List String} {entries : List (String × Bool)}
    {disk : Disk} {base : Location}
    (he : ∀ e ∈ entries, e.1 ∈ disk.children ((st.inputDirectory k).location base)) :
    ∀ c ∈ ((target st k).select denylist entries).descriptors, Found st disk base c := by
  intro c hc
  obtain ⟨⟨name, isDirectory⟩, hmem, rfl⟩ := List.mem_map.1 hc
  obtain ⟨hentry, hclass⟩ := List.mem_filter.1 hmem
  exact ⟨⟨name, rfl, Disk.get?_of_mem_children (he _ hentry)⟩,
    isClassName_of_classify (of_decide_eq_true hclass)⟩

/-- **A scan of all kinds** changes nothing on the disk, and what it finds is there. -/
theorem scanAll_run {ks : List Sdk.Kind}
    (h : (scanAll st ks : StateM Machine _).run s = (.ok found, s')) :
    (∃ es, s' = s.logged es) ∧
      (∀ k ∈ ks, s.disk.isDirectory s.base (st.inputDirectory k) = true) ∧
      ∀ c ∈ found.descriptors, Found st s.disk s.base c := by
  induction ks generalizing s s' found with
  | nil =>
    cases h
    exact ⟨⟨[], (Machine.logged_nil s).symm⟩, by simp, by simp⟩
  | cons k ks ih =>
    rw [scanAll] at h
    cases hfirst : (scan (target st k) st.denylist : StateM Machine _).run s with
    | mk first s₁ =>
      rw [bind_run hfirst] at h
      cases first with
      | error e => cases h
      | ok first =>
        obtain ⟨⟨es, rfl⟩, hdir, entries, rfl, hentries⟩ := scan_run hfirst
        simp only at h
        cases hrest : (scanAll st ks : StateM Machine _).run (s.logged es) with
        | mk rest s₂ =>
          rw [bind_run hrest] at h
          cases rest with
          | error e => cases h
          | ok rest =>
            cases h
            obtain ⟨⟨es', rfl⟩, hdirs, hfound⟩ := ih hrest
            refine ⟨⟨es ++ es', Machine.logged_logged ..⟩, ?_, ?_⟩
            · rw [List.forall_mem_cons]
              exact ⟨hdir, hdirs⟩
            · intro c hc
              rcases List.mem_append.1 hc with hc | hc
              · exact found_of_select hentries c hc
              · exact hfound c hc

end

end PhpSharp.Conversion
