/-
  Replacing a file on a machine that refuses calls by their place.

  * `createDirectories_run`: making directories is `Disk.makeAlong`;
  * `Reaches`: a path leads to a directory that is there;
  * `replaceFile_run`: a file is replaced by way of a temporary one in such a directory. What comes
    of it (`Machine.replaceAnswer`) depends on what is refused there and on the way to the file;
    the temporary file leaves no trace, and everything else is as before.
-/
import Mathlib.Data.List.Nodup
import PhpSharp.Proofs.Files.Machine

namespace PhpSharp.Files

/-! ## Making directories -/

section
variable {s : Machine} (h : ∀ p : Path, s.refuses (.makeDirectory p) = s.closed (p.location s.base))
include h

theorem makeDirectory_run (p : Path) :
    (Host.makeDirectory p : StateM Machine (Except OsError Unit)).run s =
      match s.disk.makeUnlessClosed s.closed s.base p with
      | .ok d => (.ok (), s.withDisk d)
      | .error e => (.error e, s) := by
  refine (change_run s (.makeDirectory p) _).trans ?_
  rw [h, Disk.makeUnlessClosed]
  cases s.closed (p.location s.base) <;> rfl

omit h in
theorem unlessDirectory_run (p : Path) (e : OsError) :
    (unlessDirectory p e : StateM Machine (Except OsError Unit)).run s =
      (if s.disk.isDirectory s.base p then .ok () else .error e, s) := by
  show (if s.disk.isDirectory s.base p = true then pure (.ok ()) else pure (.error e) :
    StateM Machine (Except OsError Unit)).run s = _
  split <;> rfl

/-- Making a directory or keeping it, as `createAlong` does in the end. -/
theorem makeOrKeep_run (p : Path) :
    ((Host.makeDirectory p >>= fun
        | .ok () => pure (.ok ())
        | .error e => unlessDirectory p e : StateM Machine (Except OsError Unit))).run s =
      ((s.disk.makeOrKeep s.closed s.base p).1,
        s.withDisk (s.disk.makeOrKeep s.closed s.base p).2) := by
  rw [StateT.run_bind, makeDirectory_run h, Disk.makeOrKeep]
  cases s.disk.makeUnlessClosed s.closed s.base p with
  | ok d => rfl
  | error e => exact unlessDirectory_run p e

/-- **What making a directory does** to the disk is `Disk.makeAlong`. -/
theorem createAlong_run (ps : List Path) :
    (createAlong ps : StateM Machine (Except OsError Unit)).run s =
      ((s.disk.makeAlong s.closed s.base ps).1,
        s.withDisk (s.disk.makeAlong s.closed s.base ps).2) := by
  induction ps with
  | nil => rfl
  | cons p ps ih =>
    rw [createAlong]
    by_cases ht : p.text = ""
    · rw [if_pos ht, Disk.makeAlong_of_empty ht]
      rfl
    · rw [if_neg ht, StateT.run_bind, makeDirectory_run h]
      cases hd : s.disk.makeUnlessClosed s.closed s.base p with
      | ok d =>
        rw [Disk.makeAlong_of_found ht (by rw [hd]; exact fun he => nomatch he), Disk.makeOrKeep,
          hd]
        rfl
      | error e =>
        by_cases he : e = .notFound
        · subst he
          rw [Disk.makeAlong_of_missing ht hd]
          refine (StateT.run_bind ..).trans ?_
          rw [ih]
          rcases s.disk.makeAlong s.closed s.base ps with ⟨_ | _, d⟩
          · rfl
          · exact makeOrKeep_run (s := s.withDisk d) h p
        · rw [Disk.makeAlong_of_found ht (by rw [hd]; simpa using he), Disk.makeOrKeep, hd]
          have hunless := unlessDirectory_run (s := s) p e
          cases e <;> first | exact absurd rfl he | exact hunless

/-- What comes of making a directory, and the disk then. -/
def Machine.make (s : Machine) (p : Path) : Except OsError Unit × Disk :=
  s.disk.makeAlong s.closed s.base (p :: p.parents)

theorem createDirectories_run (p : Path) :
    (createDirectories p : StateM Machine (Except OsError Unit)).run s =
      ((s.make p).1, s.withDisk (s.make p).2) := by
  unfold Machine.make
  exact createAlong_run h _

end

/-! ## Temporary files -/

theorem temporaryName_toList (n : Nat) :
    (Machine.temporaryName n).toList = '.' :: 't' :: 'm' :: 'p' :: List.replicate n '0' := by
  simp only [Machine.temporaryName, String.toList_append, String.toList_ofList]
  rfl

theorem temporaryName_injective : Function.Injective Machine.temporaryName := by
  intro m n h
  have hlists := congrArg String.toList h
  rw [temporaryName_toList, temporaryName_toList] at hlists
  have hlength := congrArg List.length hlists
  simpa using hlength

theorem isEntry_temporaryName (n : Nat) : Disk.IsEntry (Machine.temporaryName n) := by
  have hne : ∀ name : String, name.toList.length < 4 → Machine.temporaryName n ≠ name := by
    rintro name hlength rfl
    rw [temporaryName_toList] at hlength
    simp only [List.length_cons] at hlength
    omega
  refine ⟨hne _ (by decide), ?_, hne _ (by decide), hne _ (by decide)⟩
  rw [temporaryName_toList]
  simp

namespace Disk

variable {d : Disk} {l base : Location} {p directory : Path}

/-- What is in a directory is among its children. -/
theorem mem_children {name : String} (h : d.get? (l ++ [name]) ≠ none) : name ∈ d.children l := by
  have hlookup : d.entries.lookup (l ++ [name]) ≠ none := by
    rwa [get?, if_neg (by simp)] at h
  obtain ⟨node, hnode⟩ := Option.ne_none_iff_exists'.1 hlookup
  exact List.mem_filterMap.2 ⟨_, mem_of_lookup hnode, by simp⟩

/-- Nothing has the fresh name, which is one of those for temporary files. -/
theorem freshName_spec (d : Disk) (l : Location) :
    ∃ n, Machine.freshName d l = Machine.temporaryName n ∧
      d.get? (l ++ [Machine.freshName d l]) = none := by
  have hfree : ∃ n, Machine.freshName d l = Machine.temporaryName n ∧
      Machine.temporaryName n ∉ d.children l := by
    have hname : Machine.freshName d l = Machine.temporaryName
        (((List.range ((d.children l).length + 1)).find? fun n =>
          !(d.children l).contains (Machine.temporaryName n)).getD (d.children l).length) := rfl
    rw [hname]
    cases hfind : (List.range ((d.children l).length + 1)).find? fun n =>
        !(d.children l).contains (Machine.temporaryName n) with
    | some n =>
      refine ⟨n, rfl, ?_⟩
      have := List.find?_some hfind
      simpa using this
    | none =>
      -- there are more names than children
      have hall : (List.range ((d.children l).length + 1)).map Machine.temporaryName ⊆
          d.children l := by
        intro name hname
        obtain ⟨n, hn, rfl⟩ := List.mem_map.1 hname
        have := List.find?_eq_none.1 hfind n hn
        simpa using this
      have hnodup := (@List.nodup_range ((d.children l).length + 1)).map temporaryName_injective
      have hlength := hnodup.length_le_of_subset hall
      rw [List.length_map, List.length_range] at hlength
      omega
  obtain ⟨n, hname, hnot⟩ := hfree
  refine ⟨n, hname, ?_⟩
  rw [hname]
  by_contra hne
  exact hnot (mem_children hne)

/-- **A path leads to a directory that is there.** -/
structure Reaches (d : Disk) (base : Location) (p : Path) : Prop where
  fits : ∀ n ∈ p.names, Fits n
  way : ∀ l ∈ p.way base, d.HasDirectory l

theorem Reaches.of_isDirectory (h : d.isDirectory base p = true) : Reaches d base p :=
  ⟨(isDirectory_iff.1 h).2.1, (isDirectory_iff.1 h).2.2⟩

theorem Reaches.mono {d' : Disk} (hr : Reaches d base p)
    (h : ∀ {l}, d.HasDirectory l → d'.HasDirectory l) : Reaches d' base p :=
  ⟨hr.fits, fun l hl => h (hr.way l hl)⟩

/-- A path leads to the directory that was made. -/
theorem reaches_of_makeAlong {closed : Location → Option OsError} (hb : d.HasDirectory base)
    {ps : List Path} (h : (d.makeAlong closed base (p :: ps)).1 = .ok ()) :
    Reaches (d.makeAlong closed base (p :: ps)).2 base p := by
  refine ⟨?_, makeAlong_way hb h⟩
  by_cases ht : p.text = ""
  · rw [Path.names_of_text_eq ht]
    exact fun n hn => nomatch hn
  · exact (makeAlong_text ht h).2

theorem Based.mono {d' : Disk} (hb : Based d base)
    (h : ∀ l, d.HasDirectory l → d'.HasDirectory l) : Based d' base :=
  ⟨fun hl => h _ (hb.directory hl), hb.name⟩

/-- The path to a location has its names. -/
theorem names_pathOf (h : ∀ n ∈ l, IsEntry n) : (Machine.pathOf l).names = l := by
  have hlead : Path.Leads ['/'] (l.map String.toList) := by
    refine ⟨.inl rfl, fun segment hs => ?_⟩
    obtain ⟨n, hn, rfl⟩ := List.mem_map.1 hs
    exact (h n hn).noSlash
  have hpath : Machine.pathOf l = Path.ofSegments ['/'] (l.map String.toList) := by
    rw [Machine.pathOf, Path.ofSegments]
    congr 1
    rw [← String.toList_inj]
    simp
  have hwords : Path.wordsOf (l.map String.toList) = l := by
    have hall : (l.map String.toList).filter (· ≠ []) = l.map String.toList := by
      refine List.filter_eq_self.2 (fun segment hs => ?_)
      obtain ⟨n, hn, rfl⟩ := List.mem_map.1 hs
      have hne := (h n hn).ne_empty
      simpa using hne
    rw [Path.wordsOf, hall, List.map_map]
    refine (List.map_congr_left (fun n _ => ?_)).trans (List.map_id l)
    exact String.ofList_toList
  rw [hpath, Path.names_ofSegments hlead, hwords]
  rfl

theorem isAbsolute_pathOf (l : Location) : (Machine.pathOf l).isAbsolute = true := by
  rw [Path.isAbsolute, Machine.pathOf, String.toList_append]
  rfl

/-- The path to a location leads there. -/
theorem location_pathOf (h : ∀ n ∈ l, IsEntry n) : (Machine.pathOf l).location base = l := by
  rw [Path.location, Path.start, isAbsolute_pathOf, if_pos rfl, names_pathOf h,
    place_straight fun n hn => ⟨(h n hn).ne_dot, (h n hn).ne_dots⟩, List.nil_append]

/-- Where a path leads that starts from a working directory, all names are in order. -/
theorem Based.location_names (hb : Based d base) : ∀ n ∈ p.location base, IsEntry n := by
  intro n hn
  rcases mem_place hn with hn | ⟨hn, hdot, hdots⟩
  · unfold Path.start at hn
    split at hn
    · cases hn
    · exact (hb.name n hn).toIsEntry
  · obtain ⟨hne, hslash⟩ := Path.of_mem_names hn
    exact ⟨hne, hslash, hdot, hdots⟩

theorem Based.dots (hb : Based d base) : ∀ n ∈ base, n ≠ "." ∧ n ≠ ".." := fun n hn =>
  ⟨(hb.name n hn).ne_dot, (hb.name n hn).ne_dots⟩

/-- A relative path that is put behind the working directory starts there. -/
theorem Based.join_pathOf (hb : Based d base) (ha : p.isAbsolute = false) :
    ((Machine.pathOf base).join p).names = base ++ p.names ∧
      ((Machine.pathOf base).join p).start base = [] ∧ place [] base = p.start base := by
  refine ⟨?_, ?_, ?_⟩
  · rw [Path.names_join ha, names_pathOf]
    exact fun n hn => (hb.name n hn).toIsEntry
  · rw [Path.start, Path.isAbsolute_join ha, isAbsolute_pathOf, if_pos rfl]
  · rw [place_straight hb.dots, List.nil_append, Path.start, ha, if_neg Bool.false_ne_true]

/-- A path leads to the same place when it starts from the root. -/
theorem Based.location_fromRoot (hb : Based d base) (p : Path) :
    ((Machine.pathOf base).join p).location base = p.location base := by
  cases ha : p.isAbsolute with
  | true => rw [Path.join, if_pos ha]
  | false =>
    obtain ⟨hnames, hstart, hbase⟩ := hb.join_pathOf ha
    rw [Path.location, Path.location, hstart, hnames, place_append, hbase]

/-- A path is the same when it starts from the root. -/
theorem Reaches.fromRoot (hb : Based d base) (h : Reaches d base p) :
    Reaches d base ((Machine.pathOf base).join p) ∧
      ((Machine.pathOf base).join p).location base = p.location base := by
  refine ⟨?_, hb.location_fromRoot p⟩
  cases ha : p.isAbsolute with
  | true =>
    have hsame : (Machine.pathOf base).join p = p := by rw [Path.join, if_pos ha]
    rwa [hsame]
  | false =>
    obtain ⟨hnames, hstart, hbase⟩ := hb.join_pathOf ha
    refine ⟨?_, ?_⟩
    · intro n hn
      rw [hnames] at hn
      rcases List.mem_append.1 hn with hn | hn
      · exact (hb.name n hn).fits
      · exact h.fits n hn
    · intro x hx
      rw [Path.mem_way, hb.location_fromRoot p, Path.trail, hstart, hnames, trail_append, hbase,
        List.mem_append] at hx
      rcases hx with (hx | hx) | rfl
      · obtain ⟨below, hbelow, rfl⟩ := trail_straight hb.dots x hx
        exact hb.directory hbelow
      · exact h.way x (Path.mem_way.2 (.inl hx))
      · exact h.way _ Path.location_mem_way

/-- An entry of a directory that is there is found, whether something has the name or not. -/
theorem Reaches.locate_entry (h : Reaches d base p) {name : String} (hn : IsEntry name) :
    d.locate base (p.entry name) = match (p.entry name).textFault? with
      | some e => .error e
      | none =>
        if name.utf8ByteSize ≤ maxName then .ok (p.location base ++ [name])
        else .error .nameTooLong := by
  rw [locate_eq]
  cases (p.entry name).textFault? with
  | some e => rfl
  | none =>
    have hdir : d.HasDirectory (p.location base) := h.way _ Path.location_mem_way
    have hnames : (p.entry name).names = p.names ++ name :: [] :=
      Path.names_entry hn.noSlash hn.ne_empty
    have hstart : (p.entry name).start base = p.start base := by
      rw [Path.start, Path.start, Path.isAbsolute_entry hn.noSlash]
    have hdown : d.descend ((p.entry name).start base) (p.entry name).names =
        d.descend (p.location base) [name] := by
      rw [hnames, hstart]
      exact descend_append (fun x hx => h.way x (Path.mem_way.2 (.inl hx))) h.fits
    simp only [hdown]
    by_cases hsize : name.utf8ByteSize ≤ maxName
    · rw [if_pos hsize, descend_cons_directory hdir (.inr (.inr hsize)),
        onward_of_ne hn.ne_dot hn.ne_dots]
      rfl
    · rw [if_neg hsize]
      refine descend_cons_tooLong hdir (fun hfits => ?_)
      rcases hfits with hf | hf | hf
      · exact hn.ne_dot hf
      · exact hn.ne_dots hf
      · exact hsize hf

/-- The path that a temporary file in a directory is checked with. -/
def temporaryPath (base : Location) (directory : Path) : Path :=
  ((Machine.pathOf base).join directory).entry (Machine.temporaryName 6)

/-- A temporary file is made in a directory that is there, unless its path is at fault. -/
theorem Reaches.createTemporary (hb : Based d base) (h : Reaches d base directory) :
    Machine.createTemporary d base directory =
      match (temporaryPath base directory).textFault? with
      | some e => .error e
      | none =>
        let file := directory.location base ++ [Machine.freshName d (directory.location base)]
        .ok (d.put file (.file (.text "")), Machine.pathOf file) := by
  obtain ⟨hroot, hlocation⟩ := h.fromRoot hb
  unfold Machine.createTemporary temporaryPath
  rw [hroot.locate_entry (isEntry_temporaryName 6), hlocation]
  cases (((Machine.pathOf base).join directory).entry (Machine.temporaryName 6)).textFault? with
  | some e => rfl
  | none =>
    have hsize : (Machine.temporaryName 6).utf8ByteSize ≤ maxName := by decide
    simp only [if_pos hsize, List.dropLast_concat]

/-- A temporary file is made in its directory, under a name that nothing has. -/
theorem createTemporary_eq_ok (hb : Based d base) {d' : Disk} {temporary : Path}
    (h : Machine.createTemporary d base directory = .ok (d', temporary)) :
    ∃ fresh, d.get? (directory.location base ++ [fresh]) = none ∧
      (∀ n ∈ directory.location base ++ [fresh], IsEntry n) ∧
      temporary = Machine.pathOf (directory.location base ++ [fresh]) ∧
      d' = d.put (directory.location base ++ [fresh]) (.file (.text "")) := by
  unfold Machine.createTemporary at h
  split at h
  · cases h
  · rename_i l hl
    obtain ⟨-, -, -, rfl⟩ := locate_eq_ok.1 hl
    have hentry := isEntry_temporaryName 6
    rw [Path.location_entry hentry.noSlash hentry.ne_empty hentry.ne_dot hentry.ne_dots,
      List.dropLast_concat, hb.location_fromRoot] at h
    obtain ⟨n, hfresh, hnone⟩ := freshName_spec d (directory.location base)
    obtain ⟨rfl, rfl⟩ := Prod.mk.inj (Except.ok.inj h)
    refine ⟨_, hnone, fun m hm => ?_, rfl, rfl⟩
    rcases List.mem_append.1 hm with hm | hm
    · exact hb.location_names m hm
    · obtain rfl := List.mem_singleton.1 hm
      exact hfresh ▸ isEntry_temporaryName n

/-! ## Replacing -/

/-- What is moved is a file, and no directory has the name that it gets. -/
theorem persist_eq_ok {d' : Disk} {temporary target : Path}
    (h : Machine.persist d base temporary target = .ok d') :
    ∃ c, d.get? temporary.names = some (.file c) ∧ ¬ d.HasDirectory (target.location base) ∧
      d' = (d.erase temporary.names).put (target.location base) (.file c) := by
  unfold Machine.persist at h
  split at h
  · rename_i c hfile
    unfold Disk.replace at h
    split at h
    · cases h
    · cases h
    · rename_i l hl
      obtain ⟨-, -, -, rfl⟩ := locate_eq_ok.1 hl
      split at h
      · cases h
      · split at h
        · cases h
        · split at h
          · cases h
          · rename_i hfree
            cases h
            exact ⟨c, hfile, hfree, rfl⟩
  · cases h

/-- **What comes of moving a file** to a path. -/
@[irreducible] def moveAnswer (d : Disk) (base : Location) (target : Path) : Except OsError Unit :=
  match d.locate base target with
  | .error .nulInName => .error .invalidArgument
  | .error e => .error e
  | .ok l =>
    if !namesEntry target then .error .busy
    else if target.endsWithSlash then .error .notDirectory
    else if d.get? l = some .directory then .error .isDirectory
    else .ok ()

theorem replace_eq (source : Location) (content : Content) (target : Path) :
    d.replace base source content target = match d.moveAnswer base target with
      | .error e => .error e
      | .ok () => .ok ((d.erase source).put (target.location base) (.file content)) := by
  unfold replace moveAnswer
  cases hl : d.locate base target with
  | error e => cases e <;> rfl
  | ok l =>
    obtain ⟨-, -, -, rfl⟩ := locate_eq_ok.1 hl
    dsimp only
    split_ifs with hentry hslash hdir
    · rfl
    · rfl
    · simp [hdir]
    · cases hget : d.get? (target.location base) with
      | none => rfl
      | some node =>
        cases node with
        | file c => rfl
        | directory => exact absurd hget hdir

/-- A file can be moved to the name of an entry of a directory, unless a directory has it. -/
theorem moveAnswer_eq_ok {target : Path} : d.moveAnswer base target = .ok () ↔
    d.locate base target = .ok (target.location base) ∧ namesEntry target = true ∧
      target.endsWithSlash = false ∧ ¬ d.HasDirectory (target.location base) := by
  unfold moveAnswer HasDirectory
  cases hl : d.locate base target with
  | error e => cases e <;> simp
  | ok l =>
    obtain ⟨-, -, -, rfl⟩ := locate_eq_ok.1 hl
    dsimp only
    split_ifs with hentry hslash hdir
    · simp_all
    · simp_all
    · simp_all
    · simp_all

/-- **What comes of moving a file is the same** where there are the same directories and files on
    the way. -/
theorem moveAnswer_congr {d' : Disk} {target : Path}
    (hdir : ∀ x ∈ target.way base, d'.HasDirectory x ↔ d.HasDirectory x)
    (hfile : ∀ x ∈ target.trail base, d'.HasFile x ↔ d.HasFile x) :
    d'.moveAnswer base target = d.moveAnswer base target := by
  have hlocate : d'.locate base target = d.locate base target :=
    locate_congr (fun x hx => hdir x (Path.mem_way.2 (.inl hx))) hfile
  unfold moveAnswer
  rw [hlocate]
  cases hl : d.locate base target with
  | error e => cases e <;> rfl
  | ok l =>
    obtain ⟨-, -, -, rfl⟩ := locate_eq_ok.1 hl
    have hend := hdir _ Path.location_mem_way
    unfold HasDirectory at hend
    simp only [hend]

end Disk

/-- What is refused where no directory can be made at a place. -/
def refuseDirectory (base place : Location) (e : OsError) : Action → Option OsError
  | .makeDirectory p => if p.location base = place then some e else none
  | _ => none

/-- A machine that refuses to make one directory, and nothing else, refuses calls by their place. -/
theorem refusesByPlace_of_directory {s : Machine} {place : Location} {e : OsError}
    (hb : s.disk.Based s.base) (hr : s.refuses = refuseDirectory s.base place e)
    (hfits : ∀ n ∈ place, Fits n) (he : e ≠ .notFound) : s.RefusesByPlace := by
  have hplace : ∀ p : Path, s.closed (p.location s.base) =
      if p.location s.base = place then some e else none := by
    intro p
    rw [Machine.closed, hr, refuseDirectory, Disk.location_pathOf hb.location_names]
  refine ⟨fun p => ?_, ⟨fun {p} hclosed n hn => ?_, fun {l} _ hclosed => ?_⟩,
    fun {t t'} _ target => ?_⟩
  · rw [hplace, hr]
    rfl
  · rw [hplace] at hclosed
    split at hclosed
    · rename_i hsame
      exact hfits n (hsame ▸ hn)
    · exact absurd rfl hclosed
  · rw [Machine.closed, hr, refuseDirectory] at hclosed
    split at hclosed
    · exact he (Option.some.inj hclosed)
    · cases hclosed
  · unfold Machine.refusesTemporary?
    rw [hr]
    rfl

section
variable {s : Machine} {p : Path} (hb : s.disk.HasDirectory s.base)
include hb

/-- Nothing but directories on the way is made, none of them where it is closed. -/
theorem Machine.make_made (hc : Disk.Closes s.closed s.base s.disk) :
    Disk.Made (Disk.free s.closed (p.way s.base)) s.disk (s.make p).2 := by
  unfold make
  exact Disk.makeAlong_made hc hb (Path.ascent_parents p)

/-- A path leads to the directory that was made. -/
theorem Machine.make_reaches (h : (s.make p).1 = .ok ()) : (s.make p).2.Reaches s.base p := by
  unfold make at h ⊢
  exact Disk.reaches_of_makeAlong hb h

end

/-! ## With a temporary file -/

/-- **A disk with a temporary file** that was not there before. -/
structure Disk.Holding (temporary : Path) (c : Content) (d d₁ : Disk) : Prop where
  new : d.get? temporary.names = none
  get? : ∀ k, d₁.get? k = if k = temporary.names then some (.file c) else d.get? k

namespace Disk.Holding

variable {temporary target : Path} {c : Content} {d d₁ : Disk} {base : Location}

theorem of_put (h : d.get? temporary.names = none) (c : Content) :
    Holding temporary c d (d.put temporary.names (.file c)) :=
  ⟨h, get?_put (ne_nil_of_get?_eq_none h)⟩

theorem put (h : Holding temporary c d d₁) (c' : Content) :
    Holding temporary c' d (d₁.put temporary.names (.file c')) := by
  refine ⟨h.new, fun k => ?_⟩
  rw [get?_put (ne_nil_of_get?_eq_none h.new), h.get?]
  split <;> rfl

theorem there (h : Holding temporary c d d₁) : d₁.get? temporary.names = some (.file c) := by
  rw [h.get?, if_pos rfl]

/-- Without the temporary file everything is as it was before. -/
theorem erase (h : Holding temporary c d d₁) (k : Location) :
    (d₁.erase temporary.names).get? k = d.get? k := by
  rw [get?_erase (ne_nil_of_get?_eq_none h.new), h.get?]
  split
  · rename_i hk
    rw [hk, h.new]
  · rfl

theorem discard (h : Holding temporary c d d₁) (k : Location) :
    (Machine.discard d₁ temporary).get? k = d.get? k := by
  rw [← h.erase, Machine.discard, h.there]

/-- The temporary file is not in the way to the target. -/
theorem moveAnswer_eq (h : Holding temporary c d d₁) (haway : temporary.names ∉ target.trail base) :
    d₁.moveAnswer base target = d.moveAnswer base target := by
  refine moveAnswer_congr (fun x _ => ?_) fun x hx => ?_
  · rw [HasDirectory, HasDirectory, h.get?]
    split
    · rename_i hk
      rw [hk, h.new]
      simp
    · rfl
  · rw [HasFile, HasFile, h.get?, if_neg]
    rintro rfl
    exact haway hx

/-- The temporary file is moved to the target, or stays where it is. -/
theorem persist (h : Holding temporary c d d₁) (haway : temporary.names ∉ target.trail base) :
    match Machine.persist d₁ base temporary target with
    | .error e => d.moveAnswer base target = .error e
    | .ok d' => d.moveAnswer base target = .ok () ∧
        ∀ k, d'.get? k = if k = target.location base then some (.file c) else d.get? k := by
  have hpersist : Machine.persist d₁ base temporary target =
      d₁.replace base temporary.names c target := by
    rw [Machine.persist, h.there]
  rw [hpersist, replace_eq, h.moveAnswer_eq haway]
  cases hanswer : d.moveAnswer base target with
  | error e => rfl
  | ok u =>
    have hfree := (moveAnswer_eq_ok.1 hanswer).2.2.2
    refine ⟨rfl, fun k => ?_⟩
    rw [get?_put (ne_nil_of_not_hasDirectory hfree), h.erase]

end Disk.Holding

/-- **A content is put at a location, or everything is as before,** as the answer says. -/
inductive Machine.Replaces (s : Machine) (l : Location) (c : Content) :
    Except OsError Unit → Except OsError Unit × Machine → Prop
  | ok {d : Disk} (h : ∀ k, d.get? k = if k = l then some (.file c) else s.disk.get? k) :
      Replaces s l c (.ok ()) (.ok (), s.withDisk d)
  | error {e : OsError} {d : Disk} (h : ∀ k, d.get? k = s.disk.get? k) :
      Replaces s l c (.error e) (.error e, s.withDisk d)

section
variable {s : Machine} {l : Location} {c c₀ : Content} {d d₁ : Disk} {temporary target : Path}
  {step next : StateM Machine (Except OsError Unit)} {refused : Option OsError}

/-- **A step with a temporary file** is refused, and the file is removed; or what comes of it is
    what comes of the steps behind it. -/
theorem Disk.Holding.orDiscard_run {answer : Except OsError Unit}
    (h : Disk.Holding temporary c₀ s.disk d)
    (hstep : step.run (s.withDisk d) = match refused with
      | some e => (.error e, s.withDisk d)
      | none => (.ok (), s.withDisk d₁))
    (hnext : s.Replaces l c answer (next.run (s.withDisk d₁))) :
    s.Replaces l c (refused.elim answer .error)
      ((orDiscard temporary step next).run (s.withDisk d)) := by
  rw [orDiscard, StateT.run_bind, hstep]
  cases refused with
  | some e => exact .error h.discard
  | none => exact hnext

/-- The last step moves the file to the target. -/
theorem Disk.Holding.persist_run (h : Disk.Holding temporary c s.disk d)
    (haway : temporary.names ∉ target.trail s.base) :
    s.Replaces (target.location s.base) c
      ((s.refuses (.persist temporary target)).elim (s.disk.moveAnswer s.base target) .error)
      ((orDiscard temporary (Host.persist temporary target) (pure (.ok ())) :
        StateM Machine (Except OsError Unit)).run (s.withDisk d)) := by
  have hstep : (Host.persist temporary target : StateM Machine _).run (s.withDisk d) =
      match s.refuses (.persist temporary target) with
      | some e => (.error e, s.withDisk d)
      | none => match Machine.persist d s.base temporary target with
        | .ok d' => (.ok (), s.withDisk d')
        | .error e => (.error e, s.withDisk d) := change_run ..
  rw [orDiscard, StateT.run_bind, hstep]
  cases s.refuses (.persist temporary target) with
  | some e => exact .error h.discard
  | none =>
    have hmoved := h.persist haway
    cases hpersist : Machine.persist d s.base temporary target with
    | error e =>
      rw [hpersist] at hmoved
      rw [Option.elim_none, hmoved]
      exact .error h.discard
    | ok d' =>
      rw [hpersist] at hmoved
      rw [Option.elim_none, hmoved.1]
      exact .ok hmoved.2

end

/-- Why a file cannot be put in place by way of a temporary one, if it cannot. -/
def Machine.temporaryAnswer (s : Machine) (temporary target : Path) : Except OsError Unit :=
  match s.refusesTemporary? temporary target with
  | some e => .error e
  | none => s.disk.moveAnswer s.base target

/-- The first step that is refused gives the answer. -/
theorem Machine.temporaryAnswer_eq (s : Machine) (temporary target : Path) :
    s.temporaryAnswer temporary target =
      (s.refuses (.writeTemporary temporary)).elim
        ((s.refuses (.flushTemporary temporary)).elim
          ((s.refuses (.shareTemporary temporary)).elim
            ((s.refuses (.persist temporary target)).elim (s.disk.moveAnswer s.base target) .error)
            .error) .error) .error := by
  unfold temporaryAnswer refusesTemporary?
  cases s.refuses (.writeTemporary temporary) <;> cases s.refuses (.flushTemporary temporary) <;>
    cases s.refuses (.shareTemporary temporary) <;>
    cases s.refuses (.persist temporary target) <;> rfl

/-- **What comes of a temporary file:** its text is at the target, or everything is as it was before
    the file was made. -/
theorem Disk.Holding.steps_run {s : Machine} {temporary target : Path} {c₀ : Content} {d : Disk}
    (h : Disk.Holding temporary c₀ s.disk d) (haway : temporary.names ∉ target.trail s.base)
    (text : String) :
    s.Replaces (target.location s.base) (.text text) (s.temporaryAnswer temporary target)
      ((orDiscard temporary (Host.writeTemporary temporary text) <|
          orDiscard temporary (Host.flushTemporary temporary) <|
          orDiscard temporary (Host.shareTemporary temporary) <|
          orDiscard temporary (Host.persist temporary target) (pure (.ok ())) :
        StateM Machine (Except OsError Unit)).run (s.withDisk d)) := by
  have hfull := h.put (.text text)
  have hwrite : (Host.writeTemporary temporary text : StateM Machine _).run (s.withDisk d) =
      match s.refuses (.writeTemporary temporary) with
      | some e => (.error e, s.withDisk d)
      | none => (.ok (), s.withDisk (d.put temporary.names (.file (.text text)))) := change_run ..
  generalize d.put temporary.names (.file (.text text)) = full at hfull hwrite
  have hflush : (Host.flushTemporary temporary : StateM Machine _).run (s.withDisk full) =
      match s.refuses (.flushTemporary temporary) with
      | some e => (.error e, s.withDisk full)
      | none => (.ok (), s.withDisk full) := change_run ..
  have hshare : (Host.shareTemporary temporary : StateM Machine _).run (s.withDisk full) =
      match s.refuses (.shareTemporary temporary) with
      | some e => (.error e, s.withDisk full)
      | none => (.ok (), s.withDisk full) := change_run ..
  rw [Machine.temporaryAnswer_eq]
  exact h.orDiscard_run hwrite
    (hfull.orDiscard_run hflush (hfull.orDiscard_run hshare (hfull.persist_run haway)))

/-- A temporary file is at the end of a path of its location. -/
theorem Disk.Based.temporary_names {d : Disk} {base : Location} (hb : d.Based base)
    (directory : Path) (m : Nat) :
    ∀ n ∈ directory.location base ++ [Machine.temporaryName m], Disk.IsEntry n := by
  intro n hn
  rcases List.mem_append.1 hn with hn | hn
  · exact hb.location_names n hn
  · obtain rfl := List.mem_singleton.1 hn
    exact isEntry_temporaryName m

/-- Which of its names a temporary file has is nothing to what is refused. -/
theorem Machine.RefusesByPlace.temporaryAnswer_eq {s : Machine} (h : s.RefusesByPlace)
    (hb : s.disk.Based s.base) {directory target : Path} (n : Nat) :
    s.temporaryAnswer (pathOf (directory.location s.base ++ [temporaryName n])) target =
      s.temporaryAnswer (pathOf (directory.location s.base ++ [temporaryName 0])) target := by
  have hplace : ((pathOf (directory.location s.base ++ [temporaryName n])).location
      s.base).dropLast = ((pathOf (directory.location s.base ++ [temporaryName 0])).location
        s.base).dropLast := by
    rw [Disk.location_pathOf (hb.temporary_names directory n),
      Disk.location_pathOf (hb.temporary_names directory 0), List.dropLast_concat,
      List.dropLast_concat]
  rw [temporaryAnswer, h.temporary hplace, ← temporaryAnswer]

/-- **What comes of replacing a file** in a directory that is there. -/
def Machine.replaceAnswer (s : Machine) (directory target : Path) : Except OsError Unit :=
  match s.refuses (.createTemporary directory) with
  | some e => .error e
  | none =>
    match (Disk.temporaryPath s.base directory).textFault? with
    | some e => .error e
    | none =>
      s.temporaryAnswer (pathOf (directory.location s.base ++ [temporaryName 0])) target

theorem Machine.replaceAnswer_congr {s s' : Machine} (hb : s'.base = s.base)
    (hr : s'.refuses = s.refuses) {directory target : Path}
    (hm : s'.disk.moveAnswer s.base target = s.disk.moveAnswer s.base target) :
    s'.replaceAnswer directory target = s.replaceAnswer directory target := by
  unfold replaceAnswer temporaryAnswer refusesTemporary?
  rw [hb, hr, hm]

/-- A replaced file was moved to its place. -/
theorem Machine.moveAnswer_of_replaceAnswer {s : Machine} {directory target : Path}
    (h : s.replaceAnswer directory target = .ok ()) : s.disk.moveAnswer s.base target = .ok () := by
  unfold replaceAnswer temporaryAnswer at h
  split at h
  · cases h
  · split at h
    · cases h
    · split at h
      · cases h
      · exact h

/-- **Replacing a file** in a directory that is there has the answer `Machine.replaceAnswer`, if no
    temporary file is in the way to it. If that is a success, the text is in the file; everything
    else is as before in any case. -/
theorem replaceFile_run {s : Machine} (h : s.RefusesByPlace) (hb : s.disk.Based s.base)
    {directory target : Path} (hr : s.disk.Reaches s.base directory)
    (hown : ∀ x ∈ target.trail s.base, x ∈ directory.way s.base ∨
      ∀ n, x ≠ directory.location s.base ++ [Machine.temporaryName n]) (text : String) :
    s.Replaces (target.location s.base) (.text text) (s.replaceAnswer directory target)
      ((replaceFile directory target text : StateM Machine _).run s) := by
  have hcreate : (Host.createTemporary directory : StateM Machine _).run s = _ :=
    call_run s (.createTemporary directory)
      (fun d base => Machine.createTemporary d base directory)
  rw [replaceFile, StateT.run_bind, hcreate, Machine.replaceAnswer]
  cases s.refuses (.createTemporary directory) with
  | some e => exact .error fun _ => rfl
  | none =>
    rw [hr.createTemporary hb]
    cases (Disk.temporaryPath s.base directory).textFault? with
    | some e => exact .error fun _ => rfl
    | none =>
      obtain ⟨n, hfresh, hnone⟩ := Disk.freshName_spec s.disk (directory.location s.base)
      rw [hfresh] at hnone
      have haway : directory.location s.base ++ [Machine.temporaryName n] ∉
          target.trail s.base := fun hmem =>
        (hown _ hmem).elim (fun hway => (hr.way _ hway).ne_none hnone) fun hne => hne n rfl
      dsimp only
      rw [← h.temporaryAnswer_eq hb n, hfresh]
      have hnames := Disk.names_pathOf (hb.temporary_names directory n)
      rw [← hnames] at hnone haway
      have hsteps := (Disk.Holding.of_put hnone (.text "")).steps_run haway text
      rw [hnames] at hsteps
      exact hsteps

end PhpSharp.Files
