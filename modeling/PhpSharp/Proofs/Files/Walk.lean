/-
  Where paths lead on a disk.

  * `place` is where names lead if every directory on the way is there: a name goes down, `..` goes
    up and `.` stays. `trail` are the directories that are looked into, and `Path.way` are these
    and the place itself;
  * `descend_eq_ok` and `descend_eq_error` say what following names does, `locate_eq` what following
    a path does: apart from faults of its text, only the directories of the trail count.
-/
import Mathlib.Data.List.Basic
import PhpSharp.Files.Disk
import PhpSharp.Proofs.Files.Path

namespace PhpSharp.Files

/-! ## Names -/

/-- Where a name leads from a location. -/
def onward (l : Location) (name : String) : Location :=
  if name = "." then l else if name = ".." then l.dropLast else l ++ [name]

/-- Where names lead from a location. -/
def place (l : Location) (names : List String) : Location := names.foldl onward l

/-- The locations that are passed on the way. -/
def trail (l : Location) : List String → List Location
  | [] => []
  | name :: names => l :: trail (onward l name) names

/-- Whether a directory can hold the name, or it is `.` or `..`. -/
def Fits (name : String) : Prop := name = "." ∨ name = ".." ∨ name.utf8ByteSize ≤ Disk.maxName

instance (name : String) : Decidable (Fits name) := inferInstanceAs (Decidable (_ ∨ _))

@[simp] theorem place_nil (l : Location) : place l [] = l := rfl

@[simp] theorem place_cons (l : Location) (name : String) (names : List String) :
    place l (name :: names) = place (onward l name) names := rfl

@[simp] theorem place_append (l : Location) (names more : List String) :
    place l (names ++ more) = place (place l names) more := List.foldl_append

@[simp] theorem trail_append (l : Location) (names more : List String) :
    trail l (names ++ more) = trail l names ++ trail (place l names) more := by
  induction names generalizing l with
  | nil => rfl
  | cons name names ih => simp [trail, ih]

theorem onward_dot (l : Location) : onward l "." = l := if_pos rfl

theorem onward_of_ne {l : Location} {name : String} (h : name ≠ ".") (h' : name ≠ "..") :
    onward l name = l ++ [name] := by
  rw [onward, if_neg h, if_neg h']

/-- Points lead nowhere. -/
theorem place_dots {l : Location} {names : List String} (h : ∀ n ∈ names, n = ".") :
    place l names = l := by
  induction names with
  | nil => rfl
  | cons name names ih =>
    obtain ⟨rfl, hrest⟩ := List.forall_mem_cons.1 h
    rw [place_cons, onward_dot, ih hrest]

/-- On the way along points nothing but the start is passed. -/
theorem trail_dots {l : Location} {names : List String} (h : ∀ n ∈ names, n = ".") :
    ∀ x ∈ trail l names, x = l := by
  induction names with
  | nil => intro x hx; cases hx
  | cons name names ih =>
    obtain ⟨rfl, hrest⟩ := List.forall_mem_cons.1 h
    intro x hx
    rw [trail, onward_dot] at hx
    rcases List.mem_cons.1 hx with rfl | hx
    · rfl
    · exact ih hrest x hx

/-- The names of a place are some of those that lead there, but for points. -/
theorem mem_place {l : Location} {names : List String} {n : String} (h : n ∈ place l names) :
    n ∈ l ∨ n ∈ names ∧ n ≠ "." ∧ n ≠ ".." := by
  induction names generalizing l with
  | nil => exact .inl h
  | cons name names ih =>
    rcases ih h with hn | ⟨hn, hne⟩
    · unfold onward at hn
      split_ifs at hn with hdot hdots
      · exact .inl hn
      · exact .inl (List.dropLast_subset _ hn)
      · rcases List.mem_append.1 hn with hn | hn
        · exact .inl hn
        · obtain rfl := List.mem_singleton.1 hn
          exact .inr ⟨List.mem_cons_self .., hdot, hdots⟩
    · exact .inr ⟨List.mem_cons_of_mem _ hn, hne⟩

/-- Names other than `.` and `..` lead down. -/
theorem place_straight {l : Location} {names : List String}
    (h : ∀ n ∈ names, n ≠ "." ∧ n ≠ "..") : place l names = l ++ names := by
  induction names generalizing l with
  | nil => simp
  | cons name names ih =>
    obtain ⟨hname, hrest⟩ := List.forall_mem_cons.1 h
    rw [place_cons, onward_of_ne hname.1 hname.2, ih hrest]
    simp

/-- On the way down everything that is passed is some of the names below the start. -/
theorem trail_straight {l : Location} {names : List String}
    (h : ∀ n ∈ names, n ≠ "." ∧ n ≠ "..") :
    ∀ x ∈ trail l names, ∃ below, below <+: names ∧ x = l ++ below := by
  induction names generalizing l with
  | nil => intro x hx; cases hx
  | cons name names ih =>
    obtain ⟨hname, hrest⟩ := List.forall_mem_cons.1 h
    intro x hx
    rcases List.mem_cons.1 hx with rfl | hx
    · exact ⟨[], List.nil_prefix, (List.append_nil _).symm⟩
    · obtain ⟨below, hbelow, rfl⟩ := ih hrest x hx
      rw [onward_of_ne hname.1 hname.2]
      exact ⟨name :: below, List.cons_prefix_cons.2 ⟨rfl, hbelow⟩, by simp⟩

/-! ## Following names -/

namespace Disk

/-- Whether a directory is at a location. -/
def HasDirectory (d : Disk) (l : Location) : Prop := d.get? l = some .directory

/-- Whether a file is at a location. -/
def HasFile (d : Disk) (l : Location) : Prop := ∃ c, d.get? l = some (.file c)

variable {d d' : Disk} {l k : Location} {names : List String} {base : Location} {p : Path}

theorem hasDirectory_root (d : Disk) : d.HasDirectory [] := if_pos rfl

theorem ne_nil_of_not_hasDirectory (h : ¬ d.HasDirectory l) : l ≠ [] := by
  rintro rfl
  exact h (hasDirectory_root d)

theorem HasDirectory.not_file (h : d.HasDirectory l) : ¬ d.HasFile l := by
  rintro ⟨c, hc⟩
  rw [HasDirectory, hc] at h
  cases h

theorem HasDirectory.ne_none (h : d.HasDirectory l) : d.get? l ≠ none := by
  rw [HasDirectory] at h
  rw [h]
  exact Option.some_ne_none _

/-- What is there is a directory, if it is no file. -/
theorem hasDirectory_of_ne (h : d.get? l ≠ none) (hf : ¬ d.HasFile l) : d.HasDirectory l := by
  cases hl : d.get? l with
  | none => exact absurd hl h
  | some n =>
    cases n with
    | file c => exact absurd ⟨c, hl⟩ hf
    | directory => exact hl

/-- A name is followed in a directory, if it fits. -/
theorem descend_cons_directory (h : d.HasDirectory l) {name : String} (hf : Fits name) :
    d.descend l (name :: names) = d.descend (onward l name) names := by
  rw [HasDirectory] at h
  unfold onward
  simp only [descend, h]
  split_ifs with h₁ h₂ h₃
  · rfl
  · rfl
  · rcases hf with hf | hf | hf
    · exact absurd hf h₁
    · exact absurd hf h₂
    · omega
  · rfl

/-- A name that does not fit is not followed. -/
theorem descend_cons_tooLong (h : d.HasDirectory l) {name : String} (hf : ¬ Fits name) :
    d.descend l (name :: names) = .error .nameTooLong := by
  rw [HasDirectory] at h
  unfold Fits at hf
  simp only [not_or, Nat.not_le] at hf
  simp only [descend, h, if_neg hf.1, if_neg hf.2.1, if_pos hf.2.2]

/-- No name is followed in a file. -/
theorem descend_cons_file (h : d.HasFile l) (name : String) :
    d.descend l (name :: names) = .error .notDirectory := by
  obtain ⟨c, hc⟩ := h
  rw [descend, hc]

/-- **Names can be followed** exactly if every location on the way is a directory and every name
    fits. -/
theorem descend_eq_ok :
    d.descend l names = .ok k ↔
      (∀ x ∈ trail l names, d.HasDirectory x) ∧ (∀ n ∈ names, Fits n) ∧ k = place l names := by
  induction names generalizing l with
  | nil => simp [descend, trail, eq_comm]
  | cons name names ih =>
    by_cases hl : d.HasDirectory l
    · by_cases hf : Fits name
      · rw [descend_cons_directory hl hf, ih]
        simp [trail, hl, hf]
      · rw [descend_cons_tooLong hl hf]
        simp [hf]
    · constructor
      · intro h
        unfold HasDirectory at hl
        rw [descend] at h
        split at h
        · cases h
        · cases h
        · rename_i hd
          exact absurd hd hl
      · rintro ⟨htrail, -⟩
        exact absurd (htrail l (List.mem_cons_self ..)) hl

/-- What keeps names from being followed: the first location on the way that is no directory, or
    a name that does not fit. -/
theorem descend_eq_error {e : OsError} (h : d.descend l names = .error e) :
    ∃ before name rest, names = before ++ name :: rest ∧
      (∀ x ∈ trail l before, d.HasDirectory x) ∧ (∀ n ∈ before, Fits n) ∧
      (d.get? (place l before) = none ∧ e = .notFound ∨
        d.HasFile (place l before) ∧ e = .notDirectory ∨
        d.HasDirectory (place l before) ∧ ¬ Fits name ∧ e = .nameTooLong) := by
  induction names generalizing l with
  | nil => cases h
  | cons name names ih =>
    cases hl : d.get? l with
    | none =>
      rw [descend, hl] at h
      cases h
      exact ⟨[], name, names, rfl, by simp [trail], by simp, .inl ⟨hl, rfl⟩⟩
    | some node =>
      cases node with
      | file c =>
        rw [descend, hl] at h
        cases h
        exact ⟨[], name, names, rfl, by simp [trail], by simp, .inr (.inl ⟨⟨c, hl⟩, rfl⟩)⟩
      | directory =>
        by_cases hf : Fits name
        · rw [descend_cons_directory hl hf] at h
          obtain ⟨before, name', rest, rfl, htrail, hfits, hend⟩ := ih h
          refine ⟨name :: before, name', rest, rfl, ?_, ?_, hend⟩
          · exact List.forall_mem_cons.2 ⟨hl, htrail⟩
          · exact List.forall_mem_cons.2 ⟨hf, hfits⟩
        · rw [descend_cons_tooLong hl hf] at h
          cases h
          exact ⟨[], name, names, rfl, by simp [trail], by simp, .inr (.inr ⟨hl, hf, rfl⟩)⟩

/-- No name is followed where nothing is. -/
theorem descend_cons_missing (h : d.get? l = none) (name : String) :
    d.descend l (name :: names) = .error .notFound := by
  rw [descend, h]

/-- Names are followed to the same end where there are the same directories and files on the way. -/
theorem descend_congr (hdir : ∀ x ∈ trail l names, d'.HasDirectory x ↔ d.HasDirectory x)
    (hfile : ∀ x ∈ trail l names, d'.HasFile x ↔ d.HasFile x) :
    d'.descend l names = d.descend l names := by
  induction names generalizing l with
  | nil => rfl
  | cons name names ih =>
    obtain ⟨hdirl, hdir⟩ := List.forall_mem_cons.1 hdir
    obtain ⟨hfilel, hfile⟩ := List.forall_mem_cons.1 hfile
    by_cases hl : d.HasDirectory l
    · by_cases hf : Fits name
      · rw [descend_cons_directory hl hf, descend_cons_directory (hdirl.2 hl) hf, ih hdir hfile]
      · rw [descend_cons_tooLong hl hf, descend_cons_tooLong (hdirl.2 hl) hf]
    · by_cases hf : d.HasFile l
      · rw [descend_cons_file hf, descend_cons_file (hfilel.2 hf)]
      · have hnone : d.get? l = none := by
          by_contra hne
          exact hl (hasDirectory_of_ne hne hf)
        have hnone' : d'.get? l = none := by
          by_contra hne
          exact hl (hdirl.1 (hasDirectory_of_ne hne fun h => hf (hfilel.1 h)))
        rw [descend_cons_missing hnone, descend_cons_missing hnone']

/-- Names that can be followed are, whatever comes behind them. -/
theorem descend_append {before rest : List String} {name : String}
    (htrail : ∀ x ∈ trail l before, d.HasDirectory x) (hfits : ∀ n ∈ before, Fits n) :
    d.descend l (before ++ name :: rest) = d.descend (place l before) (name :: rest) := by
  induction before generalizing l with
  | nil => rfl
  | cons n before ih =>
    obtain ⟨hl, htrail⟩ := List.forall_mem_cons.1 htrail
    obtain ⟨hn, hfits⟩ := List.forall_mem_cons.1 hfits
    rw [List.cons_append, descend_cons_directory hl hn, ih htrail hfits, place_cons]

end Disk

end PhpSharp.Files

/-! ## Paths -/

namespace PhpSharp.Path

open Files (Location OsError Fits)

/-- Where a path starts from. -/
def start (base : Location) (p : Path) : Location := if p.isAbsolute then [] else base

/-- Where a path leads. -/
def location (base : Location) (p : Path) : Location := Files.place (p.start base) p.names

/-- The locations that are passed on the way. -/
def trail (base : Location) (p : Path) : List Location := Files.trail (p.start base) p.names

/-- The locations that are passed on the way, and where the path leads. -/
def way (base : Location) (p : Path) : List Location := p.trail base ++ [p.location base]

/-- Why no system follows a path of this text. -/
@[irreducible] def textFault? (p : Path) : Option OsError :=
  if '\x00' ∈ p.text.toList then some .nulInName
  else if p.text = "" then some .notFound
  else if p.text.utf8ByteSize ≥ Files.Disk.maxPath then some .nameTooLong
  else none

section
variable {base l : Location} {p q : Path} {name : String}

theorem mem_way : l ∈ p.way base ↔ l ∈ p.trail base ∨ l = p.location base := by
  simp [way]

theorem location_mem_way : p.location base ∈ p.way base := mem_way.2 (.inr rfl)

/-- An entry is where its name says. -/
theorem location_entry (h : '/' ∉ name.toList) (hne : name ≠ "") (hdot : name ≠ ".")
    (hdots : name ≠ "..") : (p.entry name).location base = p.location base ++ [name] := by
  rw [location, start, names_entry h hne, isAbsolute_entry h, Files.place_append]
  exact Files.onward_of_ne hdot hdots

/-- The way to an entry is that to its directory. -/
theorem trail_entry (h : '/' ∉ name.toList) (hne : name ≠ "") :
    (p.entry name).trail base = p.way base := by
  rw [trail, start, names_entry h hne, isAbsolute_entry h, Files.trail_append]
  rfl

/-- A path whose names lead on from those of another passes all that the other one does. -/
theorem way_subset (hstart : q.isAbsolute = p.isAbsolute) {more : List String}
    (h : p.names = q.names ++ more) : q.way base ⊆ p.way base := by
  have htrail : p.trail base = q.trail base ++ Files.trail (q.location base) more := by
    rw [trail, h, start, ← hstart, Files.trail_append]
    rfl
  intro l hl
  rcases mem_way.1 hl with hl | rfl
  · rw [mem_way, htrail]
    exact .inl (List.mem_append_left _ hl)
  · cases more with
    | nil =>
      rw [mem_way, location, location, h, start, start, hstart, List.append_nil]
      exact .inr rfl
    | cons name more =>
      rw [mem_way, htrail]
      exact .inl (List.mem_append_right _ (List.mem_cons_self ..))

/-- What the first names lead to is passed if there are more. -/
theorem place_mem_trail {before rest : List String} (h : p.names = before ++ name :: rest) :
    Files.place (p.start base) before ∈ p.trail base := by
  rw [trail, h, Files.trail_append]
  exact List.mem_append_right _ (List.mem_cons_self ..)

theorem place_mem_way {before rest : List String} (h : p.names = before ++ rest) :
    Files.place (p.start base) before ∈ p.way base := by
  cases rest with
  | nil =>
    rw [mem_way, location, h, List.append_nil]
    exact .inr rfl
  | cons name rest => exact mem_way.2 (.inl (place_mem_trail h))

theorem Above.way_subset (h : Above q p) : q.way base ⊆ p.way base := by
  obtain ⟨before, name, behind, hnames, -⟩ := h.names
  rw [List.append_assoc] at hnames
  exact Path.way_subset h.absolute hnames

theorem text_eq_of_textFault? (h : p.textFault? = some .notFound) : p.text = "" := by
  unfold textFault? at h
  split_ifs at h with hnul hempty
  · cases h
  · exact hempty
  · cases h

theorem names_of_text_eq (h : p.text = "") : p.names = [] := by
  rw [names_eq, h]
  rfl

/-- A path without text goes nowhere. -/
theorem way_of_text_eq (h : p.text = "") : p.way base = [base] := by
  have hstart : p.start base = base := by
    rw [start, isAbsolute, h]
    rfl
  rw [way, trail, location, names_of_text_eq h, hstart]
  rfl

/-- A path has no fault in its text if a longer one has none. -/
theorem Above.textFault?_eq_none (h : Above q p) (hp : p.textFault? = none) (hq : q.text ≠ "") :
    q.textFault? = none := by
  obtain ⟨rest, hrest⟩ := h.text
  have htext : p.text = q.text ++ String.ofList rest := by
    rw [← String.toList_inj, String.toList_append, String.toList_ofList, hrest]
  unfold textFault? at hp ⊢
  split_ifs at hp with hnul hempty hlong
  have hnul' : '\x00' ∉ q.text.toList := by
    intro hc
    refine hnul ?_
    rw [← hrest]
    exact List.mem_append_left rest hc
  have hlong' : ¬ q.text.utf8ByteSize ≥ Files.Disk.maxPath := by
    rw [htext, String.utf8ByteSize_append] at hlong
    omega
  rw [if_neg hnul', if_neg hq, if_neg hlong']

end

end PhpSharp.Path

namespace PhpSharp.Files.Disk

variable {d d' : Disk} {l base : Location} {p : Path}

theorem locate_eq :
    d.locate base p = match p.textFault? with
      | some e => .error e
      | none => d.descend (p.start base) p.names := by
  unfold locate follow Path.textFault? Path.start
  split_ifs <;> rfl

/-- A path is followed to the same end where there are the same directories and files on the way. -/
theorem locate_congr (hdir : ∀ x ∈ p.trail base, d'.HasDirectory x ↔ d.HasDirectory x)
    (hfile : ∀ x ∈ p.trail base, d'.HasFile x ↔ d.HasFile x) :
    d'.locate base p = d.locate base p := by
  rw [locate_eq, locate_eq, descend_congr hdir hfile]

/-- **A path can be followed** exactly if its text and its names are in order and every location on
    the way is a directory. -/
theorem locate_eq_ok :
    d.locate base p = .ok l ↔
      p.textFault? = none ∧ (∀ n ∈ p.names, Fits n) ∧ (∀ x ∈ p.trail base, d.HasDirectory x) ∧
        l = p.location base := by
  rw [locate_eq]
  cases p.textFault? with
  | some e => simp
  | none =>
    simp only [descend_eq_ok, Path.trail, Path.location, true_and]
    constructor
    · rintro ⟨htrail, hfits, hl⟩
      exact ⟨hfits, htrail, hl⟩
    · rintro ⟨hfits, htrail, hl⟩
      exact ⟨htrail, hfits, hl⟩

/-- A path that can be followed can be where all directories are still there. -/
theorem locate_mono (h : ∀ {l}, d.HasDirectory l → d'.HasDirectory l)
    (hl : d.locate base p = .ok l) : d'.locate base p = .ok l := by
  obtain ⟨htext, hfits, htrail, rfl⟩ := locate_eq_ok.1 hl
  exact locate_eq_ok.2 ⟨htext, hfits, fun x hx => h (htrail x hx), rfl⟩

/-- A path names a directory exactly if it can be followed and everything on the way and at its end
    is one. -/
theorem isDirectory_iff :
    d.isDirectory base p = true ↔
      p.textFault? = none ∧ (∀ n ∈ p.names, Fits n) ∧ ∀ l ∈ p.way base, d.HasDirectory l := by
  have hway : (∀ l ∈ p.way base, d.HasDirectory l) ↔
      (∀ l ∈ p.trail base, d.HasDirectory l) ∧ d.HasDirectory (p.location base) := by
    simp only [Path.mem_way, or_imp, forall_and, forall_eq]
  rw [hway]
  unfold isDirectory stat
  cases hl : d.locate base p with
  | error e =>
    constructor
    · intro h
      cases h
    · rintro ⟨htext, hfits, htrail, -⟩
      rw [locate_eq_ok.2 ⟨htext, hfits, htrail, rfl⟩] at hl
      cases hl
  | ok l =>
    obtain ⟨htext, hfits, htrail, rfl⟩ := locate_eq_ok.1 hl
    simp only [htext, true_and, HasDirectory]
    cases d.get? (p.location base) with
    | none => simp
    | some node =>
      cases node with
      | file c => by_cases hs : p.endsWithSlash = true <;> simp [hs]
      | directory => exact ⟨fun _ => ⟨hfits, htrail, rfl⟩, fun _ => rfl⟩

/-- What is a directory is one where all directories are still there. -/
theorem isDirectory_mono (h : ∀ {l}, d.HasDirectory l → d'.HasDirectory l)
    (hp : d.isDirectory base p = true) : d'.isDirectory base p = true := by
  obtain ⟨htext, hfits, hway⟩ := isDirectory_iff.1 hp
  exact isDirectory_iff.2 ⟨htext, hfits, fun l hl => h (hway l hl)⟩

/-- A directory is made exactly where a path leads to nothing. -/
theorem makeDirectory_eq_ok :
    d.makeDirectory base p = .ok d' ↔
      d.locate base p = .ok (p.location base) ∧ d.get? (p.location base) = none ∧
        d' = d.put (p.location base) .directory := by
  unfold makeDirectory
  cases hl : d.locate base p with
  | error e => simp
  | ok l =>
    obtain ⟨-, -, -, rfl⟩ := locate_eq_ok.1 hl
    cases hg : d.get? (p.location base) with
    | none => simp [hg, eq_comm]
    | some node => simp [hg]

/-- On a way without files, only a missing directory or a long name is in the way. -/
theorem locate_cases (ht : p.textFault? = none) (hf : ∀ x ∈ p.trail base, ¬ d.HasFile x) :
    d.locate base p = .ok (p.location base) ∨ d.locate base p = .error .notFound ∨
      d.locate base p = .error .nameTooLong ∧ ∃ n ∈ p.names, ¬ Fits n := by
  have hdescend : d.locate base p = d.descend (p.start base) p.names := by rw [locate_eq, ht]
  cases hl : d.locate base p with
  | ok l =>
    obtain ⟨-, -, -, rfl⟩ := locate_eq_ok.1 hl
    exact .inl rfl
  | error e =>
    obtain ⟨before, name, rest, hnames, -, -, hend⟩ := descend_eq_error (hdescend ▸ hl)
    have hmem : place (p.start base) before ∈ p.trail base := Path.place_mem_trail hnames
    rcases hend with ⟨-, rfl⟩ | ⟨hfile, -⟩ | ⟨-, hlong, rfl⟩
    · exact .inr (.inl rfl)
    · exact absurd hfile (hf _ hmem)
    · refine .inr (.inr ⟨rfl, name, ?_, hlong⟩)
      rw [hnames]
      simp

/-- What is not found is missing on the way. -/
theorem locate_eq_notFound (ht : p.text ≠ "") (h : d.locate base p = .error .notFound) :
    ∃ before name rest, p.names = before ++ name :: rest ∧
      (∀ x ∈ trail (p.start base) before, d.HasDirectory x) ∧ (∀ n ∈ before, Fits n) ∧
      d.get? (place (p.start base) before) = none := by
  rw [locate_eq] at h
  split at h
  · rename_i e he
    cases h
    exact absurd (Path.text_eq_of_textFault? he) ht
  · obtain ⟨before, name, rest, hnames, htrail, hfits, hend⟩ := descend_eq_error h
    rcases hend with ⟨hnone, -⟩ | ⟨-, he⟩ | ⟨-, -, he⟩
    · exact ⟨before, name, rest, hnames, htrail, hfits, hnone⟩
    · cases he
    · cases he

/-- A path that is not found has no fault in its text. -/
theorem textFault?_of_notFound (ht : p.text ≠ "") (h : d.locate base p = .error .notFound) :
    p.textFault? = none := by
  rw [locate_eq] at h
  split at h
  · rename_i e he
    cases h
    exact absurd (Path.text_eq_of_textFault? he) ht
  · assumption

/-- What is missing on the way is not found. -/
theorem locate_of_missing (ht : p.textFault? = none) {before rest : List String} {name : String}
    (hnames : p.names = before ++ name :: rest)
    (htrail : ∀ x ∈ trail (p.start base) before, d.HasDirectory x) (hfits : ∀ n ∈ before, Fits n)
    (hnone : d.get? (place (p.start base) before) = none) :
    d.locate base p = .error .notFound := by
  rw [locate_eq, ht, hnames]
  simp only
  rw [descend_append htrail hfits, descend_cons_missing hnone]

/-- A path is found if all that is passed is there. -/
theorem locate_ne_notFound (ht : p.text ≠ "") (h : ∀ x ∈ p.trail base, d.HasDirectory x) :
    d.locate base p ≠ .error .notFound := by
  intro hl
  obtain ⟨before, name, rest, hnames, -, -, hnone⟩ := locate_eq_notFound ht hl
  exact (h _ (Path.place_mem_trail hnames)).ne_none hnone

end PhpSharp.Files.Disk
