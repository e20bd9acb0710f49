/-
  Making a directory and those on the way to it, where some locations are closed: nothing may be
  made there, for a reason of the system's own.

  * `Made way d d'`: on `d'` there is what was on `d`, and some directories on `way` where nothing
    was;
  * `makeAlong` is what `createAlong` does to a disk (`createAlong_run`). It makes nothing but
    directories on the way that are not closed (`makeAlong_made`), and all that are missing there if
    it succeeds (`makeAlong_way`).
-/
import Mathlib.Data.List.Induction
import PhpSharp.Files.Machine
import PhpSharp.Proofs.Files.Walk

namespace PhpSharp.Files

namespace Disk

variable {d d' d'' : Disk} {l base : Location} {p q : Path} {ps : List Path} {way : List Location}

/-! ## Disks -/

/-- What is looked up is an entry. -/
theorem mem_of_lookup {es : List (Location × Node)} {node : Node} (h : es.lookup l = some node) :
    (l, node) ∈ es := by
  induction es with
  | nil => cases h
  | cons e es ih =>
    rw [lookup_cons_eq l e.1 e.2] at h
    split at h
    · rename_i he
      cases h
      rw [he]
      exact List.mem_cons_self ..
    · exact List.mem_cons_of_mem _ (ih h)

/-- A name that stands for an entry of a directory. -/
structure IsEntry (name : String) : Prop where
  ne_empty : name ≠ ""
  noSlash : '/' ∉ name.toList
  ne_dot : name ≠ "."
  ne_dots : name ≠ ".."

/-- A name that an entry of a directory can have. -/
structure IsName (name : String) : Prop extends IsEntry name where
  size_le : name.utf8ByteSize ≤ maxName

theorem IsName.fits {name : String} (h : IsName name) : Fits name := .inr (.inr h.size_le)

/-- **A disk as systems have them:** whatever is on it is in a directory and has a name. -/
structure Sound (d : Disk) : Prop where
  inDirectory : ∀ {l name}, d.get? (l ++ [name]) ≠ none → d.HasDirectory l
  name : ∀ {l name}, d.get? (l ++ [name]) ≠ none → IsName name

/-- **The working directory is there,** with all directories that it is in. -/
structure Based (d : Disk) (base : Location) : Prop where
  directory : ∀ {l}, l <+: base → d.HasDirectory l
  name : ∀ n ∈ base, IsName n

/-- On a disk as systems have them, a directory is in directories. -/
theorem Sound.directory_of_prefix (hd : Sound d) {below : Location}
    (h : d.HasDirectory (l ++ below)) : d.HasDirectory l := by
  induction below using List.reverseRecOn with
  | nil => rwa [List.append_nil] at h
  | append_singleton below name ih =>
    rw [← List.append_assoc] at h
    exact ih (hd.inDirectory h.ne_none)

theorem Sound.based (hd : Sound d) (h : d.HasDirectory base) : Based d base := by
  constructor
  · rintro l ⟨below, rfl⟩
    exact hd.directory_of_prefix h
  · intro n hn
    obtain ⟨l, below, rfl⟩ := List.append_of_mem hn
    have hdir : d.HasDirectory (l ++ [n]) := by
      rw [List.append_cons] at h
      exact hd.directory_of_prefix h
    exact hd.name hdir.ne_none

instance (name : String) : Decidable (IsName name) :=
  decidable_of_iff (name ≠ "" ∧ '/' ∉ name.toList ∧ name ≠ "." ∧ name ≠ ".." ∧
      name.utf8ByteSize ≤ maxName)
    ⟨fun ⟨hne, hslash, hdot, hdots, hsize⟩ => ⟨⟨hne, hslash, hdot, hdots⟩, hsize⟩,
      fun h => ⟨h.ne_empty, h.noSlash, h.ne_dot, h.ne_dots, h.size_le⟩⟩

instance (d : Disk) (l : Location) : Decidable (d.HasDirectory l) :=
  inferInstanceAs (Decidable (_ = _))

/-- A disk is as systems have them if every one of its entries is. -/
theorem Sound.of_entries (h : ∀ e ∈ d.entries, d.HasDirectory e.1.dropLast ∧
    ∀ name ∈ e.1.getLast?, IsName name) : Sound d := by
  have hentry : ∀ {l name}, d.get? (l ++ [name]) ≠ none → d.HasDirectory l ∧ IsName name := by
    intro l name hne
    rw [get?, if_neg (by simp)] at hne
    obtain ⟨node, hnode⟩ := Option.ne_none_iff_exists'.1 hne
    obtain ⟨hdir, hname⟩ := h _ (mem_of_lookup hnode)
    rw [List.dropLast_concat] at hdir
    exact ⟨hdir, hname name (by simp)⟩
  exact ⟨fun hne => (hentry hne).1, fun hne => (hentry hne).2⟩

/-! ## What is made -/

/-- **Nothing but directories was made**, on a way and where nothing was. -/
def Made (way : List Location) (d d' : Disk) : Prop :=
  ∀ l, d'.get? l = d.get? l ∨ l ∈ way ∧ d.get? l = none ∧ d'.HasDirectory l

theorem Made.refl (way : List Location) (d : Disk) : Made way d d := fun _ => .inl rfl

theorem Made.directory (h : Made way d d') (hl : d.HasDirectory l) : d'.HasDirectory l := by
  rcases h l with he | ⟨-, hnone, -⟩
  · exact he.trans hl
  · exact absurd hnone hl.ne_none

theorem Made.file_eq (h : Made way d d') {c : Content} :
    d'.get? l = some (.file c) ↔ d.get? l = some (.file c) := by
  rcases h l with he | ⟨-, hnone, hd⟩
  · rw [he]
  · rw [HasDirectory] at hd
    simp [hnone, hd]

theorem Made.file (h : Made way d d') : d'.HasFile l ↔ d.HasFile l :=
  exists_congr fun _ => h.file_eq

/-- A directory that was made is on the way. -/
theorem Made.new (h : Made way d d') (hl : d'.HasDirectory l) : d.HasDirectory l ∨ l ∈ way := by
  rcases h l with he | ⟨hmem, -, -⟩
  · exact .inl (he.symm.trans hl)
  · exact .inr hmem

theorem Made.trans (h : Made way d d') (h' : Made way d' d'') : Made way d d'' := by
  intro l
  rcases h' l with he | ⟨hmem, hnone, hd⟩
  · rcases h l with he' | ⟨hmem, hnone, hd⟩
    · exact .inl (he.trans he')
    · exact .inr ⟨hmem, hnone, he.trans hd⟩
  · rcases h l with he' | ⟨-, -, hd'⟩
    · exact .inr ⟨hmem, he'.symm.trans hnone, hd⟩
    · exact absurd hnone hd'.ne_none

theorem Made.mono {way' : List Location} (h : Made way d d') (hsub : way ⊆ way') :
    Made way' d d' := by
  intro l
  rcases h l with he | ⟨hmem, hrest⟩
  · exact .inl he
  · exact .inr ⟨hsub hmem, hrest⟩

theorem ne_nil_of_get?_eq_none (h : d.get? l = none) : l ≠ [] := by
  rintro rfl
  cases h

theorem made_put (h : d.get? l = none) (hmem : l ∈ way) : Made way d (d.put l .directory) := by
  intro k
  rw [get?_put (ne_nil_of_get?_eq_none h)]
  by_cases hk : k = l
  · subst hk
    exact .inr ⟨hmem, h, by rw [HasDirectory, get?_put (ne_nil_of_get?_eq_none h), if_pos rfl]⟩
  · exact .inl (if_neg hk)

/-! ## One directory -/

section
variable {closed : Location → Option OsError}

/-- **Closed locations:** they are such as a disk can have, and a directory that is there is not
    said to be missing. -/
structure Closes (closed : Location → Option OsError) (base : Location) (d : Disk) : Prop where
  fits : ∀ {p : Path}, closed (p.location base) ≠ none → ∀ n ∈ p.location base, Fits n
  there : ∀ {l}, d.HasDirectory l → closed l ≠ some .notFound

/-- The locations of a way that are not closed. -/
def free (closed : Location → Option OsError) (way : List Location) : List Location :=
  way.filter fun l => (closed l).isNone

theorem mem_free : l ∈ free closed way ↔ l ∈ way ∧ closed l = none := by
  rw [free, List.mem_filter, Option.isNone_iff_eq_none]

theorem free_subset {way' : List Location} (h : way ⊆ way') :
    free closed way ⊆ free closed way' := fun _ hl =>
  mem_free.2 ⟨h (mem_free.1 hl).1, (mem_free.1 hl).2⟩

theorem Closes.made (h : Closes closed base d) (hm : Made (free closed way) d d') :
    Closes closed base d' := by
  refine ⟨h.fits, fun hl hclosed => ?_⟩
  rcases hm.new hl with hold | hnew
  · exact h.there hold hclosed
  · rw [(mem_free.1 hnew).2] at hclosed
    cases hclosed

/-- Makes a directory, unless its location is closed. -/
def makeUnlessClosed (closed : Location → Option OsError) (d : Disk) (base : Location) (p : Path) :
    Except OsError Disk :=
  match closed (p.location base) with
  | some e => .error e
  | none => d.makeDirectory base p

theorem makeUnlessClosed_eq_ok :
    d.makeUnlessClosed closed base p = .ok d' ↔ closed (p.location base) = none ∧
      d.locate base p = .ok (p.location base) ∧ d.get? (p.location base) = none ∧
        d' = d.put (p.location base) .directory := by
  unfold makeUnlessClosed
  cases closed (p.location base) with
  | some e => simp
  | none => simp [makeDirectory_eq_ok]

/-- A directory on the way is missing, or the system says so. -/
theorem makeUnlessClosed_eq_notFound :
    d.makeUnlessClosed closed base p = .error .notFound ↔
      closed (p.location base) = some .notFound ∨
        closed (p.location base) = none ∧ d.locate base p = .error .notFound := by
  unfold makeUnlessClosed
  cases closed (p.location base) with
  | some e => simp
  | none =>
    cases hl : d.locate base p with
    | error e => simp [makeDirectory, hl]
    | ok l => cases hn : d.get? l <;> simp [makeDirectory, hl, hn]

/-- Makes a directory; one that is there is kept. -/
def makeOrKeep (closed : Location → Option OsError) (d : Disk) (base : Location) (p : Path) :
    Except OsError Unit × Disk :=
  match d.makeUnlessClosed closed base p with
  | .ok d' => (.ok (), d')
  | .error e => (if d.isDirectory base p then .ok () else .error e, d)

/-- A directory that is there, or can be made in one that is. -/
structure Open (closed : Location → Option OsError) (d : Disk) (base : Location) (p : Path) :
    Prop where
  text : p.textFault? = none
  fits : ∀ n ∈ p.names, Fits n
  trail : ∀ x ∈ p.trail base, d.HasDirectory x
  noFile : ¬ d.HasFile (p.location base)
  free : closed (p.location base) = none ∨ d.HasDirectory (p.location base)

theorem Open.locate (h : Open closed d base p) : d.locate base p = .ok (p.location base) :=
  locate_eq_ok.2 ⟨h.text, h.fits, h.trail, rfl⟩

/-- Where no file is in the way and no name is too long, a directory is open unless one is missing
    on the way to it. -/
theorem Open.of_noFile (ht : p.textFault? = none) (hfits : ∀ n ∈ p.names, Fits n)
    (hc : closed (p.location base) = none) (hf : ∀ x ∈ p.way base, ¬ d.HasFile x)
    (hl : d.locate base p ≠ .error .notFound) : Open closed d base p := by
  rcases locate_cases ht (fun x hx => hf x (Path.mem_way.2 (.inl hx))) with
    hfound | hmissing | ⟨-, n, hn, hlong⟩
  · obtain ⟨-, -, htrail, -⟩ := locate_eq_ok.1 hfound
    exact ⟨ht, hfits, htrail, hf _ Path.location_mem_way, .inl hc⟩
  · exact absurd hmissing hl
  · exact absurd (hfits n hn) hlong

theorem Open.makeUnlessClosed_ne (h : Open closed d base p) (hc : Closes closed base d) :
    d.makeUnlessClosed closed base p ≠ .error .notFound := by
  intro hmissing
  rcases makeUnlessClosed_eq_notFound.1 hmissing with hclosed | ⟨-, hlocate⟩
  · refine hc.there (h.free.resolve_left fun hnone => ?_) hclosed
    cases hnone.symm.trans hclosed
  · cases h.locate.symm.trans hlocate

theorem makeOrKeep_made : Made (free closed (p.way base)) d (d.makeOrKeep closed base p).2 := by
  unfold makeOrKeep
  split
  · rename_i d' hd
    obtain ⟨hclosed, -, hnone, rfl⟩ := makeUnlessClosed_eq_ok.1 hd
    exact made_put hnone (mem_free.2 ⟨Path.location_mem_way, hclosed⟩)
  · exact .refl _ _

/-- Where nothing can be made, a directory may be there. -/
theorem makeOrKeep_of_error {e : OsError} (h : d.makeUnlessClosed closed base p = .error e) :
    d.makeOrKeep closed base p = (if d.isDirectory base p then .ok () else .error e, d) := by
  rw [makeOrKeep, h]

/-- It succeeds exactly if the way is open, -/
theorem makeOrKeep_eq_ok : (d.makeOrKeep closed base p).1 = .ok () ↔ Open closed d base p := by
  constructor
  · intro h
    cases hmade : d.makeUnlessClosed closed base p with
    | ok d' =>
      obtain ⟨hclosed, hlocate, hnone, -⟩ := makeUnlessClosed_eq_ok.1 hmade
      obtain ⟨htext, hfits, htrail, -⟩ := locate_eq_ok.1 hlocate
      refine ⟨htext, hfits, htrail, ?_, .inl hclosed⟩
      rintro ⟨c, hc⟩
      rw [hnone] at hc
      cases hc
    | error e =>
      rw [makeOrKeep_of_error hmade] at h
      dsimp only at h
      split at h
      · rename_i hd
        obtain ⟨htext, hfits, hway⟩ := isDirectory_iff.1 hd
        have hend := hway _ Path.location_mem_way
        exact ⟨htext, hfits, fun x hx => hway x (Path.mem_way.2 (.inl hx)), hend.not_file,
          .inr hend⟩
      · cases h
  · intro h
    cases hmade : d.makeUnlessClosed closed base p with
    | ok d' => rw [makeOrKeep, hmade]
    | error e =>
      rw [makeOrKeep_of_error hmade]
      have hend : d.HasDirectory (p.location base) := by
        refine h.free.elim (fun hclosed => hasDirectory_of_ne (fun hnone => ?_) h.noFile) id
        rw [makeUnlessClosed_eq_ok.2 ⟨hclosed, h.locate, hnone, rfl⟩] at hmade
        cases hmade
      refine if_pos (isDirectory_iff.2 ⟨h.text, h.fits, fun l hl => ?_⟩)
      rcases Path.mem_way.1 hl with hl | rfl
      · exact h.trail l hl
      · exact hend

/-- and then the directory is there. -/
theorem makeOrKeep_way (h : (d.makeOrKeep closed base p).1 = .ok ()) :
    ∀ l ∈ p.way base, (d.makeOrKeep closed base p).2.HasDirectory l := by
  have hopen := makeOrKeep_eq_ok.1 h
  intro l hl
  rcases Path.mem_way.1 hl with hl | rfl
  · exact makeOrKeep_made.directory (hopen.trail l hl)
  · cases hmade : d.makeUnlessClosed closed base p with
    | ok d' =>
      obtain ⟨-, -, hnone, rfl⟩ := makeUnlessClosed_eq_ok.1 hmade
      rw [makeOrKeep, hmade, HasDirectory, get?_put (ne_nil_of_get?_eq_none hnone), if_pos rfl]
    | error e =>
      rw [makeOrKeep_of_error hmade] at h ⊢
      dsimp only at h
      split at h
      · rename_i hd
        exact (isDirectory_iff.1 hd).2.2 _ Path.location_mem_way
      · cases h

/-- A path that cannot be followed is no directory. -/
theorem makeOrKeep_of_locate {e : OsError} (hc : closed (p.location base) = none)
    (h : d.locate base p = .error e) : (d.makeOrKeep closed base p).1 = .error e := by
  have hmade : d.makeUnlessClosed closed base p = .error e := by
    rw [makeUnlessClosed, hc, makeDirectory, h]
  have hd : d.isDirectory base p = false := by
    rw [isDirectory, stat, h]
  rw [makeOrKeep_of_error hmade]
  exact if_neg (by rw [hd]; exact Bool.false_ne_true)

/-- A file is no directory. -/
theorem makeOrKeep_of_file (hc : closed (p.location base) = none) (h : d.locate base p = .ok l)
    (hf : d.HasFile l) : (d.makeOrKeep closed base p).1 = .error .alreadyExists := by
  have hd : d.isDirectory base p = false := by
    refine Bool.eq_false_iff.2 (fun hd => ?_)
    obtain ⟨-, -, hway⟩ := isDirectory_iff.1 hd
    obtain ⟨-, -, -, rfl⟩ := locate_eq_ok.1 h
    exact (hway _ Path.location_mem_way).not_file hf
  have hmade : d.makeUnlessClosed closed base p = .error .alreadyExists := by
    obtain ⟨c, hfile⟩ := hf
    rw [makeUnlessClosed, hc, makeDirectory, h]
    simp only [hfile]
  rw [makeOrKeep_of_error hmade]
  exact if_neg (by rw [hd]; exact Bool.false_ne_true)

/-! ## Along a path -/

/-- Makes the first of the paths a directory, as `createAlong` does. -/
def makeAlong (closed : Location → Option OsError) (d : Disk) (base : Location) :
    List Path → Except OsError Unit × Disk
  | [] => (.error .noBase, d)
  | p :: ps =>
    if p.text = "" then (.ok (), d)
    else match d.makeUnlessClosed closed base p with
      | .error .notFound =>
        match d.makeAlong closed base ps with
        | (.error e, d') => (.error e, d')
        | (.ok (), d') => d'.makeOrKeep closed base p
      | _ => d.makeOrKeep closed base p

theorem makeAlong_of_empty (h : p.text = "") : d.makeAlong closed base (p :: ps) = (.ok (), d) :=
  if_pos h

theorem makeAlong_of_missing (ht : p.text ≠ "")
    (h : d.makeUnlessClosed closed base p = .error .notFound) :
    d.makeAlong closed base (p :: ps) = match d.makeAlong closed base ps with
      | (.error e, d') => (.error e, d')
      | (.ok (), d') => d'.makeOrKeep closed base p := by
  rw [makeAlong, if_neg ht, h]

theorem makeAlong_of_found (ht : p.text ≠ "")
    (h : d.makeUnlessClosed closed base p ≠ .error .notFound) :
    d.makeAlong closed base (p :: ps) = d.makeOrKeep closed base p := by
  rw [makeAlong, if_neg ht]
  split
  · rename_i he
    exact absurd he h
  · rfl

theorem makeAlong_missing_eq_ok (ht : p.text ≠ "")
    (h : d.makeUnlessClosed closed base p = .error .notFound) :
    (d.makeAlong closed base (p :: ps)).1 = .ok () ↔ (d.makeAlong closed base ps).1 = .ok () ∧
      Open closed (d.makeAlong closed base ps).2 base p := by
  rw [makeAlong_of_missing ht h]
  rcases d.makeAlong closed base ps with ⟨_ | u, d'⟩
  · exact iff_of_false (fun h => nomatch h) fun h => nomatch h.1
  · exact makeOrKeep_eq_ok.trans (and_iff_right rfl).symm

theorem makeAlong_found_eq_ok (ht : p.text ≠ "")
    (h : d.makeUnlessClosed closed base p ≠ .error .notFound) :
    (d.makeAlong closed base (p :: ps)).1 = .ok () ↔ Open closed d base p := by
  rw [makeAlong_of_found ht h, makeOrKeep_eq_ok]

/-- From a directory, points are followed. -/
theorem locate_dots (hb : d.HasDirectory base) (hdots : ∀ n ∈ p.names, n = ".")
    (ht : p.text ≠ "") : d.locate base p ≠ .error .notFound := by
  refine locate_ne_notFound ht fun x hx => ?_
  rw [trail_dots hdots x hx]
  unfold Path.start
  split
  · exact hasDirectory_root d
  · exact hb

/-- Points lead to a directory that is there. -/
theorem makeUnlessClosed_dots (hc : Closes closed base d) (hb : d.HasDirectory base)
    (hdots : ∀ n ∈ p.names, n = ".") (ht : p.text ≠ "") :
    d.makeUnlessClosed closed base p ≠ .error .notFound := by
  intro h
  rcases makeUnlessClosed_eq_notFound.1 h with hclosed | ⟨-, hl⟩
  · refine hc.there ?_ hclosed
    rw [Path.location, place_dots hdots, Path.start]
    split
    · exact hasDirectory_root d
    · exact hb
  · exact locate_dots hb hdots ht hl

/-- Nothing but directories on the way is made. -/
theorem makeAlong_made (hc : Closes closed base d) (hb : d.HasDirectory base) (ha : p.Ascent ps) :
    Made (free closed (p.way base)) d (d.makeAlong closed base (p :: ps)).2 := by
  induction ha with
  | base hdots =>
    rename_i p ps
    by_cases ht : p.text = ""
    · rw [makeAlong_of_empty ht]
      exact .refl _ _
    · rw [makeAlong_of_found ht (makeUnlessClosed_dots hc hb hdots ht)]
      exact makeOrKeep_made
  | step habove _ ih =>
    rename_i p q ps _
    by_cases ht : p.text = ""
    · rw [makeAlong_of_empty ht]
      exact .refl _ _
    · by_cases hl : d.makeUnlessClosed closed base p = .error .notFound
      · rw [makeAlong_of_missing ht hl]
        have hq := ih.mono (free_subset habove.way_subset)
        split
        · rename_i d' he
          rw [he] at hq
          exact hq
        · rename_i d' he
          rw [he] at hq
          exact hq.trans makeOrKeep_made
      · rw [makeAlong_of_found ht hl]
        exact makeOrKeep_made

/-- If it succeeds, all that is on the way is a directory. -/
theorem makeAlong_way (hb : d.HasDirectory base)
    (h : (d.makeAlong closed base (p :: ps)).1 = .ok ()) :
    ∀ l ∈ p.way base, (d.makeAlong closed base (p :: ps)).2.HasDirectory l := by
  by_cases ht : p.text = ""
  · rw [makeAlong_of_empty ht, Path.way_of_text_eq ht]
    intro l hl
    obtain rfl := List.mem_singleton.1 hl
    exact hb
  · by_cases hl : d.makeUnlessClosed closed base p = .error .notFound
    · rw [makeAlong_of_missing ht hl] at h ⊢
      split at h
      · cases h
      · exact makeOrKeep_way h
    · rw [makeAlong_of_found ht hl] at h ⊢
      exact makeOrKeep_way h

theorem makeAlong_text (ht : p.text ≠ "") (h : (d.makeAlong closed base (p :: ps)).1 = .ok ()) :
    p.textFault? = none ∧ ∀ n ∈ p.names, Fits n := by
  by_cases hl : d.makeUnlessClosed closed base p = .error .notFound
  · have hopen := ((makeAlong_missing_eq_ok ht hl).1 h).2
    exact ⟨hopen.text, hopen.fits⟩
  · have hopen := (makeAlong_found_eq_ok ht hl).1 h
    exact ⟨hopen.text, hopen.fits⟩

end

end Disk

end PhpSharp.Files
