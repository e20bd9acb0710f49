/-
  Making a directory when others make directories, too.

  * `Grown closed way d d'`: on `d'` there are the directories of `d` and others, of which none is
    closed, and on `way` there are files where files were;
  * `Straight d base p`: no point leads on from a directory that is missing;
  * `makeAlong_stable`: whether a directory can be made, and why not, is the same on both disks,
    if it can be made on the first one or its way is straight there.
-/
import PhpSharp.Proofs.Files.Directories

namespace PhpSharp.Files.Disk

variable {closed : Location → Option OsError} {d d' : Disk} {l base : Location} {p q : Path}
  {ps : List Path} {way : List Location}

/-- All directories are still there, none was made at a closed location, and on a way there are
    files where files were. -/
structure Grown (closed : Location → Option OsError) (way : List Location) (d d' : Disk) :
    Prop where
  directory : ∀ {l}, d.HasDirectory l → d'.HasDirectory l
  closed : ∀ {l}, closed l ≠ none → d'.HasDirectory l → d.HasDirectory l
  file : ∀ {l}, l ∈ way → (d'.HasFile l ↔ d.HasFile l)

namespace Grown

theorem mono {way' : List Location} (h : Grown closed way d d') (hsub : way' ⊆ way) :
    Grown closed way' d d' :=
  ⟨h.directory, h.closed, fun hl => h.file (hsub hl)⟩

theorem closes (h : Grown closed way d d') (hc : Closes closed base d) : Closes closed base d' :=
  ⟨hc.fits, fun hl hclosed =>
    hc.there (h.closed (by rw [hclosed]; exact Option.some_ne_none _) hl) hclosed⟩

theorem opens (hg : Grown closed (p.way base) d d') (h : Open closed d base p) :
    Open closed d' base p := by
  refine ⟨h.text, h.fits, fun x hx => hg.directory (h.trail x hx), ?_,
    h.free.imp_right hg.directory⟩
  rw [hg.file Path.location_mem_way]
  exact h.noFile

/-! ## What can be made -/

/-- What could be made, once the directory above was, can be made when others have made
    directories. -/
theorem makeAlong_ok_of_missing (hc : Closes closed base d) (hb : d.HasDirectory base)
    (habove : Path.Above q p) (hq : q.Ascent ps) (hg : Grown closed (p.way base) d d')
    (ht : p.text ≠ "") (hl : d.makeUnlessClosed closed base p = .error .notFound)
    (hparent : (d'.makeAlong closed base (q :: ps)).1 = .ok ())
    (h : (d.makeAlong closed base (p :: q :: ps)).1 = .ok ()) :
    (d'.makeAlong closed base (p :: q :: ps)).1 = .ok () := by
  obtain ⟨-, hopen⟩ := (makeAlong_missing_eq_ok ht hl).1 h
  have hmade := makeAlong_made hc hb hq
  have hfree : closed (p.location base) = none := by
    rcases makeUnlessClosed_eq_notFound.1 hl with hsome | ⟨hnone, -⟩
    · exact hopen.free.resolve_right fun hthere => (hc.made hmade).there hthere hsome
    · exact hnone
  -- what is a directory in the end was no file before
  have hnoFile : ∀ x ∈ p.way base, ¬ d'.HasFile x := by
    intro x hx hf
    have hall := makeAlong_made hc hb (.step habove hq)
    exact (makeAlong_way hb h x hx).not_file (hall.file.2 ((hg.file hx).1 hf))
  by_cases hl' : d'.makeUnlessClosed closed base p = .error .notFound
  · have hmade' := makeAlong_made (hg.closes hc) (hg.directory hb) hq
    refine (makeAlong_missing_eq_ok ht hl').2 ⟨hparent, hopen.text, hopen.fits, fun x hx => ?_,
      fun hf => hnoFile _ Path.location_mem_way (hmade'.file.1 hf), .inl hfree⟩
    rcases hmade.new (hopen.trail x hx) with hold | hnew
    · exact hmade'.directory (hg.directory hold)
    · exact makeAlong_way (hg.directory hb) hparent x (mem_free.1 hnew).1
  · refine (makeAlong_found_eq_ok ht hl').2 (.of_noFile hopen.text hopen.fits hfree hnoFile ?_)
    exact fun hmissing => hl' (makeUnlessClosed_eq_notFound.2 (.inr ⟨hfree, hmissing⟩))

/-- **What could be made can be made** when others have made directories. -/
theorem makeAlong_ok (hc : Closes closed base d) (hb : d.HasDirectory base) (ha : p.Ascent ps)
    (hg : Grown closed (p.way base) d d') (h : (d.makeAlong closed base (p :: ps)).1 = .ok ()) :
    (d'.makeAlong closed base (p :: ps)).1 = .ok () := by
  have hb' : d'.HasDirectory base := hg.directory hb
  have hc' : Closes closed base d' := hg.closes hc
  induction ha with
  | base hdots =>
    rename_i p ps
    by_cases ht : p.text = ""
    · rw [makeAlong_of_empty ht]
    · have hopen := (makeAlong_found_eq_ok ht (makeUnlessClosed_dots hc hb hdots ht)).1 h
      have hl' := makeUnlessClosed_dots hc' hb' hdots ht
      exact (makeAlong_found_eq_ok ht hl').2 (hg.opens hopen)
  | step habove hq ih =>
    rename_i p q ps
    by_cases ht : p.text = ""
    · rw [makeAlong_of_empty ht]
    by_cases hl : d.makeUnlessClosed closed base p = .error .notFound
    · have habove' := ((makeAlong_missing_eq_ok ht hl).1 h).1
      have hparent := ih (hg.mono habove.way_subset) habove'
      exact makeAlong_ok_of_missing hc hb habove hq hg ht hl hparent h
    · have hopen := hg.opens ((makeAlong_found_eq_ok ht hl).1 h)
      exact (makeAlong_found_eq_ok ht (hopen.makeUnlessClosed_ne hc')).2 hopen

/-- What is found, and what is in the way, are the same when others have made directories. -/
theorem locate_eq (hg : Grown closed (p.way base) d d')
    (h : d.locate base p ≠ .error .notFound) : d'.locate base p = d.locate base p := by
  cases hl : d.locate base p with
  | ok l =>
    obtain ⟨htext, hfits, htrail, rfl⟩ := locate_eq_ok.1 hl
    exact locate_eq_ok.2 ⟨htext, hfits, fun x hx => hg.directory (htrail x hx), rfl⟩
  | error e =>
    rw [hl] at h
    rw [Disk.locate_eq] at hl ⊢
    cases htext : p.textFault? with
    | some e' =>
      rw [htext] at hl
      exact hl
    | none =>
      rw [htext] at hl
      obtain ⟨before, name, rest, hnames, htrail, hfits, hend⟩ := descend_eq_error hl
      have hmem : place (p.start base) before ∈ p.way base := Path.place_mem_way hnames
      have hsame : d'.descend (p.start base) p.names =
          d'.descend (place (p.start base) before) (name :: rest) := by
        rw [hnames]
        exact descend_append (fun x hx => hg.directory (htrail x hx)) hfits
      simp only
      rcases hend with ⟨-, rfl⟩ | ⟨hfile, rfl⟩ | ⟨hdir, hlong, rfl⟩
      · exact absurd rfl h
      · rw [hsame, descend_cons_file ((hg.file hmem).2 hfile)]
      · rw [hsame, descend_cons_tooLong (hg.directory hdir) hlong]

/-- A closed location is that of a directory when others have made directories, or not, as
    before. -/
theorem isDirectory_eq (hg : Grown closed (p.way base) d d')
    (hc : closed (p.location base) ≠ none) (h : d.locate base p ≠ .error .notFound) :
    d'.isDirectory base p = d.isDirectory base p := by
  refine Bool.eq_iff_iff.2 ⟨fun hd => ?_, isDirectory_mono hg.directory⟩
  obtain ⟨htext, hfits, hway⟩ := isDirectory_iff.1 hd
  have hfound : d'.locate base p = .ok (p.location base) := locate_eq_ok.2
    ⟨htext, hfits, fun x hx => hway x (Path.mem_way.2 (.inl hx)), rfl⟩
  rw [hg.locate_eq h] at hfound
  obtain ⟨-, -, htrail, -⟩ := locate_eq_ok.1 hfound
  refine isDirectory_iff.2 ⟨htext, hfits, fun x hx => ?_⟩
  rcases Path.mem_way.1 hx with hx | rfl
  · exact htrail x hx
  · exact hg.closed hc (hway _ Path.location_mem_way)

/-- Making a directory in one that is found comes to the same when others have made directories. -/
theorem makeOrKeep_eq (hg : Grown closed (p.way base) d d')
    (h : d.locate base p ≠ .error .notFound) :
    (d'.makeOrKeep closed base p).1 = (d.makeOrKeep closed base p).1 := by
  cases hc : closed (p.location base) with
  | some e =>
    have hclosed : ∀ d : Disk, d.makeUnlessClosed closed base p = .error e := fun d => by
      rw [makeUnlessClosed, hc]
    have hne : closed (p.location base) ≠ none := by
      rw [hc]
      exact Option.some_ne_none e
    rw [makeOrKeep_of_error (hclosed d'), makeOrKeep_of_error (hclosed d),
      hg.isDirectory_eq hne h]
  | none =>
    have hsame := hg.locate_eq h
    cases hl : d.locate base p with
    | error e => rw [makeOrKeep_of_locate hc hl, makeOrKeep_of_locate hc (hsame.trans hl)]
    | ok l =>
      obtain ⟨htext, hfits, htrail, rfl⟩ := locate_eq_ok.1 hl
      by_cases hfile : d.HasFile (p.location base)
      · rw [makeOrKeep_of_file hc hl hfile, makeOrKeep_of_file hc (hsame.trans hl)
          ((hg.file Path.location_mem_way).2 hfile)]
      · have hopen : Open closed d base p := ⟨htext, hfits, htrail, hfile, .inl hc⟩
        rw [makeOrKeep_eq_ok.2 hopen, makeOrKeep_eq_ok.2 (hg.opens hopen)]

/-- Making a directory where it is found comes to the same when others have made directories. -/
theorem makeAlong_eq (hg : Grown closed (p.way base) d d') (ht : p.text ≠ "")
    (hc : closed (p.location base) ≠ some .notFound) (h : d.locate base p ≠ .error .notFound) :
    (d'.makeAlong closed base (p :: ps)).1 = (d.makeAlong closed base (p :: ps)).1 := by
  have hfound : ∀ d : Disk, d.locate base p ≠ .error .notFound →
      d.makeUnlessClosed closed base p ≠ .error .notFound := fun d hl hmissing =>
    (makeUnlessClosed_eq_notFound.1 hmissing).elim hc fun hmissing => hl hmissing.2
  rw [makeAlong_of_found ht (hfound d h),
    makeAlong_of_found ht (hfound d' (by rwa [hg.locate_eq h]))]
  exact hg.makeOrKeep_eq h

end Grown

/-! ## Straight ways -/

/-- **No point leads on from a directory that is missing.** -/
def Straight (d : Disk) (base : Location) (p : Path) : Prop :=
  ∀ before rest, p.names = before ++ rest → d.get? (place (p.start base) before) = none →
    ∀ n ∈ rest, n ≠ "." ∧ n ≠ ".."

/-- Below a location where nothing is, nothing is. -/
theorem Sound.get?_append (hd : Sound d) (h : d.get? l = none) (below : Location) :
    d.get? (l ++ below) = none := by
  induction below using List.reverseRecOn with
  | nil => rwa [List.append_nil]
  | append_singleton below name ih =>
    by_contra hne
    rw [← List.append_assoc] at hne
    exact (hd.inDirectory hne).ne_none ih

namespace Straight

/-- A path without points is straight. -/
theorem of_names (h : ∀ n ∈ p.names, n ≠ "." ∧ n ≠ "..") : Straight d base p :=
  fun _ _ hnames _ n hn => h n (hnames ▸ List.mem_append_right _ hn)

/-- A straight path with something missing has no points at its end. -/
theorem behind_eq_nil (hs : Straight d base p) (ht : p.text ≠ "")
    (h : d.locate base p = .error .notFound) {front behind : List String}
    (hnames : p.names = front ++ behind) (hdots : ∀ n ∈ behind, n = ".") : behind = [] := by
  obtain ⟨before, name, rest, hsplit, -, -, hnone⟩ := locate_eq_notFound ht h
  by_contra hne
  have hlast : behind.getLast hne ∈ name :: rest := by
    have hsame : (name :: rest).getLast? = some (behind.getLast hne) := by
      rw [← List.getLast?_append_of_ne_nil before (List.cons_ne_nil _ _), ← hsplit, hnames,
        List.getLast?_append_of_ne_nil front hne, List.getLast?_eq_getLast_of_ne_nil hne]
    exact List.mem_of_getLast? hsame
  exact (hs before _ hsplit hnone _ hlast).1 (hdots _ (List.getLast_mem hne))

/-- A path to a directory on a straight way is straight. -/
theorem above (hs : Straight d base p) (h : Path.Above q p) : Straight d base q := by
  obtain ⟨before', name, behind, hnames, -⟩ := h.names
  intro before rest hsplit hnone n hn
  have hstart : q.start base = p.start base := by rw [Path.start, Path.start, h.absolute]
  refine hs before (rest ++ (before' ++ name :: behind)) ?_ (hstart ▸ hnone) n
    (List.mem_append_left _ hn)
  rw [hnames, hsplit]
  simp

/-- A straight path is straight when others have made directories. -/
theorem grown (hs : Straight d base p) (hg : Grown closed (p.way base) d d') :
    Straight d' base p := by
  intro before rest hnames hnone
  refine hs before rest hnames ?_
  by_contra hne
  by_cases hfile : d.HasFile (place (p.start base) before)
  · obtain ⟨c, hc⟩ := (hg.file (Path.place_mem_way hnames)).2 hfile
    rw [hnone] at hc
    cases hc
  · exact (hg.directory (hasDirectory_of_ne hne hfile)).ne_none hnone

/-- Nothing is where a straight way to something missing leads, and no file is on it. -/
theorem missing (hd : Sound d) (hs : Straight d base p) (ht : p.text ≠ "")
    (h : d.locate base p = .error .notFound) :
    d.get? (p.location base) = none ∧ ∀ x ∈ p.way base, ¬ d.HasFile x := by
  obtain ⟨before, name, rest, hnames, htrail, -, hnone⟩ := locate_eq_notFound ht h
  have hstraight := hs before _ hnames hnone
  have hbelow : ∀ below, d.get? (place (p.start base) before ++ below) = none := fun below =>
    hd.get?_append hnone below
  have hend : p.location base = place (p.start base) before ++ name :: rest := by
    rw [Path.location, hnames, place_append, place_straight hstraight]
  have hempty : ∀ {x}, d.get? x = none → ¬ d.HasFile x := by
    rintro x hx ⟨c, hc⟩
    cases hx.symm.trans hc
  refine ⟨hend ▸ hbelow _, fun x hx => ?_⟩
  rw [Path.mem_way, Path.trail, hnames, trail_append, List.mem_append] at hx
  rcases hx with (hx | hx) | rfl
  · exact (htrail x hx).not_file
  · obtain ⟨below, -, rfl⟩ := trail_straight hstraight x hx
    exact hempty (hbelow below)
  · exact hempty (hend ▸ hbelow _)

/-- Nor is a file on it when others have made directories. -/
theorem noFile (hd : Sound d) (hs : Straight d base p) (ht : p.text ≠ "")
    (h : d.locate base p = .error .notFound) (hg : Grown closed (p.way base) d d') :
    ∀ x ∈ p.way base, ¬ d'.HasFile x := fun x hx hf =>
  (hs.missing hd ht h).2 x hx ((hg.file hx).1 hf)

/-- Where a straight way leads to something missing, the directory above it is missing, too, and
    if its path has a name that is too long, then that is one of its location. -/
theorem above_missing (hd : Sound d) (hs : Straight d base p) (ht : p.text ≠ "")
    (h : d.locate base p = .error .notFound) (ha : Path.Above q p) :
    d.get? (q.location base) = none ∧ ∀ n ∈ q.names, ¬ Fits n → n ∈ q.location base := by
  obtain ⟨dots, last, behind, hnames, hdots, -, hbehind⟩ := ha.names
  have hfront : p.names = (q.names ++ dots ++ [last]) ++ behind := by
    rw [hnames]
    simp
  obtain rfl := hs.behind_eq_nil ht h hfront hbehind
  obtain ⟨before, name, rest, hsplit, -, hfits, hnone⟩ := locate_eq_notFound ht h
  have hstraight := hs before _ hsplit hnone
  have hstart : q.start base = p.start base := by rw [Path.start, Path.start, ha.absolute]
  rw [hnames, List.append_assoc, List.append_eq_append_iff] at hsplit
  rcases hsplit with ⟨more, rfl, hmore⟩ | ⟨below, hbelow, hrest⟩
  · -- nothing but points leads on to the missing directory
    have hsame : place (p.start base) (q.names ++ more) = q.location base := by
      have hmore' : more <+: dots := by
        have hall : more <+: dots ++ [last] := ⟨_, hmore.symm⟩
        refine List.prefix_of_prefix_length_le hall (List.prefix_append ..) ?_
        have hlength := congrArg List.length hmore
        simp only [List.length_append, List.length_cons, List.length_nil] at hlength
        omega
      rw [place_append, place_dots fun n hn => hdots n (hmore'.subset hn), ← hstart]
      rfl
    exact ⟨hsame ▸ hnone, fun n hn hlong => absurd (hfits n (List.mem_append_left _ hn)) hlong⟩
  · have hend : q.location base = place (p.start base) before ++ below := by
      rw [Path.location, hbelow, hstart, place_append, place_straight fun n hn =>
        hstraight n (hrest ▸ List.mem_append_left _ hn)]
    refine ⟨hend ▸ hd.get?_append hnone below, fun n hn hlong => ?_⟩
    rw [hend]
    rcases List.mem_append.1 (hbelow ▸ hn) with hn | hn
    · exact absurd (hfits n hn) hlong
    · exact List.mem_append_right _ hn

end Straight

/-! ## The same answer -/

/-- The answer where nothing but a long name can be in the way. -/
def nameAnswer (p : Path) : Except OsError Unit :=
  if ∀ n ∈ p.names, Fits n then .ok () else .error .nameTooLong

theorem makeUnlessClosed_of_open (hc : closed (p.location base) = none)
    (h : d.locate base p ≠ .error .notFound) :
    d.makeUnlessClosed closed base p ≠ .error .notFound := fun hmissing =>
  (makeUnlessClosed_eq_notFound.1 hmissing).elim (fun hsome => nomatch hc.symm.trans hsome)
    fun hmissing => h hmissing.2

/-- Where nothing is missing and no file is in the way, only a long name can be. -/
theorem makeOrKeep_of_noFile (hc : closed (p.location base) = none) (ht : p.textFault? = none)
    (hf : ∀ x ∈ p.way base, ¬ d.HasFile x) (hfound : d.locate base p ≠ .error .notFound) :
    (d.makeOrKeep closed base p).1 = nameAnswer p := by
  unfold nameAnswer
  rcases locate_cases ht (fun x hx => hf x (Path.mem_way.2 (.inl hx))) with
    hl | hl | ⟨hl, n, hn, hlong⟩
  · obtain ⟨htext, hfits, hdirs, -⟩ := locate_eq_ok.1 hl
    rw [if_pos hfits]
    exact makeOrKeep_eq_ok.2 ⟨htext, hfits, hdirs, hf _ Path.location_mem_way, .inl hc⟩
  · exact absurd hl hfound
  · rw [if_neg fun hfits => hlong (hfits n hn)]
    exact makeOrKeep_of_locate hc hl

/-- The answer once the directory above is made. -/
def answerBelow (above : Except OsError Unit) (p : Path) : Except OsError Unit :=
  above.bind fun _ => nameAnswer p

theorem answerBelow_nameAnswer (h : q.names ⊆ p.names) :
    answerBelow (nameAnswer q) p = nameAnswer p := by
  by_cases hfits : ∀ n ∈ q.names, Fits n
  · rw [nameAnswer, if_pos hfits]
    rfl
  · have hlong : ¬∀ n ∈ p.names, Fits n := fun hall => hfits fun n hn => hall n (h hn)
    rw [nameAnswer, if_neg hfits, nameAnswer, if_neg hlong]
    rfl

/-- What comes of making the directory at the end of a straight way, of which one is missing. -/
theorem makeAlong_of_above (hc : Closes closed base d) (hb : d.HasDirectory base)
    (ha : Path.Above q p) (hq : q.Ascent ps) (ht : p.textFault? = none) (hne : p.text ≠ "")
    (hopen : closed (p.location base) = none) (hf : ∀ x ∈ p.way base, ¬ d.HasFile x)
    (hdots : ∀ {front behind}, p.names = front ++ behind → (∀ n ∈ behind, n = ".") → behind = [])
    (hl : d.locate base p = .error .notFound) :
    (d.makeAlong closed base (p :: q :: ps)).1 =
      answerBelow (d.makeAlong closed base (q :: ps)).1 p := by
  rw [makeAlong_of_missing hne (makeUnlessClosed_eq_notFound.2 (.inr ⟨hopen, hl⟩))]
  have hmade := makeAlong_made hc hb hq
  have hway : (d.makeAlong closed base (q :: ps)).1 = .ok () → _ := makeAlong_way hb
  rcases hmakes : d.makeAlong closed base (q :: ps) with ⟨_ | u, d'⟩
  · rfl
  · rw [hmakes] at hmade hway
    refine makeOrKeep_of_noFile hopen ht (fun x hx hfe => hf x hx (hmade.file.1 hfe))
      (locate_ne_notFound hne fun x hx => ?_)
    -- what is passed on the way to the last name is passed on the way to the parent
    obtain ⟨before, name, behind, hnames, hbefore, -, hbehind⟩ := ha.names
    have hfront : p.names = (q.names ++ before ++ [name]) ++ behind := by
      rw [hnames]
      simp
    obtain rfl := hdots hfront hbehind
    refine hway rfl x ?_
    rw [Path.trail, hnames, Path.start, ← ha.absolute, List.append_assoc, trail_append,
      trail_append] at hx
    rcases List.mem_append.1 hx with hx | hx
    · exact Path.mem_way.2 (.inl hx)
    · refine Path.mem_way.2 (.inr ?_)
      rcases List.mem_append.1 hx with hx | hx
      · exact trail_dots hbefore x hx
      · rw [place_dots hbefore] at hx
        exact List.mem_singleton.1 hx

/-- Where nothing may be made and no directory is, none is there in the end. -/
theorem makeAlong_of_closed {e : OsError} (hc : Closes closed base d) (hb : d.HasDirectory base)
    (hq : q.Ascent ps) (ht : p.text ≠ "") (hclosed : closed (p.location base) = some e)
    (hdir : ¬ d.HasDirectory (p.location base)) :
    (d.makeAlong closed base (p :: q :: ps)).1 =
      if e = .notFound then (d.makeAlong closed base (q :: ps)).1.bind fun _ => .error .notFound
      else .error e := by
  have hrefused : ∀ d : Disk, d.makeUnlessClosed closed base p = .error e := fun d => by
    rw [makeUnlessClosed, hclosed]
  have hkeep : ∀ {d : Disk}, ¬ d.HasDirectory (p.location base) →
      (d.makeOrKeep closed base p).1 = .error e := fun {d} hdir => by
    rw [makeOrKeep_of_error (hrefused d)]
    exact if_neg fun hd => hdir ((isDirectory_iff.1 hd).2.2 _ Path.location_mem_way)
  by_cases he : e = .notFound
  · subst he
    rw [if_pos rfl, makeAlong_of_missing ht (hrefused d)]
    have hmade := makeAlong_made hc hb hq
    rcases hmakes : d.makeAlong closed base (q :: ps) with ⟨_ | u, d'⟩
    · rfl
    · rw [hmakes] at hmade
      refine hkeep fun hnew => ?_
      rcases hmade.new hnew with hold | hfree
      · exact hdir hold
      · cases hclosed.symm.trans (mem_free.1 hfree).2
  · rw [if_neg he, makeAlong_of_found ht (by rw [hrefused]; simpa using he)]
    exact hkeep hdir

/-- **A directory above is found,** and is there, if what is below it is found. -/
theorem found_above (ha : Path.Above q p) (ht : p.textFault? = none) (hne : q.text ≠ "")
    (h : d.locate base p ≠ .error .notFound) :
    d.locate base q ≠ .error .notFound ∧
      (d.locate base q = .ok (q.location base) → d.get? (q.location base) ≠ none) := by
  obtain ⟨dots, last, behind, hnames, -⟩ := ha.names
  have hstart : q.start base = p.start base := by rw [Path.start, Path.start, ha.absolute]
  constructor
  · intro hmissing
    obtain ⟨before, name, rest, hsplit, htrail, hfits, hnone⟩ := locate_eq_notFound hne hmissing
    rw [hstart] at htrail hnone
    have hfront : p.names = before ++ name :: (rest ++ (dots ++ last :: behind)) := by
      rw [hnames, hsplit]
      simp
    exact h (locate_of_missing ht hfront htrail hfits hnone)
  · intro hfound hnone
    obtain ⟨-, hfits, htrail, -⟩ := locate_eq_ok.1 hfound
    rw [Path.location, hstart] at hnone
    rw [Path.trail, hstart] at htrail
    have hfront : ∃ name rest, p.names = q.names ++ name :: rest := by
      rw [hnames, List.append_assoc]
      cases dots <;> exact ⟨_, _, rfl⟩
    obtain ⟨name, rest, hfront⟩ := hfront
    exact h (locate_of_missing ht hfront htrail hfits hnone)

section
variable (hc : Closes closed base d) (hd : Sound d) (hb : d.HasDirectory base)
include hc hd

/-- What is found below a directory on a straight way, when it was missing, was not closed. -/
theorem Grown.above_open (hg : Grown closed (p.way base) d d') (hs : Straight d base p)
    (ht : p.textFault? = none) (hne : p.text ≠ "") (hneq : q.text ≠ "") (ha : Path.Above q p)
    (hl : d.locate base p = .error .notFound) (hl' : d'.locate base p ≠ .error .notFound) :
    closed (q.location base) = none := by
  obtain ⟨hmissing, hlong⟩ := hs.above_missing hd hne hl ha
  obtain ⟨hfound, hthere⟩ := found_above ha ht hneq hl'
  have hnoFile : ∀ x ∈ q.way base, ¬ d'.HasFile x := fun x hx =>
    hs.noFile hd hne hl hg x (ha.way_subset hx)
  by_contra hclosed
  rcases locate_cases (d := d') (ha.textFault?_eq_none ht hneq)
    (fun x hx => hnoFile x (Path.mem_way.2 (.inl hx))) with hok | hno | ⟨-, n, hn, hlong'⟩
  · have hdir : d'.HasDirectory (q.location base) :=
      hasDirectory_of_ne (hthere hok) (hnoFile _ Path.location_mem_way)
    exact (hg.closed hclosed hdir).ne_none hmissing
  · exact hfound hno
  · exact hlong' (hc.fits hclosed n (hlong n hn hlong'))

/-- Where the directory above can be followed to, what comes of making it leads to what comes of
    making the one below. -/
theorem Grown.answer_above (hg : Grown closed (p.way base) d d') (hs : Straight d base p)
    (ht : p.textFault? = none) (hne : p.text ≠ "") (ha : Path.Above q p)
    (hl : d.locate base p = .error .notFound) (hl' : d'.locate base p ≠ .error .notFound) :
    answerBelow (d'.makeAlong closed base (q :: ps)).1 p = nameAnswer p := by
  by_cases hneq : q.text = ""
  · rw [makeAlong_of_empty hneq]
    rfl
  have hopen := hg.above_open hc hd hs ht hne hneq ha hl hl'
  have hfound := (found_above ha ht hneq hl').1
  have hnoFile : ∀ x ∈ q.way base, ¬ d'.HasFile x := fun x hx =>
    hs.noFile hd hne hl hg x (ha.way_subset hx)
  have hsub : q.names ⊆ p.names := by
    obtain ⟨dots, last, behind, hnames, -⟩ := ha.names
    rw [hnames, List.append_assoc]
    exact List.subset_append_left ..
  rw [makeAlong_of_found hneq (makeUnlessClosed_of_open hopen hfound),
    makeOrKeep_of_noFile hopen (ha.textFault?_eq_none ht hneq) hnoFile hfound,
    answerBelow_nameAnswer hsub]

include hb

/-- What comes of making a directory that is missing on a straight way is the same when others have
    made directories, if so it is with the directory above. -/
theorem Grown.makeAlong_eq_of_missing (hg : Grown closed (p.way base) d d')
    (hs : Straight d base p) (ht : p.text ≠ "") (ha : Path.Above q p) (hq : q.Ascent ps)
    (hopen : closed (p.location base) = none) (hl : d.locate base p = .error .notFound)
    (hparent : (d'.makeAlong closed base (q :: ps)).1 = (d.makeAlong closed base (q :: ps)).1) :
    (d'.makeAlong closed base (p :: q :: ps)).1 = (d.makeAlong closed base (p :: q :: ps)).1 := by
  have htext := textFault?_of_notFound ht hl
  have hnoFile' := hs.noFile hd ht hl hg
  have hbehind : ∀ {front behind}, p.names = front ++ behind →
      (∀ n ∈ behind, n = ".") → behind = [] := hs.behind_eq_nil ht hl
  rw [makeAlong_of_above hc hb ha hq htext ht hopen (hs.missing hd ht hl).2 hbehind hl]
  by_cases hl' : d'.locate base p = .error .notFound
  · rw [makeAlong_of_above (hg.closes hc) (hg.directory hb) ha hq htext ht hopen hnoFile' hbehind
      hl', hparent]
  · rw [makeAlong_of_found ht (makeUnlessClosed_of_open hopen hl'),
      makeOrKeep_of_noFile hopen htext hnoFile' hl', ← hparent,
      hg.answer_above hc hd hs htext ht ha hl hl']

/-- **Whether a directory can be made on a straight way, and why not, is the same** when others have
    made directories. -/
theorem makeAlong_straight (ha : p.Ascent ps) (hg : Grown closed (p.way base) d d')
    (hs : Straight d base p) :
    (d'.makeAlong closed base (p :: ps)).1 = (d.makeAlong closed base (p :: ps)).1 := by
  have hb' : d'.HasDirectory base := hg.directory hb
  have hc' : Closes closed base d' := hg.closes hc
  induction ha with
  | base hdots =>
    rename_i p ps
    by_cases ht : p.text = ""
    · rw [makeAlong_of_empty ht, makeAlong_of_empty ht]
    · rw [makeAlong_of_found ht (makeUnlessClosed_dots hc hb hdots ht),
        makeAlong_of_found ht (makeUnlessClosed_dots hc' hb' hdots ht)]
      exact hg.makeOrKeep_eq (locate_dots hb hdots ht)
  | step habove hq ih =>
    rename_i p q ps
    by_cases ht : p.text = ""
    · rw [makeAlong_of_empty ht, makeAlong_of_empty ht]
    have hparent := ih (hg.mono habove.way_subset) (hs.above habove)
    cases hclosed : closed (p.location base) with
    | some e =>
      have hsome : closed (p.location base) ≠ none := by
        rw [hclosed]
        exact Option.some_ne_none e
      by_cases hdir : d.HasDirectory (p.location base)
      · have hl : d.locate base p ≠ .error .notFound := fun hl =>
          hdir.ne_none (hs.missing hd ht hl).1
        exact hg.makeAlong_eq ht (hc.there hdir) hl
      · have hdir' : ¬ d'.HasDirectory (p.location base) := fun h => hdir (hg.closed hsome h)
        rw [makeAlong_of_closed hc hb hq ht hclosed hdir,
          makeAlong_of_closed hc' hb' hq ht hclosed hdir', hparent]
    | none =>
      by_cases hl : d.locate base p = .error .notFound
      · exact hg.makeAlong_eq_of_missing hc hd hb hs ht habove hq hclosed hl hparent
      · exact hg.makeAlong_eq ht (by simp [hclosed]) hl

/-- **Whether a directory can be made, and why not, is the same** when others have made
    directories, if it can be made or the way to it is straight. -/
theorem makeAlong_stable (hg : Grown closed (p.way base) d d')
    (h : (d.makeAlong closed base (p :: p.parents)).1 = .ok () ∨ Straight d base p) :
    (d'.makeAlong closed base (p :: p.parents)).1 =
      (d.makeAlong closed base (p :: p.parents)).1 := by
  have ha := Path.ascent_parents p
  rcases h with hok | hs
  · rw [hok, hg.makeAlong_ok hc hb ha hok]
  · exact makeAlong_straight hc hd hb ha hg hs

end

end PhpSharp.Files.Disk
