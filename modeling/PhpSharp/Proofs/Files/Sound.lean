/-
  Disks stay as systems have them when directories are made and files are replaced.

  * `Sound.insert`: something new in a directory, or in place of a file (`Sound.move`);
  * `Sound.makeAlong`: making directories; what is missing is an entry of one that is there
    (`Sound.entry_of_missing`).
-/
import PhpSharp.Proofs.Files.Replace

namespace PhpSharp.Files.Disk

variable {d d' : Disk} {l base : Location} {p : Path} {ps : List Path} {name : String} {n : Node}

/-- A disk stays sound when something is put into a directory, unless in place of another one. -/
theorem Sound.insert (hd : d.Sound) (hl : d.HasDirectory l) (hn : IsName name)
    (hfree : ¬ d.HasDirectory (l ++ [name]))
    (hget : ∀ k, d'.get? k = if k = l ++ [name] then some n else d.get? k) : d'.Sound := by
  have hkept : ∀ {k}, d.HasDirectory k → d'.HasDirectory k := by
    intro k hk
    rw [HasDirectory, hget, if_neg]
    · exact hk
    · rintro rfl
      exact hfree hk
  have hentry : ∀ {k m}, d'.get? (k ++ [m]) ≠ none → d.HasDirectory k ∧ IsName m := by
    intro k m hthere
    by_cases he : k ++ [m] = l ++ [name]
    · obtain ⟨rfl, hm⟩ := List.append_inj' he rfl
      rw [List.singleton_inj.1 hm]
      exact ⟨hl, hn⟩
    · rw [hget, if_neg he] at hthere
      exact ⟨hd.inDirectory hthere, hd.name hthere⟩
  exact ⟨fun hthere => hkept (hentry hthere).1, fun hthere => (hentry hthere).2⟩

theorem Sound.congr (hd : d.Sound) (hget : ∀ k, d'.get? k = d.get? k) : d'.Sound := by
  refine ⟨fun {l name} hthere => ?_, fun {l name} hthere => ?_⟩
  · rw [HasDirectory, hget]
    exact hd.inDirectory (hget _ ▸ hthere)
  · exact hd.name (hget _ ▸ hthere)

/-- **A path to an entry** leads to a name in a directory. -/
theorem entry_of_locate (hlocate : d.locate base p = .ok (p.location base)) {front : List String}
    {last : String} (hnames : p.names = front ++ [last]) (hdot : last ≠ ".") (hdots : last ≠ "..") :
    ∃ l, p.location base = l ++ [last] ∧ d.HasDirectory l ∧ IsName last := by
  obtain ⟨-, hfits, htrail, -⟩ := locate_eq_ok.1 hlocate
  have hlast : last ∈ p.names := by
    rw [hnames]
    exact List.mem_append_right _ (List.mem_singleton_self _)
  have hlocation : p.location base = onward (place (p.start base) front) last := by
    rw [Path.location, hnames, place_append, place_cons, place_nil]
  obtain ⟨hne, hslash⟩ := Path.of_mem_names hlast
  have hsize := ((hfits last hlast).resolve_left hdot).resolve_left hdots
  exact ⟨_, hlocation.trans (onward_of_ne hdot hdots), htrail _ (Path.place_mem_trail hnames),
    ⟨⟨hne, hslash, hdot, hdots⟩, hsize⟩⟩

/-- **A disk stays sound** when a file is moved to a path, and the directories are still there. -/
theorem Sound.move (hd : d.Sound) (ha : d.moveAnswer base p = .ok ())
    (hget : ∀ k, d'.get? k = if k = p.location base then some n else d.get? k) :
    d'.Sound ∧ ∀ k, d.HasDirectory k → d'.HasDirectory k := by
  obtain ⟨hlocate, hentry, -, hfree⟩ := moveAnswer_eq_ok.1 ha
  have hlast : ∃ front last, p.names = front ++ [last] ∧ last ≠ "." ∧ last ≠ ".." := by
    rcases List.eq_nil_or_concat p.names with hnames | ⟨front, last, hnames⟩
    · rw [namesEntry, hnames] at hentry
      cases hentry
    · rw [List.concat_eq_append] at hnames
      rw [namesEntry, hnames, List.getLast?_concat] at hentry
      exact ⟨front, last, hnames, by simpa using hentry⟩
  obtain ⟨front, last, hnames, hdot, hdots⟩ := hlast
  obtain ⟨l, hlocation, hl, hname⟩ := entry_of_locate hlocate hnames hdot hdots
  refine ⟨hd.insert hl hname (hlocation ▸ hfree) (hlocation ▸ hget), fun k hk => ?_⟩
  rw [HasDirectory, hget, if_neg]
  · exact hk
  · rintro rfl
    exact hfree hk

/-- **What is missing at the end of a path** is an entry of a directory. -/
theorem Sound.entry_of_missing (hd : d.Sound) (hb : d.HasDirectory base)
    (hlocate : d.locate base p = .ok (p.location base)) (hnone : d.get? (p.location base) = none) :
    ∃ l name, p.location base = l ++ [name] ∧ d.HasDirectory l ∧ IsName name := by
  obtain ⟨-, -, htrail, -⟩ := locate_eq_ok.1 hlocate
  have hmissing : ¬ d.HasDirectory (p.location base) := fun h => h.ne_none hnone
  rcases List.eq_nil_or_concat p.names with hnames | ⟨front, last, hnames⟩
  · have hstart : d.HasDirectory (p.start base) := by
      unfold Path.start
      split
      · exact hasDirectory_root d
      · exact hb
    rw [Path.location, hnames] at hmissing
    exact absurd hstart hmissing
  · rw [List.concat_eq_append] at hnames
    have habove : d.HasDirectory (place (p.start base) front) :=
      htrail _ (Path.place_mem_trail hnames)
    have hlocation : p.location base = onward (place (p.start base) front) last := by
      rw [Path.location, hnames, place_append, place_cons, place_nil]
    -- points lead to directories that are there
    have hdot : last ≠ "." := by
      rintro rfl
      rw [hlocation, onward_dot] at hmissing
      exact hmissing habove
    have hdots : last ≠ ".." := by
      rintro rfl
      refine hmissing ?_
      rw [hlocation, onward, if_neg (by decide), if_pos rfl]
      rcases List.eq_nil_or_concat (place (p.start base) front) with he | ⟨above, below, he⟩
      · rw [he]
        exact hasDirectory_root d
      · rw [List.concat_eq_append] at he
        rw [he] at habove ⊢
        rw [List.dropLast_concat]
        exact hd.directory_of_prefix habove
    obtain ⟨l, hentry⟩ := entry_of_locate hlocate hnames hdot hdots
    exact ⟨l, last, hentry⟩

theorem Sound.makeOrKeep (hd : d.Sound) (hb : d.HasDirectory base)
    (closed : Location → Option OsError) (p : Path) : (d.makeOrKeep closed base p).2.Sound := by
  unfold Disk.makeOrKeep
  split
  · rename_i d' hmade
    obtain ⟨-, hlocate, hnone, rfl⟩ := makeUnlessClosed_eq_ok.1 hmade
    obtain ⟨l, name, hlocation, hl, hname⟩ := hd.entry_of_missing hb hlocate hnone
    have hfree : ¬ d.HasDirectory (l ++ [name]) := fun h => h.ne_none (hlocation ▸ hnone)
    refine hd.insert (n := .directory) hl hname hfree fun k => ?_
    rw [get?_put (ne_nil_of_get?_eq_none hnone), hlocation]
  · exact hd

/-- **A disk stays sound** when directories are made. -/
theorem Sound.makeAlong {closed : Location → Option OsError} (hd : d.Sound)
    (hc : Closes closed base d) (hb : d.HasDirectory base) (ha : p.Ascent ps) :
    (d.makeAlong closed base (p :: ps)).2.Sound := by
  induction ha with
  | base hdots =>
    rename_i p ps
    by_cases ht : p.text = ""
    · rwa [makeAlong_of_empty ht]
    · rw [makeAlong_of_found ht (makeUnlessClosed_dots hc hb hdots ht)]
      exact hd.makeOrKeep hb closed p
  | step habove hq ih =>
    rename_i p q ps
    by_cases ht : p.text = ""
    · rwa [makeAlong_of_empty ht]
    · by_cases hl : d.makeUnlessClosed closed base p = .error .notFound
      · rw [makeAlong_of_missing ht hl]
        have hmade := makeAlong_made hc hb hq
        split
        · rename_i d' he
          rwa [he] at ih
        · rename_i d' he
          rw [he] at ih hmade
          exact ih.makeOrKeep (hmade.directory hb) closed p
      · rw [makeAlong_of_found ht hl]
        exact hd.makeOrKeep hb closed p

end PhpSharp.Files.Disk
