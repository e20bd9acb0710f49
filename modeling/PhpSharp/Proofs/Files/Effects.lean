/-
  What is left of a disk after directories were made on some ways and files were written.

  * `After ways writes d d'`: every directory of `d` is still there, others are on `ways`, and the
    files are those of `writes` and, elsewhere, those of `d`;
  * `After.make`, `After.write`: making directories and writing a file keep this;
  * `After.readText_eq`: a file that was not written is read as before.
-/
import PhpSharp.Proofs.Files.Grown
import PhpSharp.Proofs.Files.Replace

namespace PhpSharp.Files.Disk

variable {ways way : List Location} {writes : List (Location × Content)} {d d' d'' : Disk}
  {l base : Location} {c : Content} {p : Path}

/-- **Directories were made on some ways, and files were written.** -/
structure After (ways : List Location) (writes : List (Location × Content)) (d d' : Disk) :
    Prop where
  directory : ∀ {l}, d.HasDirectory l → d'.HasDirectory l
  made : ∀ {l}, d'.HasDirectory l → d.HasDirectory l ∨ l ∈ ways
  file : ∀ {l c}, d'.get? l = some (.file c) ↔
    (l, c) ∈ writes ∨ (∀ c', (l, c') ∉ writes) ∧ d.get? l = some (.file c)

theorem After.refl (ways : List Location) (d : Disk) : After ways [] d d :=
  ⟨id, .inl, by simp⟩

theorem After.make (h : After ways writes d d') (hm : Made way d' d'') (hsub : way ⊆ ways) :
    After ways writes d d'' := by
  refine ⟨fun hl => hm.directory (h.directory hl), fun hl => ?_, fun {l c} => ?_⟩
  · rcases hm.new hl with hl | hl
    · exact h.made hl
    · exact .inr (hsub hl)
  · rw [hm.file_eq, h.file]

theorem After.congr (h : After ways writes d d') (he : ∀ k, d''.get? k = d'.get? k) :
    After ways writes d d'' := by
  have hdir : ∀ l, d''.HasDirectory l ↔ d'.HasDirectory l := fun l => by
    rw [HasDirectory, he, HasDirectory]
  refine ⟨fun hl => (hdir _).2 (h.directory hl), fun hl => h.made ((hdir _).1 hl), fun {l c} => ?_⟩
  rw [he, h.file]

theorem After.write (h : After ways writes d d') (hnew : ∀ c', (l, c') ∉ writes)
    (hl : ¬ d'.HasDirectory l)
    (he : ∀ k, d''.get? k = if k = l then some (.file c) else d'.get? k) :
    After ways (writes ++ [(l, c)]) d d'' := by
  refine ⟨fun {k} hk => ?_, fun {k} hk => ?_, fun {k c'} => ?_⟩
  · have hk' := h.directory hk
    rw [HasDirectory, he, if_neg]
    · exact hk'
    · rintro rfl
      exact hl hk'
  · rw [HasDirectory, he] at hk
    split at hk
    · cases hk
    · exact h.made hk
  · rw [he]
    by_cases hk : k = l
    · subst hk
      rw [if_pos rfl]
      constructor
      · intro hc
        cases hc
        simp
      · rintro (hmem | ⟨hnone, -⟩)
        · rcases List.mem_append.1 hmem with hmem | hmem
          · exact absurd hmem (hnew c')
          · obtain ⟨-, rfl⟩ := Prod.mk.inj (List.mem_singleton.1 hmem)
            rfl
        · exact absurd (by simp) (hnone c)
    · rw [if_neg hk, h.file]
      simp [hk]

/-- Nothing was written on a way: to those who make directories there, where it is not closed, it is
    as before. -/
theorem After.grown {closed : Location → Option OsError} (h : After (free closed ways) writes d d')
    (hsub : way ⊆ ways) (hno : ∀ l ∈ ways, ∀ c, (l, c) ∉ writes) : Grown closed way d d' := by
  refine ⟨h.directory, fun {l} hclosed hl => ?_, fun {l} hl => exists_congr fun c => ?_⟩
  · exact (h.made hl).resolve_right fun hmem => hclosed (mem_free.1 hmem).2
  · have hnone := hno l (hsub hl)
    rw [h.file]
    simp [hnone]

/-- What was not written is as it was, or a directory where nothing was. -/
theorem After.get? (h : After ways writes d d') (hno : ∀ c, (l, c) ∉ writes) :
    d'.get? l = d.get? l ∨ d.get? l = none ∧ d'.HasDirectory l := by
  have hfile : ∀ c, d'.get? l = some (.file c) ↔ d.get? l = some (.file c) := by
    intro c
    rw [h.file]
    simp [hno]
  cases hd : d.get? l with
  | some node =>
    cases node with
    | file c => exact .inl ((hfile c).2 hd)
    | directory => exact .inl (h.directory hd)
  | none =>
    cases hd' : d'.get? l with
    | none => exact .inl rfl
    | some node =>
      cases node with
      | file c =>
        rw [(hfile c).1 hd'] at hd
        cases hd
      | directory => exact .inr ⟨rfl, hd'⟩

/-! ## Reading -/

/-- What is read from what is at a location. -/
def textAt : Option Node → Except OsError String
  | none => .error .notFound
  | some .directory => .error .isDirectory
  | some (.file (.text s)) => .ok s
  | some (.file (.binary _)) => .error .notText

/-- A file is read by a path that does not ask for a directory. -/
theorem readText_of_file (hl : d.locate base p = .ok l) (hf : d.get? l = some (.file c))
    (hs : p.endsWithSlash = false) : d.readText base p = textAt (some (.file c)) := by
  unfold Disk.readText stat
  rw [hl]
  simp only [hf, hs, Bool.false_eq_true, if_false]
  cases c <;> rfl

/-- An entry of a directory that is there is read, unless its path is at fault. -/
theorem Reaches.readText (h : Reaches d base p) {name : String} (hn : IsEntry name) :
    d.readText base (p.entry name) = match (p.entry name).textFault? with
      | some e => .error e
      | none =>
        if name.utf8ByteSize ≤ maxName then textAt (d.get? (p.location base ++ [name]))
        else .error .nameTooLong := by
  have hslash := Path.endsWithSlash_entry (p := p) hn.noSlash hn.ne_empty
  unfold Disk.readText stat
  rw [h.locate_entry hn]
  cases (p.entry name).textFault? with
  | some e => rfl
  | none =>
    by_cases hsize : name.utf8ByteSize ≤ maxName
    · simp only [if_pos hsize, hslash, Bool.false_eq_true, if_false]
      cases d.get? (p.location base ++ [name]) with
      | none => rfl
      | some node =>
        cases node with
        | directory => rfl
        | file c => cases c <;> rfl
    · simp only [if_neg hsize]

/-- An entry of a directory that is there is a directory exactly if its path is not at fault and a
    directory is at its place. -/
theorem Reaches.isDirectory_entry (h : Reaches d base p) {name : String} (hn : IsEntry name) :
    d.isDirectory base (p.entry name) = true ↔ (p.entry name).textFault? = none ∧
      name.utf8ByteSize ≤ maxName ∧ d.HasDirectory (p.location base ++ [name]) := by
  have hslash := Path.endsWithSlash_entry (p := p) hn.noSlash hn.ne_empty
  unfold Disk.isDirectory stat HasDirectory
  rw [h.locate_entry hn]
  cases (p.entry name).textFault? with
  | some e => simp
  | none =>
    by_cases hsize : name.utf8ByteSize ≤ maxName
    · simp only [if_pos hsize, hslash, Bool.false_eq_true, if_false]
      cases d.get? (p.location base ++ [name]) with
      | none => simp
      | some node => cases node <;> simp [hsize]
    · simp [hsize]

/-- **An entry that is as it was** is read as before, also if it is a directory now and was
    missing: then there is no text in either case. -/
theorem Reaches.readText_eq (hr : Reaches d base p) (hr' : Reaches d' base p) {name : String}
    (hn : IsEntry name)
    (h : d'.get? (p.location base ++ [name]) = d.get? (p.location base ++ [name]) ∨
      d.get? (p.location base ++ [name]) = none ∧ d'.HasDirectory (p.location base ++ [name])) :
    d'.readText base (p.entry name) = d.readText base (p.entry name) ∨
      d.get? (p.location base ++ [name]) = none ∧
        (∀ text, d'.readText base (p.entry name) ≠ .ok text) ∧
        ∀ text, d.readText base (p.entry name) ≠ .ok text := by
  rw [hr'.readText hn, hr.readText hn]
  rcases h with he | ⟨hnone, hdir⟩
  · exact .inl (by rw [he])
  · have hfault : ∀ {e : OsError} (text : String),
        (.error e : Except OsError String) ≠ .ok text := by
      intro e text he
      cases he
    refine .inr ⟨hnone, ?_⟩
    rw [HasDirectory] at hdir
    rw [hdir, hnone]
    cases (p.entry name).textFault? with
    | some e => exact ⟨hfault, hfault⟩
    | none =>
      by_cases hsize : name.utf8ByteSize ≤ maxName
      · simp only [if_pos hsize]
        exact ⟨hfault, hfault⟩
      · simp only [if_neg hsize]
        exact ⟨hfault, hfault⟩

/-- The text of such an entry is the same text, or missing still. -/
theorem Reaches.toOption_readText_eq (hr : Reaches d base p) (hr' : Reaches d' base p)
    {name : String} (hn : IsEntry name)
    (h : d'.get? (p.location base ++ [name]) = d.get? (p.location base ++ [name]) ∨
      d.get? (p.location base ++ [name]) = none ∧ d'.HasDirectory (p.location base ++ [name])) :
    (d'.readText base (p.entry name)).toOption = (d.readText base (p.entry name)).toOption := by
  have hnone : ∀ {r : Except OsError String}, (∀ text, r ≠ .ok text) → r.toOption = none := by
    intro r hr
    cases r with
    | error e => rfl
    | ok text => exact absurd rfl (hr text)
  rcases hr.readText_eq hr' hn h with he | ⟨-, hd', hd⟩
  · rw [he]
  · rw [hnone hd', hnone hd]

theorem After.reaches (h : After ways writes d d') (hr : Reaches d base p) : Reaches d' base p :=
  hr.mono h.directory

/-- **What was not written is read as before,** or is a directory now that was missing. -/
theorem After.readText_eq (h : After ways writes d d') (hr : Reaches d base p) {name : String}
    (hn : IsEntry name) (hno : ∀ c, (p.location base ++ [name], c) ∉ writes) :
    d'.readText base (p.entry name) = d.readText base (p.entry name) ∨
      d.get? (p.location base ++ [name]) = none ∧
        (∀ text, d'.readText base (p.entry name) ≠ .ok text) ∧
        ∀ text, d.readText base (p.entry name) ≠ .ok text :=
  hr.readText_eq (h.reaches hr) hn (h.get? hno)

/-- A text that was not written is the same text, or missing still. -/
theorem After.toOption_readText (h : After ways writes d d') (hr : Reaches d base p)
    {name : String} (hn : IsEntry name) (hno : ∀ c, (p.location base ++ [name], c) ∉ writes) :
    (d'.readText base (p.entry name)).toOption = (d.readText base (p.entry name)).toOption :=
  hr.toOption_readText_eq (h.reaches hr) hn (h.get? hno)

end PhpSharp.Files.Disk
