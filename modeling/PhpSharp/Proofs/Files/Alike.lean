/-
  Disks that differ in what some files hold, and in the order of what is in their directories.

  * `Alike changed d d'`: there are the same files and directories, and but for the files that are
    `changed` they hold the same;
  * `Alike.readText_eq`: a file that is not changed is read as before;
  * `alike_put`, `alike_of_perm`: such a disk is that with another content in a file, and that with
    its entries in another order.
-/
import PhpSharp.Proofs.Files.Elsewhere

namespace PhpSharp.Files.Disk

variable {changed : Location → Prop} {d d' : Disk} {l base : Location} {p : Path} {name : String}

/-- **There are the same files and directories,** perhaps in another order, and the same is in all
    files but those that are changed. -/
structure Alike (changed : Location → Prop) (d d' : Disk) : Prop where
  get? : ∀ l, d'.get? l = d.get? l ∨ changed l ∧ d.HasFile l ∧ d'.HasFile l
  children : ∀ l, (d'.children l).Perm (d.children l)

namespace Alike

theorem directory (h : Alike changed d d') : d'.HasDirectory l ↔ d.HasDirectory l := by
  rcases h.get? l with hsame | ⟨-, hfile, hfile'⟩
  · rw [HasDirectory, HasDirectory, hsame]
  · exact iff_of_false (fun hdir => hdir.not_file hfile') fun hdir => hdir.not_file hfile

theorem file (h : Alike changed d d') : d'.HasFile l ↔ d.HasFile l := by
  rcases h.get? l with hsame | ⟨-, hfile, hfile'⟩
  · rw [HasFile, HasFile, hsame]
  · exact iff_of_true hfile' hfile

theorem there (h : Alike changed d d') : d'.get? l ≠ none ↔ d.get? l ≠ none := by
  rcases h.get? l with hsame | ⟨-, ⟨c, hc⟩, ⟨c', hc'⟩⟩
  · rw [hsame]
  · rw [hc, hc']
    exact iff_of_true (Option.some_ne_none _) (Option.some_ne_none _)

theorem get?_eq (h : Alike changed d d') (hl : ¬ changed l) : d'.get? l = d.get? l :=
  (h.get? l).resolve_right fun hc => hl hc.1

theorem sound (h : Alike changed d d') (hd : d.Sound) : d'.Sound :=
  ⟨fun hthere => h.directory.2 (hd.inDirectory (h.there.1 hthere)), fun hthere =>
    hd.name (h.there.1 hthere)⟩

/-- To those who make directories the disks are the same. -/
theorem grown (h : Alike changed d d') (closed : Location → Option OsError) (way : List Location) :
    Grown closed way d d' :=
  ⟨h.directory.2, fun _ => h.directory.1, fun _ => h.file⟩

theorem isDirectory_eq (h : Alike changed d d') : d'.isDirectory base p = d.isDirectory base p := by
  rw [Bool.eq_iff_iff, isDirectory_iff, isDirectory_iff]
  simp only [h.directory]

/-- **A file that is not changed** is read as before. -/
theorem readText_eq (h : Alike changed d d') (hr : Reaches d base p) (hn : IsEntry name)
    (hl : ¬ changed (p.location base ++ [name])) :
    d'.readText base (p.entry name) = d.readText base (p.entry name) := by
  have hr' : Reaches d' base p := hr.mono h.directory.2
  rw [hr'.readText hn, hr.readText hn, h.get?_eq hl]

end Alike

/-- **Another content in a file** leaves all else as it was. -/
theorem alike_put (h : d.HasFile l) (c : Content) :
    Alike (· = l) d (d.put l (.file c)) ∧ ∀ k, (d.put l (.file c)).children k = d.children k := by
  have hne : l ≠ [] := ne_nil_of_not_hasDirectory fun hdir => hdir.not_file h
  have hthere : d.get? l ≠ none := by
    obtain ⟨old, hold⟩ := h
    rw [hold]
    exact Option.some_ne_none _
  have hchildren : ∀ k, (d.put l (.file c)).children k = d.children k := fun k =>
    children_put_of_some hthere hne
  refine ⟨⟨fun k => ?_, fun k => .of_eq (hchildren k)⟩, hchildren⟩
  by_cases hk : k = l
  · subst hk
    exact .inr ⟨rfl, h, c, by rw [get?_put hne, if_pos rfl]⟩
  · exact .inl (by rw [get?_put hne, if_neg hk])

/-- An entry is looked up if no other has its location. -/
theorem lookup_eq_some_iff {es : List (Location × Node)} (h : (es.map Prod.fst).Nodup) {n : Node} :
    es.lookup l = some n ↔ (l, n) ∈ es := by
  refine ⟨mem_of_lookup, fun hmem => ?_⟩
  induction es with
  | nil => cases hmem
  | cons e es ih =>
    rw [List.map_cons, List.nodup_cons] at h
    rw [lookup_cons_eq l e.1 e.2]
    rcases List.mem_cons.1 hmem with rfl | hmem
    · exact if_pos rfl
    · rw [if_neg, ih h.2 hmem]
      intro he
      exact h.1 (List.mem_map.2 ⟨(l, n), hmem, he⟩)

/-- **The same entries in another order** are the same files and directories. -/
theorem alike_of_perm (h : d'.entries.Perm d.entries) (hd : (d.entries.map Prod.fst).Nodup) :
    Alike (fun _ => False) d d' := by
  have hd' : (d'.entries.map Prod.fst).Nodup := (h.map _).nodup_iff.2 hd
  refine ⟨fun l => .inl ?_, fun l => h.filterMap _⟩
  unfold Disk.get?
  split
  · rfl
  · refine Option.ext fun n => ?_
    rw [lookup_eq_some_iff hd', lookup_eq_some_iff hd, h.mem_iff]

end PhpSharp.Files.Disk
