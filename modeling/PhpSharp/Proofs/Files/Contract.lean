/-
  What systems promise of their calls, and what follows for the programs made of them.

  * `Contract`: a system keeps a tree of files and directories, and says what each call does to
    it, whether the call succeeds or fails;
  * `Contract.createDirectories`: making directories adds directories and nothing else, even if
    it fails on the way;
  * `Contract.replaceFile`: a file is replaced as a whole, or the tree is as it was;
  * `machineContract`: the machine keeps the contract, whatever it refuses.
-/
import Mathlib.Logic.Function.Basic
import PhpSharp.Proofs.Files.Elsewhere

namespace PhpSharp.Files

/-! ## Trees -/

/-- What is at each place. -/
abbrev Tree (ι : Type) := ι → Option Node

section
variable {ι : Type} {before middle after : Tree ι} {l : ι} {c : Content}

/-- **Directories were made** where nothing was, and all else is as before. -/
def Tree.Grown (before after : Tree ι) : Prop :=
  ∀ l, after l = before l ∨ before l = none ∧ after l = some .directory

theorem Tree.Grown.refl (tree : Tree ι) : Tree.Grown tree tree := fun _ => .inl rfl

theorem Tree.Grown.trans (h : Tree.Grown before middle) (h' : Tree.Grown middle after) :
    Tree.Grown before after := fun l => by
  rcases h' l with hsame' | ⟨hnone', hdir'⟩
  · rw [hsame']
    exact h l
  · rcases h l with hsame | ⟨hnone, hdir⟩
    · exact .inr ⟨hsame.symm.trans hnone', hdir'⟩
    · cases hdir.symm.trans hnone'

/-- Files are neither added nor changed nor removed. -/
theorem Tree.Grown.file_iff (h : Tree.Grown before after) :
    after l = some (.file c) ↔ before l = some (.file c) := by
  rcases h l with hsame | ⟨hnone, hdir⟩
  · rw [hsame]
  · rw [hnone, hdir]
    simp

theorem Tree.Grown.directory (h : Tree.Grown before after) (hl : before l = some .directory) :
    after l = some .directory := by
  rcases h l with hsame | ⟨-, hdir⟩
  · rw [hsame, hl]
  · exact hdir

variable [DecidableEq ι]

theorem Tree.grown_directory (h : before l = none) :
    Tree.Grown before (Function.update before l (some .directory)) := fun k => by
  by_cases hk : k = l
  · subst hk
    exact .inr ⟨h, Function.update_self ..⟩
  · exact .inl (Function.update_of_ne hk ..)

/-- What was made elsewhere does not come in the way of a file. -/
theorem Tree.Grown.update (h : Tree.Grown before after) (n : Node) :
    Tree.Grown (Function.update before l (some n)) (Function.update after l (some n)) := fun k => by
  by_cases hk : k = l
  · subst hk
    simp
  · simpa [hk] using h k

theorem Tree.eq_update {n? : Option Node} (h : before l = n?) :
    before = Function.update before l n? := by
  rw [← h, Function.update_eq_self]

/-- Where nothing was, a file that came and went leaves nothing. -/
theorem Tree.update_none (h : before l = none) (n? : Option Node) :
    Function.update (Function.update before l n?) l none = before := by
  rw [Function.update_idem, ← Tree.eq_update h]

end

/-! ## Contracts -/

/-- **What a system promises of its calls.** It keeps a tree of files and directories, in which a
    path names a place. A call may fail for any reason; what it may have done by then is said as
    well. A temporary file has a fresh name; writing to it may stop halfway; it takes the place of
    the target at once, or not at all; and it is gone when it is discarded. -/
structure Contract (σ ι : Type) [DecidableEq ι] [Host (StateM σ)] where
  /-- The states of the system. -/
  proper : σ → Prop
  tree : σ → Tree ι
  place : Path → ι
  /-- The paths that the system makes for temporary files. -/
  isTemporary : Path → Prop
  isDirectory {s : σ} : proper s → ∀ p, Ensures s (Host.isDirectory p) fun _ s' =>
    proper s' ∧ tree s' = tree s
  makeDirectory {s : σ} : proper s → ∀ p, Ensures s (Host.makeDirectory p) fun
    | .ok (), s' => proper s' ∧ tree s (place p) = none ∧
        tree s' = Function.update (tree s) (place p) (some .directory)
    | .error _, s' => proper s' ∧ tree s' = tree s
  createTemporary {s : σ} : proper s → ∀ directory, Ensures s (Host.createTemporary directory) fun
    | .ok t, s' => proper s' ∧ isTemporary t ∧ tree s (place t) = none ∧
        tree s' = Function.update (tree s) (place t) (some (.file (.text "")))
    | .error _, s' => proper s' ∧ tree s' = tree s
  writeTemporary {s : σ} {t : Path} : proper s → isTemporary t →
    tree s (place t) = some (.file (.text "")) → ∀ text,
      Ensures s (Host.writeTemporary t text) fun answer s' => proper s' ∧
        ∃ c, (answer = .ok () → c = .text text) ∧
          tree s' = Function.update (tree s) (place t) (some (.file c))
  flushTemporary {s : σ} {t : Path} {c : Content} : proper s → isTemporary t →
    tree s (place t) = some (.file c) → Ensures s (Host.flushTemporary t) fun answer s' =>
      proper s' ∧ ∃ c', (answer = .ok () → c' = c) ∧
        tree s' = Function.update (tree s) (place t) (some (.file c'))
  shareTemporary {s : σ} {t : Path} {c : Content} : proper s → isTemporary t →
    tree s (place t) = some (.file c) → Ensures s (Host.shareTemporary t) fun _ s' =>
      proper s' ∧ tree s' = tree s
  persist {s : σ} {t : Path} {c : Content} : proper s → isTemporary t →
    tree s (place t) = some (.file c) → ∀ target, Ensures s (Host.persist t target) fun
      | .ok (), s' => proper s' ∧ tree s (place target) ≠ some .directory ∧
          tree s' = Function.update (Function.update (tree s) (place t) none) (place target)
            (some (.file c))
      | .error _, s' => proper s' ∧ tree s' = tree s
  discard {s : σ} {t : Path} {c : Content} : proper s → isTemporary t →
    tree s (place t) = some (.file c) → Ensures s (Host.discard t) fun _ s' =>
      proper s' ∧ tree s' = Function.update (tree s) (place t) none

/-- A step that succeeds is followed by the next; one that fails, by the end of the temporary
    file. -/
theorem ensures_orDiscard {σ : Type} [Host (StateM σ)] {s : σ} {temporary : Path}
    {step next : StateM σ (Except OsError Unit)} {P Q : Except OsError Unit → σ → Prop}
    (hstep : Ensures s step P) (hok : ∀ s', P (.ok ()) s' → Ensures s' next Q)
    (herror : ∀ e s', P (.error e) s' →
      Ensures s' (Host.discard temporary) fun _ s'' => Q (.error e) s'') :
    Ensures s (orDiscard temporary step next) Q := by
  refine hstep.bind fun answer s' h => ?_
  cases answer with
  | ok u => exact hok s' h
  | error e => exact (herror e s' h).bind fun _ _ hq => hq

namespace Contract

variable {σ ι : Type} [DecidableEq ι] [Host (StateM σ)] (C : Contract σ ι) {s s' : σ}

/-- **Making directories** adds directories, and nothing else, whether it succeeds or not. -/
theorem createDirectories (hs : C.proper s) (p : Path) :
    Ensures s (Files.createDirectories p) fun _ s' =>
      C.proper s' ∧ Tree.Grown (C.tree s) (C.tree s') := by
  let I (s' : σ) : Prop := C.proper s' ∧ Tree.Grown (C.tree s) (C.tree s')
  have hmake : ∀ p, Keeps I (Host.makeDirectory p) fun _ => True := fun p s' h => by
    show Ensures s' (Host.makeDirectory p) fun _ s'' => I s'' ∧ True
    refine (C.makeDirectory h.1 p).mono ?_
    rintro (e | u) s'' h'
    · exact ⟨⟨h'.1, h'.2.symm ▸ h.2⟩, trivial⟩
    · exact ⟨⟨h'.1, h'.2.2.symm ▸ h.2.trans (Tree.grown_directory h'.2.1)⟩, trivial⟩
  have hask : ∀ p, Keeps I (Host.isDirectory p) fun _ => True := fun p s' h =>
    have h' := C.isDirectory h.1 p
    ⟨⟨h'.1, h'.2.symm ▸ h.2⟩, trivial⟩
  exact (keeps_createAlong hmake hask (p :: p.parents) s ⟨hs, .refl _⟩).1

/-- A temporary file is all that is new. -/
structure Holds (before : Tree ι) (t : Path) (c : Content) (s : σ) : Prop where
  proper : C.proper s
  isTemporary : C.isTemporary t
  fresh : before (C.place t) = none
  tree : C.tree s = Function.update before (C.place t) (some (.file c))

variable {C} {before : Tree ι} {t : Path} {c c' : Content}

theorem Holds.there (h : C.Holds before t c s) : C.tree s (C.place t) = some (.file c) := by
  rw [h.tree, Function.update_self]

theorem Holds.again (h : C.Holds before t c s) (hs : C.proper s')
    (htree : C.tree s' = Function.update (C.tree s) (C.place t) (some (.file c'))) :
    C.Holds before t c' s' :=
  ⟨hs, h.isTemporary, h.fresh, by rw [htree, h.tree, Function.update_idem]⟩

/-- When it is discarded, the tree is as it was. -/
theorem Holds.discard (h : C.Holds before t c s) :
    Ensures s (Host.discard t : StateM σ Unit) fun _ s' => C.proper s' ∧ C.tree s' = before :=
  (C.discard h.proper h.isTemporary h.there).mono fun _ _ h' =>
    ⟨h'.1, by rw [h'.2, h.tree, Tree.update_none h.fresh]⟩

/-- A step on the temporary file goes on with it, or ends with the tree as it was. -/
theorem Holds.step {x next : StateM σ (Except OsError Unit)} {Q : Except OsError Unit → σ → Prop}
    (h : C.Holds before t c s)
    (hx : Ensures s x fun answer s' => C.proper s' ∧ ∃ c'', (answer = .ok () → c'' = c') ∧
      C.tree s' = Function.update (C.tree s) (C.place t) (some (.file c'')))
    (hnext : ∀ s', C.Holds before t c' s' → Ensures s' next Q)
    (herror : ∀ e s', C.proper s' ∧ C.tree s' = before → Q (.error e) s') :
    Ensures s (orDiscard t x next) Q := by
  refine ensures_orDiscard hx ?_ ?_
  · rintro s' ⟨hs', c'', hc, htree⟩
    obtain rfl := hc rfl
    exact hnext s' (h.again hs' htree)
  · rintro e s' ⟨hs', c'', -, htree⟩
    exact (h.again hs' htree).discard.mono fun _ => herror e

variable (C) in
/-- **Replacing a file** puts the text into it, or leaves the tree as it was. -/
theorem replaceFile (hs : C.proper s) (directory target : Path) (text : String) :
    Ensures s (Files.replaceFile directory target text) fun
      | .ok (), s' => C.proper s' ∧ C.tree s (C.place target) ≠ some .directory ∧
          C.tree s' = Function.update (C.tree s) (C.place target) (some (.file (.text text)))
      | .error _, s' => C.proper s' ∧ C.tree s' = C.tree s := by
  refine (C.createTemporary hs directory).bind ?_
  rintro (e | t) s₁ h
  · exact h
  obtain ⟨hs₁, ht, hfresh, htree₁⟩ := h
  have hempty : C.Holds (C.tree s) t (.text "") s₁ := ⟨hs₁, ht, hfresh, htree₁⟩
  refine hempty.step (C.writeTemporary hs₁ ht hempty.there text) (fun s₂ hwritten => ?_)
    fun e _ h => h
  refine hwritten.step (C.flushTemporary hwritten.proper ht hwritten.there) (fun s₃ hflushed => ?_)
    fun e _ h => h
  have hshare := (C.shareTemporary hflushed.proper ht hflushed.there).mono fun answer s' h =>
    (⟨h.1, .text text, fun _ => rfl, h.2.trans (Tree.eq_update hflushed.there)⟩ :
      C.proper s' ∧ ∃ c, (answer = .ok () → c = .text text) ∧
        C.tree s' = Function.update (C.tree s₃) (C.place t) (some (.file c)))
  refine hflushed.step hshare (fun s₄ hshared => ?_) fun e _ h => h
  refine ensures_orDiscard (C.persist hshared.proper ht hshared.there target) ?_ ?_
  · rintro s₅ ⟨hs₅, hfree, htree₅⟩
    refine ensures_pure ⟨hs₅, fun hdir => hfree ?_, ?_⟩
    · rwa [hshared.tree, Function.update_of_ne]
      intro hsame
      rw [hsame, hfresh] at hdir
      cases hdir
    · rw [htree₅, hshared.tree, Tree.update_none hfresh]
  · rintro e s₅ ⟨hs₅, htree₅⟩
    have hheld : C.Holds (C.tree s) t (.text text) s₅ :=
      ⟨hs₅, ht, hfresh, htree₅.trans hshared.tree⟩
    exact hheld.discard

end Contract

/-! ## Machines -/

namespace Disk

variable {d : Disk} {l base : Location} {n : Node}

theorem get?_put_eq (h : ¬ d.HasDirectory l) :
    (d.put l n).get? = Function.update d.get? l (some n) := by
  funext k
  rw [get?_put (ne_nil_of_not_hasDirectory h), Function.update_apply]

theorem get?_erase_eq (h : ¬ d.HasDirectory l) :
    (d.erase l).get? = Function.update d.get? l none := by
  funext k
  rw [get?_erase (ne_nil_of_not_hasDirectory h), Function.update_apply]

theorem Based.put (hb : Based d base) (h : ¬ d.HasDirectory l) : Based (d.put l n) base :=
  hb.mono fun _ hk => ((Elsewhere.refl (fun _ => True) d).put trivial h).directory hk

theorem Based.erase (hb : Based d base) (h : ¬ d.HasDirectory l) : Based (d.erase l) base :=
  hb.mono fun _ hk => ((Elsewhere.refl (fun _ => True) d).erase trivial h).directory hk

theorem not_hasDirectory_of_none (h : d.get? l = none) : ¬ d.HasDirectory l := fun hd =>
  hd.ne_none h

theorem not_hasDirectory_of_file {c : Content} (h : d.get? l = some (.file c)) :
    ¬ d.HasDirectory l := fun hd => hd.not_file ⟨c, h⟩

end Disk

/-- **A machine keeps the contract,** whatever it refuses, if its working directory is there. -/
def machineContract (base : Location) : Contract Machine Location where
  proper s := s.base = base ∧ s.disk.Based base
  tree s := s.disk.get?
  place := Path.location base
  isTemporary t := t.location base = t.names
  isDirectory hs _ := ⟨hs, rfl⟩
  makeDirectory := by
    rintro s ⟨rfl, hb⟩ p
    refine ensures_change (fun e => ⟨⟨rfl, hb⟩, rfl⟩) fun d hd => ?_
    obtain ⟨hlocate, hnone, rfl⟩ := Disk.makeDirectory_eq_ok.1 hd
    have hnot := Disk.not_hasDirectory_of_none hnone
    exact ⟨⟨rfl, hb.put hnot⟩, hnone, Disk.get?_put_eq hnot⟩
  createTemporary := by
    rintro s ⟨rfl, hb⟩ directory
    refine ensures_call (fun e => ⟨⟨rfl, hb⟩, rfl⟩) fun d t hd => ?_
    obtain ⟨fresh, hnone, hentry, rfl, rfl⟩ := Disk.createTemporary_eq_ok hb hd
    have hnot := Disk.not_hasDirectory_of_none hnone
    have hlocation : (Machine.pathOf (directory.location s.base ++ [fresh])).location s.base =
        directory.location s.base ++ [fresh] := Disk.location_pathOf hentry
    dsimp only
    rw [hlocation, Disk.names_pathOf hentry]
    exact ⟨⟨rfl, hb.put hnot⟩, rfl, hnone, Disk.get?_put_eq hnot⟩
  writeTemporary := by
    rintro s t ⟨rfl, hb⟩ ht hfile text
    have hnot := Disk.not_hasDirectory_of_file hfile
    refine ensures_change (fun e => ?_) fun d hd => ?_
    · exact ⟨⟨rfl, hb⟩, _, fun h => (by cases h), Tree.eq_update hfile⟩
    · cases hd
      rw [← ht]
      exact ⟨⟨rfl, hb.put hnot⟩, _, fun _ => rfl, Disk.get?_put_eq hnot⟩
  flushTemporary := by
    rintro s t c ⟨rfl, hb⟩ - hfile
    refine ensures_change (fun e => ⟨⟨rfl, hb⟩, c, fun _ => rfl, Tree.eq_update hfile⟩)
      fun d hd => ?_
    cases hd
    exact ⟨⟨rfl, hb⟩, c, fun _ => rfl, Tree.eq_update hfile⟩
  shareTemporary := by
    rintro s t c ⟨rfl, hb⟩ - -
    refine ensures_change (fun e => ⟨⟨rfl, hb⟩, rfl⟩) fun d hd => ?_
    cases hd
    exact ⟨⟨rfl, hb⟩, rfl⟩
  persist := by
    rintro s t c ⟨rfl, hb⟩ ht hfile target
    have hnot := Disk.not_hasDirectory_of_file hfile
    refine ensures_change (fun e => ⟨⟨rfl, hb⟩, rfl⟩) fun d hd => ?_
    obtain ⟨c', hfile', hfree, rfl⟩ := Disk.persist_eq_ok hd
    rw [← ht] at hfile' ⊢
    obtain rfl : c = c' := by simpa using hfile.symm.trans hfile'
    have hfree' : ¬ (s.disk.erase (t.location s.base)).HasDirectory (target.location s.base) := by
      rw [Disk.HasDirectory, Disk.get?_erase_eq hnot, Function.update_apply]
      split
      · exact fun h => nomatch h
      · exact hfree
    refine ⟨⟨rfl, (hb.erase hnot).put hfree'⟩, hfree, ?_⟩
    rw [← Disk.get?_erase_eq hnot]
    exact Disk.get?_put_eq hfree'
  discard := by
    rintro s t c ⟨rfl, hb⟩ ht hfile
    have hnot := Disk.not_hasDirectory_of_file hfile
    have hdiscard : Machine.discard s.disk t = s.disk.erase (t.location s.base) := by
      rw [ht] at hfile
      rw [Machine.discard, hfile, ht]
    show (s.base = s.base ∧ (Machine.discard s.disk t).Based s.base) ∧
      (Machine.discard s.disk t).get? = _
    rw [hdiscard]
    exact ⟨⟨rfl, hb.erase hnot⟩, Disk.get?_erase_eq hnot⟩

@[simp] theorem machineContract_tree (base : Location) (s : Machine) :
    (machineContract base).tree s = s.disk.get? := rfl

@[simp] theorem machineContract_place (base : Location) (p : Path) :
    (machineContract base).place p = p.location base := rfl

end PhpSharp.Files
