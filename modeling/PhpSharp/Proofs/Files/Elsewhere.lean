/-
  What is left alone when a program writes elsewhere, whatever the system refuses.

  * `Elsewhere away d d'`: all directories are still there, and but for the locations that are
    `away` everything is as it was, or a directory where nothing was;
  * `Elsewhere.readText_eq`: what is not away is read as before;
  * `keeps_createDirectories`, `keeps_replaceFile`: making directories and replacing a file
    that is away keep this, whether they succeed or fail at any of their steps.
-/
import PhpSharp.Proofs.Files.Effects
import PhpSharp.Proofs.Files.Keeps

namespace PhpSharp.Files

namespace Disk

variable {away : Location → Prop} {d d' d'' : Disk} {l k base : Location} {p : Path} {name : String}
  {n : Node} {c : Content}

/-! ## The names in a directory -/

/-- The name that something at `l` has in the directory `k`, if it is in it. -/
def nameIn (k l : Location) : Option String :=
  match l.getLast? with
  | some name => if l.dropLast = k then some name else none
  | none => none

theorem nameIn_eq_some_iff : nameIn k l = some name ↔ l = k ++ [name] := by
  unfold nameIn
  cases hlast : l.getLast? with
  | none =>
    have hnil : l = [] := List.getLast?_eq_none_iff.1 hlast
    simp [hnil]
  | some last =>
    obtain ⟨front, rfl⟩ := List.getLast?_eq_some_iff.1 hlast
    simp only [List.dropLast_concat, Option.ite_none_right_eq_some, Option.some.injEq]
    constructor
    · rintro ⟨rfl, rfl⟩
      rfl
    · intro h
      obtain ⟨hfront, hlast⟩ := List.append_inj' h rfl
      exact ⟨hfront, List.singleton_inj.1 hlast⟩

theorem children_eq (d : Disk) (k : Location) :
    d.children k = (d.entries.map Prod.fst).filterMap (nameIn k) := by
  rw [List.filterMap_map]
  rfl

theorem mem_keys_iff (h : l ≠ []) : l ∈ d.entries.map Prod.fst ↔ d.get? l ≠ none := by
  rw [get?, if_neg h, ne_eq, List.lookup_eq_none_iff]
  simp only [List.mem_map, bne_iff_ne, ne_eq, not_forall, not_not]
  constructor
  · rintro ⟨e, he, rfl⟩
    exact ⟨e, he, rfl⟩
  · rintro ⟨e, he, rfl⟩
    exact ⟨e, he, rfl⟩

theorem keys_putEntry (l : Location) (n : Node) (es : List (Location × Node)) :
    (putEntry l n es).map Prod.fst =
      if l ∈ es.map Prod.fst then es.map Prod.fst else es.map Prod.fst ++ [l] := by
  induction es with
  | nil => rfl
  | cons e es ih =>
    obtain ⟨k, old⟩ := e
    by_cases hk : k = l
    · subst hk
      simp [putEntry]
    · rw [putEntry, if_neg hk, List.map_cons, ih, List.map_cons]
      have hne : l ≠ k := fun he => hk he.symm
      split <;> simp_all

/-- What takes the place of something has its name. -/
theorem children_put_of_some (h : d.get? l ≠ none) (hl : l ≠ []) :
    (d.put l n).children k = d.children k := by
  rw [children_eq, children_eq, put, keys_putEntry, if_pos ((mem_keys_iff hl).2 h)]

/-- What is new in a directory comes behind all others. -/
theorem children_put_of_none (h : d.get? l = none) :
    (d.put l n).children k = d.children k ++ (nameIn k l).toList := by
  have hl := ne_nil_of_get?_eq_none h
  rw [children_eq, children_eq, put, keys_putEntry, if_neg, List.filterMap_append]
  · cases hname : nameIn k l <;> simp [hname]
  · rw [mem_keys_iff hl, not_not]
    exact h

theorem children_put_of_away (h : ∀ name, l ≠ k ++ [name]) (hl : l ≠ []) :
    (d.put l n).children k = d.children k := by
  by_cases hnone : d.get? l = none
  · have hname : nameIn k l = none := by
      rw [Option.eq_none_iff_forall_ne_some]
      exact fun name hn => h name (nameIn_eq_some_iff.1 hn)
    rw [children_put_of_none hnone, hname, Option.toList_none, List.append_nil]
  · exact children_put_of_some hnone hl

theorem children_erase_of_away (h : ∀ name, l ≠ k ++ [name]) :
    (d.erase l).children k = d.children k := by
  have hname : nameIn k l = none := by
    rw [Option.eq_none_iff_forall_ne_some]
    exact fun name hn => h name (nameIn_eq_some_iff.1 hn)
  rw [children_eq, children_eq, erase]
  induction d.entries with
  | nil => rfl
  | cons e es ih =>
    by_cases he : e.1 = l
    · rw [List.filter_cons_of_neg (by simpa using he), ih, List.map_cons, List.filterMap_cons, he,
        hname]
    · rw [List.filter_cons_of_pos (by simpa using he), List.map_cons, List.map_cons,
        List.filterMap_cons, List.filterMap_cons, ih]

/-! ## Writing elsewhere -/

/-- **Files were written elsewhere.** Directories stay; what is not `away` is as it was, or a
    directory where nothing was; and a directory with nothing in it that is away has what it had,
    and perhaps new directories. -/
structure Elsewhere (away : Location → Prop) (d d' : Disk) : Prop where
  directory : ∀ {l}, d.HasDirectory l → d'.HasDirectory l
  get? : ∀ {l}, ¬ away l → d'.get? l = d.get? l ∨ d.get? l = none ∧ d'.HasDirectory l
  children : ∀ {k}, (∀ name, ¬ away (k ++ [name])) → ∃ made, d'.children k = d.children k ++ made ∧
    ∀ name ∈ made, d.get? (k ++ [name]) = none ∧ d'.HasDirectory (k ++ [name])

theorem Elsewhere.refl (away : Location → Prop) (d : Disk) : Elsewhere away d d :=
  ⟨id, fun _ => .inl rfl, fun _ => ⟨[], (List.append_nil _).symm, fun _ hn => nomatch hn⟩⟩

theorem Elsewhere.makeDirectory (h : Elsewhere away d d') (hl : d'.get? l = none) :
    Elsewhere away d (d'.put l .directory) := by
  have hne := ne_nil_of_get?_eq_none hl
  have hmade : (d'.put l .directory).HasDirectory l := by
    rw [HasDirectory, get?_put hne, if_pos rfl]
  have hkept : ∀ {k}, d'.HasDirectory k → (d'.put l .directory).HasDirectory k := by
    intro k hk
    by_cases he : k = l
    · rwa [he]
    · rwa [HasDirectory, get?_put hne, if_neg he]
  refine ⟨fun hk => hkept (h.directory hk), fun {k} hk => ?_, fun {k} hk => ?_⟩
  · by_cases he : k = l
    · subst he
      rcases h.get? hk with hsame | ⟨hnone, -⟩
      · exact .inr ⟨hsame.symm.trans hl, hmade⟩
      · exact .inr ⟨hnone, hmade⟩
    · rw [get?_put hne, if_neg he]
      exact (h.get? hk).imp id (And.imp_right hkept)
  · obtain ⟨made, hchildren, hdirs⟩ := h.children hk
    refine ⟨made ++ (nameIn k l).toList, ?_, fun name hname => ?_⟩
    · rw [children_put_of_none hl, hchildren, List.append_assoc]
    · rcases List.mem_append.1 hname with hname | hname
      · exact (hdirs name hname).imp id hkept
      · obtain rfl := nameIn_eq_some_iff.1 (Option.mem_toList.1 hname)
        refine ⟨?_, hmade⟩
        rcases h.get? (hk name) with hsame | ⟨hnone, -⟩
        · exact hsame.symm.trans hl
        · exact hnone

/-- What is away may change, where no directory was. -/
theorem Elsewhere.change (h : Elsewhere away d d') (ha : away l) (hl : ¬ d.HasDirectory l)
    (hget : ∀ {k}, k ≠ l → d''.get? k = d'.get? k)
    (hchildren : ∀ {k}, (∀ name, l ≠ k ++ [name]) → d''.children k = d'.children k) :
    Elsewhere away d d'' := by
  have haway : ∀ {k}, ¬ away k → k ≠ l := by
    rintro k hk rfl
    exact hk ha
  refine ⟨fun {k} hk => ?_, fun {k} hk => ?_, fun {k} hk => ?_⟩
  · rw [HasDirectory, hget]
    · exact h.directory hk
    · rintro rfl
      exact hl hk
  · rw [HasDirectory, hget (haway hk)]
    exact h.get? hk
  · obtain ⟨made, hmade, hdirs⟩ := h.children hk
    refine ⟨made, ?_, fun name hname => ?_⟩
    · rw [hchildren (fun name he => haway (hk name) he.symm), hmade]
    · rw [HasDirectory, hget (haway (hk name))]
      exact hdirs name hname

theorem Elsewhere.put (h : Elsewhere away d d') (ha : away l) (hl : ¬ d.HasDirectory l) :
    Elsewhere away d (d'.put l n) := by
  have hne := ne_nil_of_not_hasDirectory hl
  refine h.change ha hl (fun hk => ?_) fun hk => children_put_of_away hk hne
  rw [get?_put hne, if_neg hk]

theorem Elsewhere.erase (h : Elsewhere away d d') (ha : away l) (hl : ¬ d.HasDirectory l) :
    Elsewhere away d (d'.erase l) := by
  refine h.change ha hl (fun hk => ?_) children_erase_of_away
  rw [get?_erase (ne_nil_of_not_hasDirectory hl), if_neg hk]

/-! ## Reading what is not away -/

theorem Elsewhere.reaches (h : Elsewhere away d d') (hr : Reaches d base p) : Reaches d' base p :=
  hr.mono h.directory

/-- **What is not away is read as before,** or is a directory now that was missing. -/
theorem Elsewhere.readText_eq (h : Elsewhere away d d') (hr : Reaches d base p) (hn : IsEntry name)
    (hno : ¬ away (p.location base ++ [name])) :
    d'.readText base (p.entry name) = d.readText base (p.entry name) ∨
      d.get? (p.location base ++ [name]) = none ∧
        (∀ text, d'.readText base (p.entry name) ≠ .ok text) ∧
        ∀ text, d.readText base (p.entry name) ≠ .ok text :=
  hr.readText_eq (h.reaches hr) hn (h.get? hno)

/-- A text that is not away is the same text, or missing still. -/
theorem Elsewhere.toOption_readText (h : Elsewhere away d d') (hr : Reaches d base p)
    (hn : IsEntry name) (hno : ¬ away (p.location base ++ [name])) :
    (d'.readText base (p.entry name)).toOption = (d.readText base (p.entry name)).toOption :=
  hr.toOption_readText_eq (h.reaches hr) hn (h.get? hno)

end Disk

/-! ## Programs that write elsewhere -/

/-- **A machine after files were written elsewhere.** -/
structure Aside (away : Location → Prop) (s s' : Machine) : Prop where
  base : s'.base = s.base
  disk : Disk.Elsewhere away s.disk s'.disk

section
variable {away : Location → Prop} {s s' : Machine} {α : Type} {directory target temporary : Path}

theorem Aside.refl (away : Location → Prop) (s : Machine) : Aside away s s := ⟨rfl, .refl _ _⟩

theorem Aside.logged (h : Aside away s s') (es : List Log.Entry) : Aside away s (s'.logged es) :=
  ⟨h.base, h.disk⟩

theorem keeps_makeDirectory (p : Path) :
    Keeps (Aside away s) (Host.makeDirectory p) fun _ => True := by
  refine keeps_change fun s' d h hd => ?_
  obtain ⟨-, hnone, rfl⟩ := Disk.makeDirectory_eq_ok.1 hd
  exact ⟨h.base, h.disk.makeDirectory hnone⟩

/-- **Making directories** leaves everything else as it was. -/
theorem keeps_createDirectories (p : Path) :
    Keeps (Aside away s) (createDirectories p) fun _ => True :=
  keeps_createAlong keeps_makeDirectory (fun _ _ h => ⟨h, trivial⟩) _

theorem keeps_orDiscard {step next : StateM Machine (Except OsError Unit)}
    (hstep : Keeps (Aside away s) step fun _ => True)
    (hnext : Keeps (Aside away s) next fun _ => True)
    (ha : away temporary.names) (hn : ¬ s.disk.HasDirectory temporary.names) :
    Keeps (Aside away s) (orDiscard temporary step next) fun _ => True := by
  have hdiscard : Keeps (Aside away s) (Host.discard temporary : StateM Machine Unit)
      fun _ => True := by
    refine fun s' h => ⟨⟨h.base, ?_⟩, trivial⟩
    show Disk.Elsewhere away s.disk (Machine.discard s'.disk temporary)
    unfold Machine.discard
    split
    · exact h.disk.erase ha hn
    · exact h.disk
  refine hstep.bind fun answer _ => ?_
  split
  · exact hnext
  · exact hdiscard.bind fun _ _ => .pure trivial

/-- A temporary file is made where nothing is, in its directory. -/
theorem keeps_createTemporary (hb : s.disk.Based s.base)
    (ha : ∀ name, away (directory.location s.base ++ [name])) :
    Keeps (Aside away s) (Host.createTemporary directory) fun answer : Except OsError Path =>
      ∀ temporary, answer = .ok temporary →
        away temporary.names ∧ ¬ s.disk.HasDirectory temporary.names := by
  refine keeps_call (fun e temporary he => nomatch he) fun s' d a h hcall => ?_
  rw [h.base] at hcall
  obtain ⟨fresh, hnone, hentry, rfl, rfl⟩ := Disk.createTemporary_eq_ok
    (hb.mono fun l hl => h.disk.directory hl) hcall
  have hnot : ¬ s.disk.HasDirectory (directory.location s.base ++ [fresh]) := fun hd =>
    (h.disk.directory hd).ne_none hnone
  refine ⟨⟨h.base, h.disk.put (ha fresh) hnot⟩, fun temporary he => ?_⟩
  obtain rfl := Except.ok.inj he
  rw [Disk.names_pathOf hentry]
  exact ⟨ha fresh, hnot⟩

theorem keeps_persist (ha : away temporary.names) (hn : ¬ s.disk.HasDirectory temporary.names)
    (ht : away (target.location s.base)) :
    Keeps (Aside away s) (Host.persist temporary target) fun _ => True := by
  refine keeps_change fun s' d h hd => ⟨h.base, ?_⟩
  rw [h.base] at hd
  obtain ⟨c, -, hfree, rfl⟩ := Disk.persist_eq_ok hd
  exact (h.disk.erase ha hn).put ht fun hdir => hfree (h.disk.directory hdir)

/-- **Replacing a file that is away,** in a directory in which all is away, leaves everything else
    as it was. -/
theorem keeps_replaceFile (hb : s.disk.Based s.base)
    (ha : ∀ name, away (directory.location s.base ++ [name])) (ht : away (target.location s.base))
    (text : String) : Keeps (Aside away s) (replaceFile directory target text) fun _ => True := by
  refine (keeps_createTemporary hb ha).bind fun made hmade => ?_
  cases made with
  | error e => exact .pure trivial
  | ok temporary =>
    obtain ⟨haway, hnot⟩ := hmade temporary rfl
    have hwrite : Keeps (Aside away s) (Host.writeTemporary temporary text) fun _ => True :=
      keeps_change fun s' d h hd => by
        cases hd
        exact ⟨h.base, h.disk.put haway hnot⟩
    have hflush : Keeps (Aside away s) (Host.flushTemporary temporary) fun _ => True :=
      keeps_change fun s' d h hd => by
        cases hd
        exact h
    have hshare : Keeps (Aside away s) (Host.shareTemporary temporary) fun _ => True :=
      keeps_change fun s' d h hd => by
        cases hd
        exact h
    have hpersist := keeps_persist haway hnot ht
    exact keeps_orDiscard hwrite (keeps_orDiscard hflush (keeps_orDiscard hshare
      (keeps_orDiscard hpersist (.pure trivial) haway hnot) haway hnot) haway hnot) haway hnot

end

end PhpSharp.Files
