/-
  Programs on a machine: what their steps do, one after the other.

  A call does what the disk says, unless the machine refuses it (`call_run`, `change_run`). A
  machine may refuse calls by their place (`Machine.RefusesByPlace`).
-/
import PhpSharp.Proofs.Files.Directories
import PhpSharp.Files.Machine

namespace PhpSharp.Files

/-! ## Machines -/

/-- The machine with another disk. -/
def Machine.withDisk (s : Machine) (d : Disk) : Machine := { s with disk := d }

/-- The machine with more entries in its log. -/
def Machine.logged (s : Machine) (entries : List Log.Entry) : Machine :=
  { s with entries := s.entries ++ entries }

@[simp] theorem Machine.logged_nil (s : Machine) : s.logged [] = s := by
  simp [Machine.logged]

@[simp] theorem Machine.logged_logged (s : Machine) (es es' : List Log.Entry) :
    (s.logged es).logged es' = s.logged (es ++ es') := by
  simp [Machine.logged]

/-! ## What is refused -/

/-- Why no directory may be made at a location, if none may. -/
def Machine.closed (s : Machine) (l : Location) : Option OsError :=
  s.refuses (.makeDirectory (pathOf l))

/-- Why a temporary file cannot be written, or moved to its place, if it cannot. -/
def Machine.refusesTemporary? (s : Machine) (temporary target : Path) : Option OsError :=
  s.refuses (.writeTemporary temporary) <|> s.refuses (.flushTemporary temporary) <|>
    s.refuses (.shareTemporary temporary) <|> s.refuses (.persist temporary target)

/-- **A machine refuses calls by their place:** whether a directory may be made depends on its
    location, and what may be done with temporary files on the directory that they are in. What is
    refused are locations such as a disk can have, and no directory that is there is said to be
    missing. -/
structure Machine.RefusesByPlace (s : Machine) : Prop where
  directory : ∀ p : Path, s.refuses (.makeDirectory p) = s.closed (p.location s.base)
  closes : Disk.Closes s.closed s.base s.disk
  temporary : ∀ {t t' : Path}, (t.location s.base).dropLast = (t'.location s.base).dropLast →
    ∀ target, s.refusesTemporary? t target = s.refusesTemporary? t' target

/-- So does a machine that refuses nothing. -/
theorem Machine.RefusesByPlace.of_none {s : Machine} (h : ∀ action, s.refuses action = none) :
    s.RefusesByPlace := by
  have hclosed : ∀ l, s.closed l = none := fun l => h _
  have hfree : ∀ temporary target, s.refusesTemporary? temporary target = none := by
    intro temporary target
    simp only [refusesTemporary?, h]
    rfl
  refine ⟨fun p => ?_, ⟨fun h => absurd (hclosed _) h, fun {l} _ => ?_⟩, fun _ target => ?_⟩
  · rw [h, hclosed]
  · rw [hclosed]
    exact nofun
  · rw [hfree, hfree]

theorem Machine.closed_congr {s s' : Machine} (hr : s'.refuses = s.refuses) :
    s'.closed = s.closed := by
  unfold Machine.closed
  rw [hr]

theorem Machine.RefusesByPlace.congr {s s' : Machine} (h : s.RefusesByPlace)
    (hb : s'.base = s.base) (hr : s'.refuses = s.refuses)
    (hc : Disk.Closes s.closed s.base s'.disk) : s'.RefusesByPlace := by
  refine ⟨fun p => ?_, by rwa [closed_congr hr, hb], fun {t t'} ht target => ?_⟩
  · rw [hr, hb, closed_congr hr]
    exact h.directory p
  · rw [hb] at ht
    unfold refusesTemporary?
    rw [hr]
    exact h.temporary ht target

/-! ## Steps -/

/-- A program is run one step after the other. -/
theorem bind_run {σ α β : Type} {x : StateM σ α} {f : α → StateM σ β} {s s' : σ} {a : α}
    (h : x.run s = (a, s')) : (x >>= f).run s = (f a).run s' := by
  rw [StateT.run_bind, h]
  rfl

theorem call_run {α : Type} (s : Machine) (action : Action)
    (f : Disk → Location → Except OsError (Disk × α)) :
    (Machine.call action f).run s = match s.refuses action with
      | some e => (.error e, s)
      | none => match f s.disk s.base with
        | .ok (d, answer) => (.ok answer, s.withDisk d)
        | .error e => (.error e, s) := by
  have hget : (get : StateM Machine Machine).run s = (s, s) := rfl
  rw [Machine.call, bind_run hget]
  cases s.refuses action with
  | some e => rfl
  | none => cases f s.disk s.base <;> rfl

theorem change_run (s : Machine) (action : Action) (f : Disk → Location → Except OsError Disk) :
    (Machine.change action f).run s = match s.refuses action with
      | some e => (.error e, s)
      | none => match f s.disk s.base with
        | .ok d => (.ok (), s.withDisk d)
        | .error e => (.error e, s) := by
  rw [Machine.change, call_run]
  cases s.refuses action with
  | some e => rfl
  | none => cases f s.disk s.base <;> rfl

theorem log_run (s : Machine) (e : Log.Entry) :
    (Host.log e : StateM Machine PUnit).run s = ((), s.logged [e]) := rfl

theorem forM_log_run {α : Type} (s : Machine) (as : List α) (f : α → Log.Entry) :
    (as.forM fun a => Host.log (f a) : StateM Machine PUnit).run s = ((), s.logged (as.map f)) := by
  induction as generalizing s with
  | nil => exact congrArg (Prod.mk ()) (Machine.logged_nil s).symm
  | cons a as ih =>
    refine (bind_run (log_run s (f a))).trans ((ih _).trans ?_)
    rw [Machine.logged_logged, List.singleton_append, List.map_cons]

/-- Questions, asked one after the other. -/
theorem mapM_run {α β : Type} {s : Machine} {f : α → StateM Machine β} {g : α → β}
    (h : ∀ a, (f a).run s = (g a, s)) (as : List α) : (as.mapM f).run s = (as.map g, s) := by
  induction as with
  | nil => rfl
  | cons a as ih =>
    rw [List.mapM_cons, bind_run (h a), bind_run ih]
    rfl

end PhpSharp.Files
