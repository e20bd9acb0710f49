/-
  Systems that keep a record of the paths in their calls.

  * `Recorded σ` is such a system; it answers as the system `σ` does that it stands before;
  * `Asks s x y ps`: from `s` on, the program `x` on the recorded system comes to what `y` comes to
    on the system itself, and its calls name the paths `ps`. The rules follow the ways in which
    programs are put together.
-/
import PhpSharp.Files.Host

namespace PhpSharp.Files

/-- A system, and the paths that were named in its calls, first to last. -/
structure Recorded (σ : Type) where
  system : σ
  paths : List Path

namespace Recorded

variable {σ α : Type}

/-- A call that names these paths: they are put on the record, and the system answers. -/
def call (paths : List Path) (x : StateM σ α) : StateM (Recorded σ) α := do
  let s ← get
  let (answer, system) := x.run s.system
  set (⟨system, s.paths ++ paths⟩ : Recorded σ)
  pure answer

instance [Host (StateM σ)] : Host (StateM (Recorded σ)) where
  workingDirectory := call [] Host.workingDirectory
  isThere p := call [p] (Host.isThere p)
  isDirectory p := call [p] (Host.isDirectory p)
  list p := call [p] (Host.list p)
  readText p := call [p] (Host.readText p)
  writeText p text := call [p] (Host.writeText p text)
  makeDirectory p := call [p] (Host.makeDirectory p)
  createTemporary p := call [p] (Host.createTemporary p)
  writeTemporary p text := call [p] (Host.writeTemporary p text)
  flushTemporary p := call [p] (Host.flushTemporary p)
  shareTemporary p := call [p] (Host.shareTemporary p)
  persist p target := call [p, target] (Host.persist p target)
  discard p := call [p] (Host.discard p)
  now := call [] Host.now
  clock := call [] Host.clock
  log e := call [] (Host.log e)
  print text := call [] (Host.print text)

end Recorded

variable {σ α β : Type} {s : σ}

/-- **What a program asks of a system,** from a state on: its calls name these paths, one after the
    other, and the record makes no difference to the answer and to the state behind it. -/
def Asks (s : σ) (x : StateM (Recorded σ) α) (y : StateM σ α) (ps : List Path) : Prop :=
  ∀ before, x.run ⟨s, before⟩ = ((y.run s).1, ⟨(y.run s).2, before ++ ps⟩)

theorem asks_call (ps : List Path) (x : StateM σ α) : Asks s (Recorded.call ps x) x ps :=
  fun _ => rfl

theorem asks_pure (a : α) : Asks s (pure a) (pure a) [] := by
  intro before
  rw [List.append_nil]
  rfl

theorem Asks.bind {x : StateM (Recorded σ) α} {y : StateM σ α} {f : α → StateM (Recorded σ) β}
    {g : α → StateM σ β} {ps qs : List Path} (hx : Asks s x y ps)
    (hf : Asks (y.run s).2 (f (y.run s).1) (g (y.run s).1) qs) :
    Asks s (x >>= f) (y >>= g) (ps ++ qs) := by
  intro before
  rw [StateT.run_bind, hx before, ← List.append_assoc]
  exact hf (before ++ ps)

/-- Calls that are made one after the other. -/
theorem Asks.mapM {f : α → StateM (Recorded σ) β} {g : α → StateM σ β} {path : α → Path}
    (h : ∀ a s, Asks s (f a) (g a) [path a]) (as : List α) (s : σ) :
    Asks s (as.mapM f) (as.mapM g) (as.map path) := by
  induction as generalizing s with
  | nil => exact asks_pure []
  | cons a as ih =>
    rw [List.mapM_cons, List.mapM_cons, List.map_cons, ← List.singleton_append]
    refine (h a s).bind ?_
    rw [← List.append_nil (as.map path)]
    exact (ih _).bind (asks_pure _)

/-- Calls without paths, made one after the other. -/
theorem Asks.forM {f : α → StateM (Recorded σ) PUnit} {g : α → StateM σ PUnit}
    (h : ∀ a s, Asks s (f a) (g a) []) (as : List α) (s : σ) :
    Asks s (as.forM f) (as.forM g) [] := by
  induction as generalizing s with
  | nil => exact asks_pure _
  | cons a as ih => exact (h a s).bind (ih _)

end PhpSharp.Files
