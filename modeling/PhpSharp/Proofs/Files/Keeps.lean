/-
  Programs that keep a property of the system, whatever the system answers.

  * `Ensures s x Q`: from `s` on, the answer of `x` and the state behind it are as `Q` says;
  * `Keeps I x Q`: where `I` holds before `x`, it holds afterwards, and the answer is as `Q` says;
    the rules follow the ways in which programs are put together;
  * `keeps_createAlong`: making directories keeps what making a single one keeps;
  * `ensures_call`: a call on a machine does what its function on disks does, or nothing.
-/
import PhpSharp.Proofs.Files.Machine

namespace PhpSharp.Files

section
variable {σ α β : Type} {s : σ} {P : α → σ → Prop} {Q : β → σ → Prop}

/-- **What a program ensures** of its answer and of the state behind it, from a state on. -/
def Ensures (s : σ) (x : StateM σ α) (P : α → σ → Prop) : Prop := P (x.run s).1 (x.run s).2

theorem ensures_pure {a : α} (h : P a s) : Ensures s (pure a) P := h

theorem Ensures.bind {x : StateM σ α} {f : α → StateM σ β} (hx : Ensures s x P)
    (hf : ∀ a s', P a s' → Ensures s' (f a) Q) : Ensures s (x >>= f) Q := by
  rw [Ensures, StateT.run_bind]
  exact hf _ _ hx

theorem Ensures.mono {P' : α → σ → Prop} {x : StateM σ α} (h : Ensures s x P)
    (hp : ∀ a s', P a s' → P' a s') : Ensures s x P' := hp _ _ h

end

section
variable {σ α β : Type} {I : σ → Prop} {P Q : α → Prop} {R : β → Prop}

/-- **A program keeps a property of the state**, and its answer has another one. -/
def Keeps (I : σ → Prop) (x : StateM σ α) (Q : α → Prop) : Prop :=
  ∀ s, I s → I (x.run s).2 ∧ Q (x.run s).1

theorem Keeps.any {x : StateM σ α} : Keeps (fun _ => True) x fun _ => True :=
  fun _ _ => ⟨trivial, trivial⟩

theorem Keeps.pure {a : α} (h : Q a) : Keeps I (pure a) Q := fun _ hs => ⟨hs, h⟩

theorem Keeps.bind {x : StateM σ α} {f : α → StateM σ β} (hx : Keeps I x Q)
    (hf : ∀ a, Q a → Keeps I (f a) R) : Keeps I (x >>= f) R := by
  intro s hs
  obtain ⟨hs₁, ha⟩ := hx s hs
  rw [StateT.run_bind]
  exact hf _ ha _ hs₁

theorem Keeps.mono {x : StateM σ α} (h : Keeps I x P) (hpq : ∀ a, P a → Q a) : Keeps I x Q :=
  fun s hs => ⟨(h s hs).1, hpq _ (h s hs).2⟩

/-- Answers, asked for one after the other. -/
theorem Keeps.mapM {f : α → StateM σ β} {g : α → β} (h : ∀ a, Keeps I (f a) (· = g a))
    (as : List α) : Keeps I (as.mapM f) (· = as.map g) := by
  induction as with
  | nil => exact .pure rfl
  | cons a as ih =>
    rw [List.mapM_cons]
    refine (h a).bind fun b hb => ih.bind fun bs hbs => .pure ?_
    rw [hb, hbs, List.map_cons]

theorem Keeps.forM {f : α → StateM σ PUnit} (h : ∀ a, Keeps I (f a) fun _ => True)
    (as : List α) : Keeps I (as.forM f) fun _ => True := by
  induction as with
  | nil => exact .pure trivial
  | cons a as ih => exact (h a).bind fun _ _ => ih

end

/-! ## Making directories -/

section
variable {σ : Type} [Host (StateM σ)] {I : σ → Prop}

theorem keeps_unlessDirectory (hask : ∀ p, Keeps I (Host.isDirectory p) fun _ => True) (p : Path)
    (e : OsError) : Keeps I (unlessDirectory p e : StateM σ _) fun _ => True := by
  refine (hask p).bind fun isThere _ => ?_
  cases isThere <;> exact .pure trivial

/-- Making directories keeps what making a single one keeps. -/
theorem keeps_createAlong (hmake : ∀ p, Keeps I (Host.makeDirectory p) fun _ => True)
    (hask : ∀ p, Keeps I (Host.isDirectory p) fun _ => True) (ps : List Path) :
    Keeps I (createAlong ps : StateM σ _) fun _ => True := by
  induction ps with
  | nil => exact .pure trivial
  | cons p ps ih =>
    rw [createAlong]
    split
    · exact .pure trivial
    · refine (hmake p).bind fun made _ => ?_
      split
      · exact .pure trivial
      · refine ih.bind fun above _ => ?_
        split
        · exact .pure trivial
        · refine (hmake p).bind fun made _ => ?_
          split
          · exact .pure trivial
          · exact keeps_unlessDirectory hask p _
      · exact keeps_unlessDirectory hask p _

end

/-! ## Calls on a machine -/

section
variable {I : Machine → Prop} {α : Type}

/-- A call does what its function on disks does, or nothing. -/
theorem ensures_call {s : Machine} {action : Action}
    {f : Disk → Location → Except OsError (Disk × α)} {Q : Except OsError α → Machine → Prop}
    (he : ∀ e, Q (.error e) s)
    (hf : ∀ d a, f s.disk s.base = .ok (d, a) → Q (.ok a) (s.withDisk d)) :
    Ensures s (Machine.call action f) Q := by
  have hget : (get : StateM Machine Machine).run s = (s, s) := rfl
  rw [Ensures, Machine.call, bind_run hget]
  cases s.refuses action with
  | some e => exact he e
  | none =>
    dsimp only
    cases hcall : f s.disk s.base with
    | error e => exact he e
    | ok answer => exact hf answer.1 answer.2 hcall

theorem ensures_change {s : Machine} {action : Action} {f : Disk → Location → Except OsError Disk}
    {Q : Except OsError Unit → Machine → Prop} (he : ∀ e, Q (.error e) s)
    (hf : ∀ d, f s.disk s.base = .ok d → Q (.ok ()) (s.withDisk d)) :
    Ensures s (Machine.change action f) Q := by
  refine ensures_call he fun d a hcall => hf d ?_
  cases hd : f s.disk s.base with
  | error e =>
    rw [hd] at hcall
    cases hcall
  | ok d' =>
    rw [hd] at hcall
    cases hcall
    rfl

theorem keeps_call {action : Action} {f : Disk → Location → Except OsError (Disk × α)}
    {Q : Except OsError α → Prop} (he : ∀ e, Q (.error e))
    (hf : ∀ s d a, I s → f s.disk s.base = .ok (d, a) → I (s.withDisk d) ∧ Q (.ok a)) :
    Keeps I (Machine.call action f) Q := fun s hs =>
  ensures_call (Q := fun a s' => I s' ∧ Q a) (fun e => ⟨hs, he e⟩) fun d a => hf s d a hs

theorem keeps_change {action : Action} {f : Disk → Location → Except OsError Disk}
    (hf : ∀ s d, I s → f s.disk s.base = .ok d → I (s.withDisk d)) :
    Keeps I (Machine.change action f) fun _ => True := fun s hs =>
  ensures_change (Q := fun _ s' => I s' ∧ True) (fun _ => ⟨hs, trivial⟩) fun d hd =>
    ⟨hf s d hs hd, trivial⟩

end

end PhpSharp.Files
