/-
  Writing the file of a class: all of it, or nothing.

  * `write_allOrNothing`: on every system that keeps the contract of files, a file is written as a
    whole, or all files are as they were, whichever call fails; and the error names the directory
    or the file.
-/
import PhpSharp.Conversion.Run
import PhpSharp.Proofs.Files.Contract

namespace PhpSharp.Conversion

open Files

/-- **How writing goes:** the directory cannot be made, or the file cannot be replaced, or it is. -/
inductive Writes {σ : Type} [Host (StateM σ)] (directory target : Path) (text : String) (s : σ) :
    Except Error Path × σ → Prop
  | unmade {cause s₁}
      (hmade : (createDirectories directory : StateM σ _).run s = (.error cause, s₁)) :
      Writes directory target text s (.error (.write directory cause), s₁)
  | unreplaced {s₁ cause s₂}
      (hmade : (createDirectories directory : StateM σ _).run s = (.ok (), s₁))
      (hreplaced : (replaceFile directory target text : StateM σ _).run s₁ = (.error cause, s₂)) :
      Writes directory target text s (.error (.write target cause), s₂)
  | replaced {s₁ s₂}
      (hmade : (createDirectories directory : StateM σ _).run s = (.ok (), s₁))
      (hreplaced : (replaceFile directory target text : StateM σ _).run s₁ = (.ok (), s₂)) :
      Writes directory target text s (.ok target, s₂)

theorem writes {σ : Type} [Host (StateM σ)] (o : Output) (k : Sdk.Kind) (name text : String)
    (s : σ) : Writes (o.directories.get k) (o.path k name) text s
      ((write o k name text : StateM σ _).run s) := by
  rcases hmade : (createDirectories (o.directories.get k) : StateM σ _).run s with ⟨e | u, s₁⟩
  · rw [write, bind_run hmade]
    exact .unmade hmade
  · rcases hreplaced : (replaceFile (o.directories.get k) (o.path k name) text :
      StateM σ _).run s₁ with ⟨e | u, s₂⟩
    all_goals rw [write, bind_run hmade, bind_run hreplaced]
    · exact .unreplaced hmade hreplaced
    · exact .replaced hmade hreplaced

/-- **Writing is all or nothing,** whichever call the system fails. An error is about the directory
    if that could not be made, and about the file otherwise; no file is added, changed or removed
    then. Without an error the file has the text, whatever it was before, and all other files are
    as they were. New are, in both cases, directories only. -/
theorem write_allOrNothing {σ ι : Type} [DecidableEq ι] [Host (StateM σ)] (C : Contract σ ι)
    (o : Output) (k : Sdk.Kind) (name text : String) {s : σ} (hs : C.proper s) :
    let directory := o.directories.get k
    let target := o.path k name
    let done := (write o k name text : StateM σ _).run s
    (∀ e, done.1 = .error e →
      ((∃ cause, ((createDirectories directory : StateM σ _).run s).1 = .error cause ∧
          e = .write directory cause) ∨
        ∃ cause s₁, (createDirectories directory : StateM σ _).run s = (.ok (), s₁) ∧
          ((replaceFile directory target text : StateM σ _).run s₁).1 = .error cause ∧
          e = .write target cause) ∧
      Tree.Grown (C.tree s) (C.tree done.2) ∧
      ∀ l c, C.tree done.2 l = some (.file c) ↔ C.tree s l = some (.file c)) ∧
    ∀ path, done.1 = .ok path →
      path = target ∧ C.tree s (C.place path) ≠ some .directory ∧
      C.tree done.2 (C.place path) = some (.file (.text text)) ∧
      Tree.Grown (Function.update (C.tree s) (C.place path) (some (.file (.text text))))
        (C.tree done.2) ∧
      ∀ l c, l ≠ C.place path →
        (C.tree done.2 l = some (.file c) ↔ C.tree s l = some (.file c)) := by
  intro directory target done
  have hmaking := C.createDirectories hs directory
  have hreplacing := fun s₁ hs₁ => C.replaceFile (s := s₁) hs₁ directory target text
  have hdone : Writes directory target text s done := writes o k name text s
  clear_value done
  cases hdone with
  | unmade hmade =>
    rw [Ensures, hmade] at hmaking
    refine ⟨fun e he => ?_, fun path hpath => by cases hpath⟩
    obtain rfl := Except.error.inj he
    exact ⟨.inl ⟨_, congrArg Prod.fst hmade, rfl⟩, hmaking.2, fun l c => hmaking.2.file_iff⟩
  | @unreplaced s₁ cause s₂ hmade hreplaced =>
    rw [Ensures, hmade] at hmaking
    obtain ⟨hs₁, hgrown⟩ := hmaking
    have hsame := hreplacing s₁ hs₁
    rw [Ensures, hreplaced] at hsame
    rw [← hsame.2] at hgrown
    refine ⟨fun e he => ?_, fun path hpath => by cases hpath⟩
    obtain rfl := Except.error.inj he
    exact ⟨.inr ⟨_, s₁, hmade, congrArg Prod.fst hreplaced, rfl⟩, hgrown,
      fun l c => hgrown.file_iff⟩
  | @replaced s₁ s₂ hmade hreplaced =>
    rw [Ensures, hmade] at hmaking
    obtain ⟨hs₁, hgrown⟩ := hmaking
    have hput := hreplacing s₁ hs₁
    rw [Ensures, hreplaced] at hput
    obtain ⟨-, hfree, htree⟩ := hput
    refine ⟨fun e he => (by cases he), fun path hpath => ?_⟩
    obtain rfl := Except.ok.inj hpath
    have hgrown' := hgrown.update (l := C.place target) (.file (.text text))
    rw [← htree] at hgrown'
    refine ⟨rfl, fun hdir => hfree (hgrown.directory hdir), ?_, hgrown', fun l c hl => ?_⟩
    · rw [hgrown'.file_iff, Function.update_self]
    · rw [hgrown'.file_iff, Function.update_of_ne hl]

/-- A machine with a file, on which some calls are refused -/
def fieldsSdk (refuses : Action → Option OsError) : Machine where
  disk := ⟨[(["out"], .directory), (["out", "f"], .directory),
    (["out", "f", "AdFields.cs"], .file (.text "longer than the new text"))]⟩
  base := []
  refuses := refuses
  time := ⟨2020, 1, 1, 0, 0, 0⟩

/-- The file cannot be shared. -/
def refuseSharing : Action → Option OsError
  | .shareTemporary _ => some .busy
  | _ => none

/-- Puts a new text into the file. -/
def writeNew : StateM Machine (Except Error Path) :=
  write ⟨⟨⟨"out/o"⟩, ⟨"out/f"⟩, ⟨"out/v"⟩⟩, "cs"⟩ .fields "AdFields" "new"

theorem write_allOrNothing_adFields :
    ((writeNew.run (fieldsSdk fun _ => none)).1 = .ok ⟨"out/f/AdFields.cs"⟩ ∧
      (writeNew.run (fieldsSdk fun _ => none)).2.disk.get? ["out", "f", "AdFields.cs"] =
        some (.file (.text "new"))) ∧
    (writeNew.run (fieldsSdk refuseSharing)).1 =
      .error (.write ⟨"out/f/AdFields.cs"⟩ .busy) ∧
    ∀ l c, (writeNew.run (fieldsSdk refuseSharing)).2.disk.get? l = some (.file c) ↔
      (fieldsSdk refuseSharing).disk.get? l = some (.file c) := by
  have hbased : ∀ refuses, (fieldsSdk refuses).base = [] ∧ (fieldsSdk refuses).disk.Based [] :=
    fun refuses => ⟨rfl, fun h => List.prefix_nil.1 h ▸ rfl, fun _ h => by cases h⟩
  have hall := fun refuses => write_allOrNothing (machineContract [])
    ⟨⟨⟨"out/o"⟩, ⟨"out/f"⟩, ⟨"out/v"⟩⟩, "cs"⟩ .fields "AdFields" "new" (hbased refuses)
  simp only [machineContract_tree, machineContract_place] at hall
  rw [← writeNew] at hall
  have hplace : (⟨"out/f/AdFields.cs"⟩ : Path).location [] = ["out", "f", "AdFields.cs"] := by
    decide +kernel
  have hok : (writeNew.run (fieldsSdk fun _ => none)).1 = .ok ⟨"out/f/AdFields.cs"⟩ := by
    decide +kernel
  have hstuck : (writeNew.run (fieldsSdk refuseSharing)).1 =
      .error (.write ⟨"out/f/AdFields.cs"⟩ .busy) := by decide +kernel
  obtain ⟨-, -, hnew, -⟩ := (hall fun _ => none).2 _ hok
  obtain ⟨-, -, hsame⟩ := (hall refuseSharing).1 _ hstuck
  rw [hplace] at hnew
  exact ⟨⟨hok, hnew⟩, hstuck, hsame⟩

end PhpSharp.Conversion
