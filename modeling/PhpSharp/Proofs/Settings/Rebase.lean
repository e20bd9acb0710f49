/-
  Settings that are seen from a directory.

  * `rebase_rebase`: seen from one directory and then from another, they are seen from the one
    behind the other;
  * `directories_rebase`: so are the directories that classes come from and files go to, and what
    is seen from an absolute directory stays as it is.
-/
import PhpSharp.Proofs.Files.Path
import PhpSharp.Settings.Basic

namespace PhpSharp.Settings

open Sdk (Kind)

variable (s : Settings) (base : Path)

/-- That absolute paths are left out makes no difference: `join` leaves them as they are. -/
theorem rebasePath_eq (p : Path) : rebasePath base p = base.join p := by
  unfold rebasePath
  split
  · rename_i hp
    rw [Path.join_of_absolute hp]
  · rfl

theorem rebase_eq : s.rebase base =
    { s with sdkRoot := base.join s.sdkRoot, outputRoot := base.join s.outputRoot } := by
  rw [rebase, rebasePath_eq, rebasePath_eq]

theorem inputDirectory_rebase (k : Kind) :
    (s.rebase base).inputDirectory k = base.join (s.inputDirectory k) := by
  rw [rebase_eq]
  exact Path.join_assoc base s.sdkRoot (s.inputs.get k)

theorem outputDirectory_rebase (k : Kind) :
    (s.rebase base).outputDirectory k = base.join (s.outputDirectory k) := by
  rw [rebase_eq]
  exact Path.join_assoc base s.outputRoot (s.outputs.get k)

/-- **Settings seen from two directories.** -/
theorem rebase_rebase (other : Path) :
    (s.rebase base).rebase other = s.rebase (other.join base) := by
  simp only [rebase_eq, Path.join_assoc]

/-- **The directories of settings** that are seen from `base` are the directories of the settings,
    seen from `base`. -/
theorem directories_rebase :
    (∀ p q r : Path, (p.join q).join r = p.join (q.join r)) ∧
    (∀ k, (s.rebase base).inputDirectory k = base.join (s.inputDirectory k) ∧
      (s.rebase base).outputDirectory k = base.join (s.outputDirectory k)) ∧
    (base.isAbsolute = true → ∀ other, (s.rebase base).rebase other = s.rebase base) := by
  refine ⟨Path.join_assoc, fun k => ⟨?_, ?_⟩, fun habs other => ?_⟩
  · exact inputDirectory_rebase s base k
  · exact outputDirectory_rebase s base k
  · rw [rebase_rebase, Path.join_of_absolute habs]

/-- The defaults, with an input directory elsewhere and roots of two kinds. -/
def mixedRoots : Settings :=
  { defaults with
    sdkRoot := ⟨"sdk/"⟩, outputRoot := ⟨"/abs/out"⟩
    inputs := ⟨⟨"src"⟩, ⟨""⟩, ⟨"/values"⟩⟩ }

/-- From `/conf`, a relative root is below it, and an absolute one where it was. -/
theorem directories_rebase_mixed :
    (⟨"/conf"⟩ : Path).isAbsolute = true ∧
    (mixedRoots.rebase ⟨"/conf"⟩).inputDirectory .object = ⟨"/conf/sdk/src"⟩ ∧
    (mixedRoots.rebase ⟨"/conf"⟩).inputDirectory .fields = ⟨"/conf/sdk/"⟩ ∧
    (mixedRoots.rebase ⟨"/conf"⟩).inputDirectory .values = ⟨"/values"⟩ ∧
    (mixedRoots.rebase ⟨"/conf"⟩).outputDirectory .object = ⟨"/abs/out/Output"⟩ ∧
    (mixedRoots.rebase ⟨"/conf"⟩).rebase ⟨"elsewhere"⟩ = mixedRoots.rebase ⟨"/conf"⟩ := by
  have habs : (⟨"/conf"⟩ : Path).isAbsolute = true := by decide
  obtain ⟨-, hdirs, hagain⟩ := directories_rebase mixedRoots ⟨"/conf"⟩
  refine ⟨habs, ?_, ?_, ?_, ?_, hagain habs _⟩
  · rw [(hdirs .object).1]
    decide
  · rw [(hdirs .fields).1]
    decide
  · rw [(hdirs .values).1]
    decide
  · rw [(hdirs .object).2]
    decide

end PhpSharp.Settings
