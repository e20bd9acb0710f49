/-
  When the same comes of a class on two machines.

  * `Plan.Same p d s s'`: what the outcome of a class depends on is the same on both;
  * `Progress.file`: what is in the files after all classes.
-/
import PhpSharp.Proofs.Conversion.Runs

namespace PhpSharp.Conversion

open Files (Machine Disk Location Content)

variable {p : Plan} {s s' : Machine} {d : Sdk.Descriptor}

/-- **The same comes of a class on two machines:** its facts are the same, and so is what comes of
    writing its file. -/
structure Plan.Same (p : Plan) (d : Sdk.Descriptor) (s s' : Machine) : Prop where
  base : s'.base = s.base
  facts : reflectFrom (s'.disk.readText s'.base) p.settings d =
    reflectFrom (s.disk.readText s.base) p.settings d
  writing : p.writing s' d = p.writing s d

namespace Plan.Same

theorem generated_eq (h : p.Same d s s') : p.generated s' d = p.generated s d := by
  rw [Plan.generated, Plan.generated, h.facts]

theorem conversion_eq (h : p.Same d s s') : p.conversion s' d = p.conversion s d := by
  rw [Plan.conversion, Plan.conversion, h.generated_eq, h.writing]

theorem outcome_eq (h : p.Same d s s') (i : Nat) : p.outcome s' d i = p.outcome s d i := by
  rw [Plan.outcome, Plan.outcome, h.conversion_eq]

theorem effect_eq (h : p.Same d s s') : p.effect s' d = p.effect s d := by
  rw [Plan.effect, Plan.effect, h.generated_eq, h.conversion_eq, h.base]

end Plan.Same

/-- After files of classes were written, the same comes of every class. -/
theorem Onward.same {ds : List Sdk.Descriptor} {writes : List (Location × Content)}
    (ho : Onward p s writes s') (hp : Prepared p s ds) (hd : d ∈ ds)
    (hw : ∀ w ∈ writes, w.1 ∈ ds.map (p.location · s.base)) : p.Same d s s' :=
  ⟨ho.base, ho.reflect_eq hp hd hw, ho.writing_eq hp hd hw⟩

section
variable {ds : List Sdk.Descriptor} {history : List Nat} {l : Location} {c : Content}

/-- **What is in the files after all classes** is what was written for one of them, or was there
    before. -/
theorem Progress.file (hg : Progress p s ds history s')
    (hall : history.Perm (List.range ds.length)) :
    s'.disk.get? l = some (.file c) ↔
      (∃ d ∈ ds, (l, c) ∈ p.effect s d) ∨
        (∀ c', ¬∃ d ∈ ds, (l, c') ∈ p.effect s d) ∧ s.disk.get? l = some (.file c) := by
  have hmem : ∀ c, (l, c) ∈ p.effects s ds history ↔ ∃ d ∈ ds, (l, c) ∈ p.effect s d := by
    intro c
    rw [Plan.mem_effects]
    constructor
    · rintro ⟨i, -, d, hd, hc⟩
      exact ⟨d, List.mem_of_getElem? hd, hc⟩
    · rintro ⟨d, hd, hc⟩
      obtain ⟨i, hi⟩ := List.mem_iff_getElem?.1 hd
      have hlt := (List.getElem?_eq_some_iff.1 hi).1
      exact ⟨i, hall.mem_iff.2 (List.mem_range.2 hlt), d, hi, hc⟩
  simp only [hg.onward.disk.file, hmem]

/-- A file that was not written is as it was. -/
theorem Progress.file_of_unwritten (hg : Progress p s ds history s')
    (hall : history.Perm (List.range ds.length)) (h : ∀ d ∈ ds, ∀ c, (l, c) ∉ p.effect s d) :
    s'.disk.get? l = some (.file c) ↔ s.disk.get? l = some (.file c) := by
  have hno : ∀ c, ¬∃ d ∈ ds, (l, c) ∈ p.effect s d := fun c ⟨d, hd, hc⟩ => h d hd c hc
  rw [hg.file hall, or_iff_right (hno c), and_iff_right hno]

/-- What is written for a class is where its outcome says. -/
theorem Plan.of_mem_effect (h : (l, c) ∈ p.effect s d) :
    ∃ path, (p.conversion s d).1 = .written path ∧ path.location s.base = l := by
  have hlocation := Plan.location_of_mem_effect h
  unfold Plan.effect at h
  split at h
  · rename_i text path htext hwritten
    refine ⟨path, hwritten, ?_⟩
    rw [(Plan.writing_eq_ok (Plan.of_conversion_eq_written hwritten).1).1]
    exact hlocation.symm
  · cases h

end

end PhpSharp.Conversion
