/-
  Whole runs, by the program or by any number of workers in any order.

  * `Converts p ds s outcomes s'`: the classes `ds` are converted from the state `s` on;
    what is steady comes of every class (`Converts.steady`), and what every class keeps is kept
    (`Converts.keeps`);
  * `Runs p s outcomes s'`: the same of a whole run on a machine, which first finds the classes.
-/
import PhpSharp.Proofs.Conversion.Discovery
import PhpSharp.Proofs.Conversion.Parallel

namespace PhpSharp.Conversion

open Files (Host Keeps Machine bind_run)

section
variable {σ γ : Type} [Host (StateM σ)] {p : Plan} {ds : List Sdk.Descriptor} {s s' : σ}
  {outcomes : List Outcome}

/-- **Classes are converted,** as the program does it or by any number of workers, whatever the
    order of their steps, once all of them have stopped. -/
inductive Converts (p : Plan) (ds : List Sdk.Descriptor) (s : σ) : List Outcome → σ → Prop
  | program {outcomes : List Outcome} {s' : σ}
      (h : (processAll p ds : StateM σ _).run s = (outcomes, s')) :
      Converts p ds s outcomes s'
  | workers {size : Nat} {order : List Nat} {done : Pool Outcome} {s' : σ}
      (hsize : 0 < size)
      (h : ((Pool.fresh size).run ds (process p) order : StateM σ _).run s = (done, s'))
      (hdone : done.isDone = true) : Converts p ds s (inOrder done.results) s'

/-- **What is steady comes of every class,** in the order in which the classes were found. -/
theorem Converts.steady {view : Outcome → γ} {expected : Nat → Sdk.Descriptor → γ}
    {Good : List Nat → σ → Prop} (key : γ → Nat) (hk : ∀ o, key (view o) = o.index)
    (he : ∀ i d, key (expected i d) = i) (hs : Pool.Steady ds (process p) view expected Good)
    (h : Converts p ds s outcomes s') (hg : Good [] s) :
    outcomes.map view = ds.mapIdx expected ∧
      ∃ history, history.Perm (List.range ds.length) ∧ Good history s' := by
  have hworkers : ∀ {size : Nat} {order : List Nat} {done : Pool Outcome} {s' : σ}, 0 < size →
      ((Pool.fresh size).run ds (process p) order : StateM σ _).run s = (done, s') →
      done.isDone = true → (inOrder done.results).map view = ds.mapIdx expected ∧
        ∃ history, history.Perm (List.range ds.length) ∧ Good history s' := by
    intro size order done s' hsize h hdone
    have hresults := Pool.run_results hs hsize order hg
    rw [h] at hresults
    obtain ⟨history, hperm, hgood, hviews⟩ := hresults hdone
    exact ⟨inOrder_map key hk hviews (pairwise_mapIdx he ds), history, hperm, hgood⟩
  cases h with
  | workers hsize h hdone => exact hworkers hsize h hdone
  | program h =>
    unfold processAll at h
    dsimp only at h
    split at h
    · have horder := processInOrder_run hs [] rfl hg
      rw [List.length_nil, h] at horder
      simp only [Nat.zero_add] at horder
      exact ⟨horder.1, List.range ds.length, .refl _, horder.2⟩
    · have hdone := Pool.rounds_isDone ds (process p) (workerCount p.settings ds.length) s
      rcases hrun : ((Pool.fresh (workerCount p.settings ds.length)).run ds (process p)
        (Pool.rounds ds.length (workerCount p.settings ds.length)) : StateM σ _).run s with
        ⟨done, s₁⟩
      rw [bind_run hrun] at h
      rw [hrun] at hdone
      cases h
      exact hworkers (Nat.lt_of_lt_of_le Nat.zero_lt_one (Nat.le_max_left ..)) hrun hdone

/-- **What every class keeps is kept,** and every class has one outcome, of which is true what is
    true of the class. -/
theorem Converts.keeps {I : σ → Prop} {Q : Sdk.Descriptor → Outcome → Prop}
    (hx : ∀ i, ∀ d ∈ ds, Keeps I (process p i d) (Q d)) (h : Converts p ds s outcomes s')
    (hs : I s) :
    I s' ∧ outcomes.map Outcome.subject = ds.mapIdx subjectAt ∧
      ∀ (i : Nat) (d), ds[i]? = some d → ∃ o, outcomes[i]? = some o ∧ Q d o := by
  let holds (o : Outcome) : Prop := ∃ d, ds[o.index]? = some d ∧ Q d o
  have hsteady : Pool.Steady ds (process p : Nat → Sdk.Descriptor → StateM σ Outcome)
      (fun o => (o.subject, holds o)) (fun i d => (subjectAt i d, True)) (fun _ => I) := by
    refine ⟨fun {history s i d} hg _ hd => ?_, fun {history s i d} hg _ hd => ?_⟩
    · have hsubject := subject_process p i d s
      refine Prod.ext hsubject (eq_true ⟨d, ?_, (hx i d (List.mem_of_getElem? hd) s hg).2⟩)
      rw [show Outcome.index _ = i from congrArg Prod.fst hsubject]
      exact hd
    · exact (hx i d (List.mem_of_getElem? hd) s hg).1
  obtain ⟨hviews, history, -, hgood⟩ :=
    h.steady (fun v => v.1.1) (fun _ => rfl) (fun _ _ => rfl) hsteady hs
  have hat : ∀ i : Nat, outcomes[i]?.map (fun o => (o.subject, holds o)) =
      ds[i]?.map fun d => (subjectAt i d, True) := fun i => by
    rw [← List.getElem?_map, hviews, List.getElem?_mapIdx]
  refine ⟨hgood, List.ext_getElem? fun i => ?_, fun i d hd => ?_⟩
  · have hi := congrArg (Option.map Prod.fst) (hat i)
    rw [Option.map_map, Option.map_map] at hi
    rw [List.getElem?_map, List.getElem?_mapIdx]
    exact hi
  · have hi := hat i
    rw [hd] at hi
    obtain ⟨o, ho, heq⟩ := Option.map_eq_some_iff.1 hi
    obtain ⟨hsubject, hholds⟩ := Prod.mk.inj heq
    obtain ⟨d', hd', hq⟩ := of_eq_true hholds
    rw [show o.index = i from congrArg Prod.fst hsubject, hd] at hd'
    obtain rfl := Option.some.inj hd'
    exact ⟨o, ho, hq⟩

end

/-- A run with a report has found classes and converted them. -/
theorem run_eq_ok {σ : Type} [Host (StateM σ)] {p : Plan} {s : σ} {report : Report}
    (h : ((run p : StateM σ _).run s).1 = .ok report) :
    ∃ found s₁ s₂,
      (discover p.settings : StateM σ _).run ((Host.clock : StateM σ Nat).run s).2 =
        (.ok found, s₁) ∧
      (processAll p found.descriptors : StateM σ _).run s₁ = (report.outcomes, s₂) ∧
      report.discovered = found.descriptors.length ∧ report.skipped = found.skipped.length := by
  rcases hclock : (Host.clock : StateM σ Nat).run s with ⟨started, s₀⟩
  rcases hfound : (discover p.settings : StateM σ _).run s₀ with ⟨found, s₁⟩
  rw [run, bind_run hclock, bind_run hfound] at h
  cases found with
  | error e => cases h
  | ok found =>
    dsimp only at h
    rcases hall : (processAll p found.descriptors : StateM σ _).run s₁ with ⟨outcomes, s₂⟩
    rcases hend : (Host.clock : StateM σ Nat).run s₂ with ⟨ended, s₃⟩
    rw [bind_run hall, bind_run hend] at h
    cases h
    exact ⟨found, s₁, s₂, rfl, hall, rfl, rfl⟩

/-! ## On a machine -/

/-- **A run on a machine,** as the program does it or by any number of workers. -/
inductive Runs (p : Plan) (s : Machine) : List Outcome → Machine → Prop
  | program {report s'} (h : (run p : StateM Machine _).run s = (.ok report, s')) :
      Runs p s report.outcomes s'
  | workers {found s₁ size order done s'}
      (hfound : (discover p.settings : StateM Machine _).run s = (.ok found, s₁))
      (hsize : 0 < size)
      (h : ((Pool.fresh size).run found.descriptors (process p) order :
        StateM Machine (Pool Outcome)).run s₁ = (done, s'))
      (hdone : done.isDone = true) : Runs p s (inOrder done.results) s'

section
variable {p : Plan} {s s' : Machine} {outcomes : List Outcome}

/-- What the program answers once the classes are found. -/
theorem run_of_discover {found : Scan} {s₁ : Machine}
    (h : (discover p.settings : StateM Machine _).run s = (.ok found, s₁)) :
    ∃ report, (run p : StateM Machine _).run s =
        (.ok report, ((processAll p found.descriptors : StateM Machine _).run s₁).2) ∧
      report.outcomes = ((processAll p found.descriptors : StateM Machine _).run s₁).1 := by
  have hclock : ∀ s : Machine, (Host.clock : StateM Machine Nat).run s = (0, s) := fun _ => rfl
  rcases hall : (processAll p found.descriptors : StateM Machine _).run s₁ with ⟨outcomes, s₂⟩
  rw [run, bind_run (hclock s), bind_run h]
  refine ⟨_, (bind_run hall).trans (bind_run (hclock s₂)), rfl⟩

/-- A run finds the classes and converts them. -/
theorem Runs.converts (h : Runs p s outcomes s') :
    ∃ found s₁, (discover p.settings : StateM Machine _).run s = (.ok found, s₁) ∧
      Converts p found.descriptors s₁ outcomes s' := by
  cases h with
  | workers hfound hsize h hdone => exact ⟨_, _, hfound, .workers hsize h hdone⟩
  | program h =>
    rcases hfound : (discover p.settings : StateM Machine _).run s with ⟨found, s₁⟩
    cases found with
    | error e =>
      have hclock : (Host.clock : StateM Machine Nat).run s = (0, s) := rfl
      rw [run, bind_run hclock, bind_run hfound] at h
      cases h
    | ok found =>
      obtain ⟨report', hrun, houtcomes⟩ := run_of_discover (p := p) hfound
      rw [hrun] at h
      obtain ⟨hreport, rfl⟩ := Prod.mk.inj h
      obtain rfl := Except.ok.inj hreport
      exact ⟨found, s₁, rfl, .program (Prod.ext houtcomes.symm rfl)⟩

/-- The outcomes of a run are about the classes that were found, in their order. -/
theorem Runs.subjects {found : Scan} {s₁ : Machine}
    (hf : (discover p.settings : StateM Machine _).run s = (.ok found, s₁))
    (h : Runs p s outcomes s') :
    outcomes.map Outcome.subject = found.descriptors.mapIdx subjectAt := by
  obtain ⟨found', s₁', hf', hconverts⟩ := h.converts
  rw [hf] at hf'
  cases hf'
  exact (hconverts.steady Prod.fst (fun _ => rfl) (fun _ _ => rfl)
    (steady_subject p found.descriptors s₁) rfl).1

/-- **What comes of a run** whose classes keep apart: the outcome of every class by itself, and what
    is written for it. -/
theorem Runs.progress {found : Scan} {s₁ : Machine} (hp : Prepared p s found.descriptors)
    (hf : (discover p.settings : StateM Machine _).run s = (.ok found, s₁))
    (h : Runs p s outcomes s') :
    outcomes = found.descriptors.mapIdx (fun i d => p.outcome s d i) ∧
      ∃ history, history.Perm (List.range found.descriptors.length) ∧
        Progress p s found.descriptors history s' := by
  obtain ⟨found', s₁', hf', hconverts⟩ := h.converts
  rw [hf] at hf'
  cases hf'
  obtain ⟨⟨es, rfl⟩, -⟩ := scanAll_run hf
  have hplace : ∀ i d, (p.outcome s d i).index = i := fun _ _ => rfl
  have hsteady := hconverts.steady Outcome.index (fun _ => rfl) hplace
    (steady_process hp) (Progress.refl hp es)
  rwa [List.map_id'] at hsteady

end

end PhpSharp.Conversion
