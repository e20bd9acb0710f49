/-
  What workers that share a list of jobs have done when all of them have stopped.

  A job may change a state that all jobs share. `Steady` says that this does no harm to what is
  looked at in a result (`view`): whatever jobs were done before, and in whatever order, it is what
  it is expected to be.

  * `Accounts h p`: `h` lists the jobs done so far in the order in which they were done. A number
    below the counter was done or is held by one worker, and no number twice (`step_accounts`,
    `run_accounts`: every step of every worker keeps it so);
  * `run_results`: once all workers have stopped, every job was done once, and what they kept are
    the expected results;
  * `rounds_isDone`: the workers do stop.
-/
import Mathlib.Data.List.Basic
import Mathlib.Data.List.Induction
import Mathlib.Tactic.SplitIfs
import PhpSharp.Conversion.Pool

namespace PhpSharp.Conversion

variable {σ α β γ : Type}

/-- The number of a job that a worker holds and has not done. -/
def Worker.held (count : Nat) (w : Worker β) : List Nat :=
  match w.phase with
  | .holding i => if i < count then [i] else []
  | _ => []

/-- The results of the jobs that a worker has done, whether it has kept the last one or not. -/
def Worker.done (w : Worker β) : List β :=
  match w.phase with
  | .finished r => w.results ++ [r]
  | _ => w.results

/-- The most steps that a worker makes before it stops. -/
def Worker.left (count next : Nat) (w : Worker β) : Nat :=
  match w.phase with
  | .idle => 3 * (count - next) + 2
  | .holding i => if i < count then 3 * (count - next) + 4 else 1
  | .finished _ => 3 * (count - next) + 3
  | .stopped => 0

theorem Worker.phase_of_isStopped {w : Worker β} (h : w.isStopped = true) : w.phase = .stopped := by
  unfold Worker.isStopped at h
  split at h
  · assumption
  · cases h

theorem Worker.isStopped_of_left {count next : Nat} {w : Worker β} (h : w.left count next = 0) :
    w.isStopped = true := by
  unfold Worker.left at h
  unfold Worker.isStopped
  split at h
  · omega
  · split at h <;> omega
  · omega
  · rename_i hp
    rw [hp]

namespace Pool

/-- **Jobs do not disturb each other.** `Good h s` is what is known of the state after the jobs of
    `h`, in that order. A job that is not among them has the expected result there. -/
structure Steady (jobs : List α) (work : Nat → α → StateM σ β) (view : β → γ)
    (expected : Nat → α → γ) (Good : List Nat → σ → Prop) : Prop where
  result : ∀ {h : List Nat} {s : σ} {i : Nat} {job : α}, Good h s → i ∉ h → jobs[i]? = some job →
    view ((work i job).run s).1 = expected i job
  state : ∀ {h : List Nat} {s : σ} {i : Nat} {job : α}, Good h s → i ∉ h → jobs[i]? = some job →
    Good (h ++ [i]) ((work i job).run s).2

/-- What is expected of the jobs of a history. -/
def expectations (jobs : List α) (expected : Nat → α → γ) (h : List Nat) : List γ :=
  h.filterMap fun i => jobs[i]?.map (expected i)

/-- **The jobs of `h` are those that a pool has done**, and every other number below the counter is
    held by a worker. -/
structure Accounts (jobs : List α) (view : β → γ) (expected : Nat → α → γ) (h : List Nat)
    (p : Pool β) : Prop where
  taken : (h ++ p.workers.flatMap (Worker.held jobs.length)).Perm
    (List.range (min p.next jobs.length))
  done : ((p.workers.flatMap Worker.done).map view).Perm (expectations jobs expected h)
  below : ∀ w ∈ p.workers, ∀ i, w.phase = .holding i → i < p.next
  stopped : ∀ w ∈ p.workers, w.phase = .stopped → jobs.length ≤ p.next

/-! ## One worker among others -/

/-- Putting a worker in another's place changes its part of what all have. -/
theorem flatMap_set {δ : Type} {ws : List (Worker β)} {k : Nat} {w : Worker β}
    (h : ws[k]? = some w) (f : Worker β → List δ) :
    ∃ xs ys, ws.flatMap f = xs ++ f w ++ ys ∧
      ∀ w', (ws.set k w').flatMap f = xs ++ f w' ++ ys := by
  obtain ⟨hk, rfl⟩ := List.getElem?_eq_some_iff.1 h
  have hparts : ws = ws.take k ++ ws[k] :: ws.drop (k + 1) := by
    rw [← List.drop_eq_getElem_cons hk, List.take_append_drop]
  refine ⟨(ws.take k).flatMap f, (ws.drop (k + 1)).flatMap f, ?_, ?_⟩
  · refine (congrArg (List.flatMap f) hparts).trans ?_
    simp only [List.flatMap_append, List.flatMap_cons, List.append_assoc]
  · intro w'
    rw [List.set_eq_take_append_cons_drop, if_pos hk]
    simp

/-- Putting a worker in another's place leaves what all have as it is, if both have the same. -/
theorem flatMap_set_eq {δ : Type} {ws : List (Worker β)} {k : Nat} {w w' : Worker β}
    (h : ws[k]? = some w) {f : Worker β → List δ} (he : f w' = f w) :
    (ws.set k w').flatMap f = ws.flatMap f := by
  obtain ⟨xs, ys, hold, hset⟩ := flatMap_set h f
  rw [hset, hold, he]

/-- A property of all workers is kept if the one that is put in has it. -/
theorem forall_mem_set {ws : List (Worker β)} {k : Nat} {w : Worker β} {P : Worker β → Prop}
    (h : ∀ w ∈ ws, P w) (hw : P w) : ∀ w' ∈ ws.set k w, P w' := by
  intro w' hm
  rcases List.mem_or_eq_of_mem_set hm with hm | rfl
  · exact h w' hm
  · exact hw

/-! ## Steps -/

section
variable {jobs : List α} {work : Nat → α → StateM σ β} {view : β → γ} {expected : Nat → α → γ}
  {Good : List Nat → σ → Prop} {h : List Nat} {p : Pool β} {k : Nat} {w : Worker β}

/-- A number is taken: nobody else has it. -/
theorem Accounts.take (ha : Accounts jobs view expected h p) (hw : p.workers[k]? = some w)
    (hi : w.phase = .idle) :
    Accounts jobs view expected h
      { p.put k { w with phase := .holding p.next } with next := p.next + 1 } := by
  have hdone : Worker.done { w with phase := .holding p.next } = w.done := by
    simp only [Worker.done, hi]
  have hheld : w.held jobs.length = [] := by simp only [Worker.held, hi]
  refine ⟨?_, ?_, ?_, ?_⟩
  · obtain ⟨xs, ys, hold, hset⟩ := flatMap_set hw (Worker.held jobs.length)
    have htaken := ha.taken
    rw [hold, hheld] at htaken
    show (h ++ (p.workers.set k _).flatMap _).Perm _
    rw [hset]
    by_cases hn : p.next < jobs.length
    · have hrange : List.range (min (p.next + 1) jobs.length) =
          List.range (min p.next jobs.length) ++ [p.next] := by
        rw [Nat.min_eq_left hn, Nat.min_eq_left (Nat.le_of_lt hn), List.range_succ]
      have hnew : Worker.held jobs.length { w with phase := .holding p.next } = [p.next] := by
        simp only [Worker.held, if_pos hn]
      rw [hnew, hrange]
      refine List.Perm.trans ?_ (htaken.append_right [p.next])
      simp only [List.append_assoc, List.append_nil]
      exact ((List.perm_append_comm).append_left xs).append_left h
    · have hnew : Worker.held jobs.length { w with phase := .holding p.next } = [] := by
        simp only [Worker.held, if_neg hn]
      have hcount : jobs.length ≤ p.next := Nat.le_of_not_lt hn
      rw [hnew, Nat.min_eq_right (Nat.le_succ_of_le hcount)]
      rwa [Nat.min_eq_right hcount] at htaken
  · show (((p.workers.set k _).flatMap _).map view).Perm _
    rw [flatMap_set_eq hw hdone]
    exact ha.done
  · refine forall_mem_set (fun w' hm i hp => ?_) (fun i hp => ?_)
    · exact Nat.lt_succ_of_lt (ha.below w' hm i hp)
    · cases hp
      exact Nat.lt_succ_self _
  · refine forall_mem_set (fun w' hm hp => ?_) (fun hp => nomatch hp)
    exact Nat.le_succ_of_le (ha.stopped w' hm hp)

/-- A worker stops: it holds a number that there is no job of. -/
theorem Accounts.stop (ha : Accounts jobs view expected h p) (hw : p.workers[k]? = some w)
    {i : Nat} (hi : w.phase = .holding i) (hj : jobs[i]? = none) :
    Accounts jobs view expected h (p.put k { w with phase := .stopped }) := by
  have hlen : jobs.length ≤ i := List.getElem?_eq_none_iff.1 hj
  have hheld : Worker.held jobs.length { w with phase := .stopped } = w.held jobs.length := by
    simp only [Worker.held, hi, if_neg (Nat.not_lt.2 hlen)]
  have hdone : Worker.done { w with phase := .stopped } = w.done := by
    simp only [Worker.done, hi]
  have hnext : i < p.next := ha.below w (List.mem_of_getElem? hw) i hi
  refine ⟨?_, ?_, ?_, ?_⟩
  · show (h ++ (p.workers.set k _).flatMap _).Perm _
    rw [flatMap_set_eq hw hheld]
    exact ha.taken
  · show (((p.workers.set k _).flatMap _).map view).Perm _
    rw [flatMap_set_eq hw hdone]
    exact ha.done
  · exact forall_mem_set ha.below (fun _ hp => nomatch hp)
  · refine forall_mem_set ha.stopped (fun _ => ?_)
    show jobs.length ≤ p.next
    omega

/-- A number that a worker holds was not done by anybody. -/
theorem Accounts.not_mem (ha : Accounts jobs view expected h p) (hw : p.workers[k]? = some w)
    {i : Nat} (hi : w.phase = .holding i) (hlt : i < jobs.length) : i ∉ h := by
  intro hm
  have hnodup := ha.taken.nodup_iff.2 List.nodup_range
  have hheld : i ∈ w.held jobs.length := by simp [Worker.held, hi, hlt]
  have hmem := List.mem_flatMap.2 ⟨w, List.mem_of_getElem? hw, hheld⟩
  exact (List.nodup_append.1 hnodup).2.2 i hm i hmem rfl

/-- A job is done. -/
theorem Accounts.perform (ha : Accounts jobs view expected h p)
    (hw : p.workers[k]? = some w) {i : Nat} (hi : w.phase = .holding i) (hlt : i < jobs.length)
    {job : α} (hj : jobs[i]? = some job) {r : β} (hr : view r = expected i job) :
    Accounts jobs view expected (h ++ [i]) (p.put k { w with phase := .finished r }) := by
  refine ⟨?_, ?_, ?_, ?_⟩
  · obtain ⟨xs, ys, hold, hset⟩ := flatMap_set hw (Worker.held jobs.length)
    have hheld : w.held jobs.length = [i] := by simp only [Worker.held, hi, if_pos hlt]
    have hnew : Worker.held jobs.length { w with phase := .finished r } = [] := rfl
    have htaken := ha.taken
    rw [hold, hheld] at htaken
    show (h ++ [i] ++ (p.workers.set k _).flatMap _).Perm _
    rw [hset, hnew]
    refine List.Perm.trans ?_ htaken
    simp only [List.append_assoc, List.append_nil]
    refine List.Perm.append_left h ?_
    rw [← List.append_assoc, ← List.append_assoc]
    exact List.perm_append_comm.append_right ys
  · obtain ⟨xs, ys, hold, hset⟩ := flatMap_set hw (Worker.done (β := β))
    have hdone : w.done = w.results := by simp only [Worker.done, hi]
    have hnew : Worker.done { w with phase := .finished r } = w.results ++ [r] := rfl
    show (((p.workers.set k _).flatMap _).map view).Perm _
    have hexpected : expectations jobs expected (h ++ [i]) =
        expectations jobs expected h ++ [expected i job] := by simp [expectations, hj]
    rw [hset, hnew, hexpected]
    refine List.Perm.trans ?_ (ha.done.append_right _)
    rw [hold, hdone]
    simp only [List.map_append, List.append_assoc, List.map_cons, List.map_nil, hr]
    exact ((List.perm_append_comm).append_left (w.results.map view)).append_left (xs.map view)
  · exact forall_mem_set ha.below (fun _ hp => nomatch hp)
  · exact forall_mem_set ha.stopped (fun hp => nomatch hp)

/-- A result is kept. -/
theorem Accounts.keep (ha : Accounts jobs view expected h p) (hw : p.workers[k]? = some w)
    {r : β} (hr : w.phase = .finished r) :
    Accounts jobs view expected h (p.put k { results := w.results ++ [r] }) := by
  have hheld : Worker.held jobs.length { results := w.results ++ [r] : Worker β } =
      w.held jobs.length := by simp only [Worker.held, hr]
  have hdone : Worker.done { results := w.results ++ [r] : Worker β } = w.done := by
    simp only [Worker.done, hr]
  refine ⟨?_, ?_, ?_, ?_⟩
  · show (h ++ (p.workers.set k _).flatMap _).Perm _
    rw [flatMap_set_eq hw hheld]
    exact ha.taken
  · show (((p.workers.set k _).flatMap _).map view).Perm _
    rw [flatMap_set_eq hw hdone]
    exact ha.done
  · exact forall_mem_set ha.below (fun _ hp => nomatch hp)
  · exact forall_mem_set ha.stopped (fun hp => nomatch hp)

/-- **A step of a worker** keeps the account of the jobs done. -/
theorem step_accounts (hs : Steady jobs work view expected Good) {s : σ} (hg : Good h s)
    (ha : Accounts jobs view expected h p) (k : Nat) :
    ∃ h', Good h' ((p.step jobs work k).run s).2 ∧
      Accounts jobs view expected h' ((p.step jobs work k).run s).1 := by
  unfold step
  split
  · exact ⟨h, hg, ha⟩
  · rename_i w hw
    split
    · rename_i hi
      exact ⟨h, hg, ha.take hw hi⟩
    · rename_i i hi
      split
      · rename_i hj
        exact ⟨h, hg, ha.stop hw hi hj⟩
      · rename_i job hj
        have hlt := (List.getElem?_eq_some_iff.1 hj).1
        have hn := ha.not_mem hw hi hlt
        refine ⟨h ++ [i], hs.state hg hn hj, ?_⟩
        exact ha.perform hw hi hlt hj (hs.result hg hn hj)
    · rename_i r hr
      exact ⟨h, hg, ha.keep hw hr⟩
    · exact ⟨h, hg, ha⟩

/-- **The steps of workers, in any order,** keep the account of the jobs done. -/
theorem run_accounts (hs : Steady jobs work view expected Good) (order : List Nat) {s : σ}
    (hg : Good h s) (ha : Accounts jobs view expected h p) :
    ∃ h', Good h' ((p.run jobs work order).run s).2 ∧
      Accounts jobs view expected h' ((p.run jobs work order).run s).1 := by
  induction order generalizing h p s with
  | nil => exact ⟨h, hg, ha⟩
  | cons k order ih =>
    obtain ⟨h', hg', ha'⟩ := step_accounts hs hg ha k
    exact ih hg' ha'

/-- At the start nothing was done. -/
theorem accounts_fresh (jobs : List α) (view : β → γ) (expected : Nat → α → γ) (size : Nat) :
    Accounts jobs view expected [] (fresh size : Pool β) := by
  have hidle : ∀ w ∈ (fresh size : Pool β).workers, w = {} :=
    fun w hw => List.eq_of_mem_replicate hw
  have hnone : ∀ {δ : Type} (f : Worker β → List δ), f {} = [] →
      (fresh size : Pool β).workers.flatMap f = [] := by
    intro δ f hf
    refine List.flatMap_eq_nil_iff.2 (fun w hw => ?_)
    rw [hidle w hw, hf]
  refine ⟨?_, ?_, ?_, ?_⟩
  · rw [hnone _ rfl]
    simp [fresh]
  · rw [hnone _ rfl]
    exact List.Perm.nil
  · intro w hw i hi
    rw [hidle w hw] at hi
    cases hi
  · intro w hw hi
    rw [hidle w hw] at hi
    cases hi

/-! ## The end -/

/-- Once all workers have stopped, all jobs were done and all results were kept. -/
theorem Accounts.of_isDone (ha : Accounts jobs view expected h p) (hne : p.workers ≠ [])
    (hd : p.isDone = true) :
    h.Perm (List.range jobs.length) ∧
      (p.results.map view).Perm (expectations jobs expected h) := by
  have hstopped : ∀ w ∈ p.workers, w.phase = .stopped := fun w hw =>
    Worker.phase_of_isStopped (List.all_eq_true.1 hd w hw)
  have hheld : p.workers.flatMap (Worker.held jobs.length) = [] := by
    refine List.flatMap_eq_nil_iff.2 (fun w hw => ?_)
    simp only [Worker.held, hstopped w hw]
  have hkept : p.workers.flatMap Worker.done = p.results := by
    refine List.flatMap_congr (fun w hw => ?_)
    simp only [Worker.done, hstopped w hw]
  obtain ⟨w, hw⟩ := List.exists_mem_of_ne_nil _ hne
  have hnext := ha.stopped w hw (hstopped w hw)
  constructor
  · have := ha.taken
    rwa [hheld, List.append_nil, Nat.min_eq_right hnext] at this
  · rw [← hkept]
    exact ha.done

theorem step_workers_length {s : σ} (k : Nat) :
    ((p.step jobs work k).run s).1.workers.length = p.workers.length := by
  unfold step
  split
  · rfl
  · split
    · exact List.length_set
    · split
      · exact List.length_set
      · exact List.length_set
    · exact List.length_set
    · rfl

theorem run_workers_length (order : List Nat) {s : σ} :
    ((p.run jobs work order).run s).1.workers.length = p.workers.length := by
  induction order generalizing p s with
  | nil => rfl
  | cons k order ih => exact ih.trans (step_workers_length k)

/-- All jobs, each in its place. -/
theorem expectations_range (jobs : List α) (expected : Nat → α → γ) :
    expectations jobs expected (List.range jobs.length) = jobs.mapIdx expected := by
  have hsome : ∀ i ∈ List.range jobs.length,
      jobs[i]?.map (expected i) = (jobs.mapIdx expected)[i]? := fun i _ => by simp
  rw [expectations, List.filterMap_congr hsome]
  have hlength : jobs.length = (jobs.mapIdx expected).length := List.length_mapIdx.symm
  rw [hlength]
  generalize jobs.mapIdx expected = ys
  induction ys using List.reverseRecOn with
  | nil => rfl
  | append_singleton ys y ih =>
    rw [List.length_append, List.length_singleton, List.range_succ, List.filterMap_append]
    have hold : ∀ i ∈ List.range ys.length, (ys ++ [y])[i]? = ys[i]? := fun i hi =>
      List.getElem?_append_left (List.mem_range.1 hi)
    rw [List.filterMap_congr hold, ih]
    simp

/-- **What workers have done once all have stopped:** every job, once, in the order of some
    history; and what they kept are the expected results. -/
theorem run_results (hs : Steady jobs work view expected Good) {size : Nat} (hsize : 0 < size)
    (order : List Nat) {s : σ} (hg : Good [] s)
    (hd : (((fresh size).run jobs work order).run s).1.isDone = true) :
    ∃ history : List Nat, history.Perm (List.range jobs.length) ∧
      Good history (((fresh size).run jobs work order).run s).2 ∧
      ((((fresh size).run jobs work order).run s).1.results.map view).Perm
        (jobs.mapIdx expected) := by
  obtain ⟨history, hgood, ha⟩ := run_accounts hs order hg (accounts_fresh jobs view expected size)
  have hlength : (((fresh size).run jobs work order).run s).1.workers.length = size :=
    (run_workers_length order).trans (by simp [fresh])
  obtain ⟨hperm, hresults⟩ :=
    ha.of_isDone (List.ne_nil_of_length_pos (by rw [hlength]; exact hsize)) hd
  refine ⟨history, hperm, hgood, hresults.trans ?_⟩
  rw [← expectations_range]
  exact hperm.filterMap _

/-! ## Stopping -/

variable (jobs work)

/-- A step is one of a worker that has fewer steps left behind it, or none at all. -/
theorem step_cases (k : Nat) (s : σ) :
    (((p.step jobs work k).run s).1 = p ∧ ∀ w, p.workers[k]? = some w → w.phase = .stopped) ∨
      ∃ w w', p.workers[k]? = some w ∧
        ((p.step jobs work k).run s).1.workers = p.workers.set k w' ∧
        p.next ≤ ((p.step jobs work k).run s).1.next ∧
        w'.left jobs.length ((p.step jobs work k).run s).1.next < w.left jobs.length p.next := by
  unfold step
  split
  · rename_i hw
    exact .inl ⟨rfl, fun w h => by rw [hw] at h; cases h⟩
  · rename_i w hw
    split
    · rename_i hi
      refine .inr ⟨w, _, hw, rfl, Nat.le_succ _, ?_⟩
      simp only [Worker.left, hi]
      show (if p.next < jobs.length then 3 * (jobs.length - (p.next + 1)) + 4 else 1) < _
      split <;> omega
    · rename_i i hi
      split
      · rename_i hj
        have hlen : jobs.length ≤ i := List.getElem?_eq_none_iff.1 hj
        refine .inr ⟨w, _, hw, rfl, Nat.le_refl _, ?_⟩
        simp only [Worker.left, hi, if_neg (Nat.not_lt.2 hlen)]
        omega
      · rename_i job hj
        have hlt := (List.getElem?_eq_some_iff.1 hj).1
        refine .inr ⟨w, { w with phase := .finished ((work i job).run s).1 }, hw, rfl,
          Nat.le_refl _, ?_⟩
        simp only [Worker.left, hi, if_pos hlt]
        show 3 * (jobs.length - p.next) + 3 < _
        omega
    · rename_i r hr
      refine .inr ⟨w, _, hw, rfl, Nat.le_refl _, ?_⟩
      simp only [Worker.left, hr]
      show 3 * (jobs.length - p.next) + 2 < _
      omega
    · rename_i hstop
      refine .inl ⟨rfl, fun w' h => ?_⟩
      rw [hw] at h
      cases h
      exact hstop

/-- A step brings its own worker nearer to the end, and no other away from it. -/
theorem step_left {j : Nat} (hw : p.workers[j]? = some w) (k : Nat) (s : σ) :
    ∃ w', ((p.step jobs work k).run s).1.workers[j]? = some w' ∧
      w'.left jobs.length ((p.step jobs work k).run s).1.next ≤
        w.left jobs.length p.next - [k].count j := by
  rcases step_cases jobs work (p := p) k s with ⟨he, hstop⟩ | hstep
  · refine ⟨w, by rw [he]; exact hw, ?_⟩
    rw [he]
    by_cases hk : k = j
    · subst hk
      simp only [Worker.left, hstop w hw, Nat.zero_sub, Nat.le_refl]
    · simp [hk]
  · obtain ⟨v, v', hv, hworkers, hnext, hleft⟩ := hstep
    by_cases hk : k = j
    · subst hk
      obtain rfl : v = w := Option.some.inj (hv.symm.trans hw)
      have hlt := (List.getElem?_eq_some_iff.1 hw).1
      refine ⟨v', by rw [hworkers, List.getElem?_set_self hlt], ?_⟩
      rw [List.count_singleton_self]
      omega
    · refine ⟨w, by rw [hworkers, List.getElem?_set_ne hk]; exact hw, ?_⟩
      have hcount : [k].count j = 0 := by simp [hk]
      rw [hcount, Nat.sub_zero]
      unfold Worker.left
      split
      · omega
      · split <;> omega
      · omega
      · exact Nat.le_refl _

/-- Every step of a worker brings it nearer to the end, whatever others do in between. -/
theorem run_left {j : Nat} (order : List Nat) (hw : p.workers[j]? = some w) (s : σ) :
    ∃ w', ((p.run jobs work order).run s).1.workers[j]? = some w' ∧
      w'.left jobs.length ((p.run jobs work order).run s).1.next ≤
        w.left jobs.length p.next - order.count j := by
  induction order generalizing p w s with
  | nil => exact ⟨w, hw, Nat.le_refl _⟩
  | cons k order ih =>
    obtain ⟨v, hv, hleft⟩ := step_left jobs work hw k s
    obtain ⟨w', hw', hrest⟩ := ih hv ((p.step jobs work k).run s).2
    refine ⟨w', hw', Nat.le_trans hrest ?_⟩
    have hcount : (k :: order).count j = [k].count j + order.count j := by
      rw [← List.count_append, List.singleton_append]
    omega

/-- Workers that make enough steps stop, whatever the order of these is. -/
theorem run_isDone {size : Nat} (order : List Nat)
    (horder : ∀ j < size, 3 * jobs.length + 2 ≤ order.count j) (s : σ) :
    (((fresh size : Pool β).run jobs work order).run s).1.isDone = true := by
  refine List.all_eq_true.2 (fun w hw => ?_)
  obtain ⟨j, hj, rfl⟩ := List.getElem_of_mem hw
  have hlength : (((fresh size).run jobs work order).run s).1.workers.length = size :=
    (run_workers_length order).trans (by simp [fresh])
  have hlt : j < size := hlength ▸ hj
  have hfirst : (fresh size : Pool β).workers[j]? = some {} := by
    simp [fresh, hlt]
  obtain ⟨w', hw', hleft⟩ := run_left jobs work order hfirst s
  obtain rfl := Option.some.inj ((List.getElem?_eq_getElem hj).symm.trans hw')
  have hstart : Worker.left jobs.length (fresh size : Pool β).next ({} : Worker β) =
      3 * jobs.length + 2 := rfl
  have hcount := horder j hlt
  exact Worker.isStopped_of_left (Nat.le_zero.1 (Nat.le_trans hleft (by omega)))

/-- The rounds are enough for the workers to stop. -/
theorem rounds_isDone (size : Nat) (s : σ) :
    (((fresh size : Pool β).run jobs work (rounds jobs.length size)).run s).1.isDone = true := by
  refine run_isDone jobs work _ (fun j hj => ?_) s
  have hround : (List.range size ++ (List.range size).reverse).count j = 2 := by
    rw [List.count_append, List.count_reverse, List.count_range, if_pos hj]
  have hall : ∀ n, ((List.range n).flatMap fun _ =>
      List.range size ++ (List.range size).reverse).count j = 2 * n := by
    intro n
    induction n with
    | zero => rfl
    | succ n ih =>
      rw [List.range_succ, List.flatMap_append, List.count_append, ih, List.flatMap_singleton,
        hround, Nat.mul_succ]
  rw [rounds, hall]
  omega

end

end Pool

end PhpSharp.Conversion
