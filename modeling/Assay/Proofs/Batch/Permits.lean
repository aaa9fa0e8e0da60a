import Assay.Proofs.Batch.Trail

/-!
# Permits

A permit is either free or held by an active worker, so none is ever lost. This is why a batch that is not
stopped does not get stuck either: as long as anybody waits, there is a permit to be had or to be given back.
-/

namespace Assay

def Phase.isCollected {α : Type} : Phase α → Bool
  | collected => true
  | _ => false

namespace Pool

variable {ι α : Type}

def collectedJobs (pool : Pool ι α) : List ι :=
  (pool.workers.filter fun worker => worker.phase.isCollected).map Worker.job

theorem active_setPhase {pool : Pool ι α} {index : Nat} {job : ι} {old : Phase α}
    (h : pool.workers[index]? = some ⟨job, old⟩) (new : Phase α) :
    (pool.setPhase index new).active + (if old.isActive then 1 else 0) =
      pool.active + (if new.isActive then 1 else 0) := by
  obtain ⟨free, workers, peak⟩ := pool
  simp only [setPhase, active] at h ⊢
  induction workers generalizing index with
  | nil => simp at h
  | cons worker rest ih =>
      cases index with
      | zero =>
          obtain rfl : worker = ⟨job, old⟩ := by simpa using h
          simp only [List.modify_zero_cons, List.countP_cons]
          omega
      | succ index =>
          have hrest := ih (by simpa using h)
          simp only [List.modify_succ_cons, List.countP_cons]
          omega

theorem collectedJobs_setPhase {pool : Pool ι α} {index : Nat} {job : ι} {old : Phase α}
    (h : pool.workers[index]? = some ⟨job, old⟩) (hold : old.isCollected = false) (new : Phase α) :
    (pool.setPhase index new).collectedJobs.Perm
      (if new.isCollected then job :: pool.collectedJobs else pool.collectedJobs) := by
  obtain ⟨free, workers, peak⟩ := pool
  simp only [setPhase, collectedJobs] at h ⊢
  induction workers generalizing index with
  | nil => simp at h
  | cons worker rest ih =>
      cases index with
      | zero =>
          obtain rfl : worker = ⟨job, old⟩ := by simpa using h
          simp only [List.modify_zero_cons, List.filter_cons, hold]
          split <;> simp
      | succ index =>
          have hrest := ih (by simpa using h)
          simp only [List.modify_succ_cons, List.filter_cons]
          by_cases hworker : worker.phase.isCollected
          · simp only [hworker, if_true, List.map_cons]
            refine (hrest.cons worker.job).trans ?_
            split
            · exact .swap job worker.job _
            · exact .refl _
          · simpa only [hworker, Bool.false_eq_true, if_false] using hrest

/-- Where nothing can be done and there are permits, everybody is done. -/
theorem isSettled_of_moves_eq_nil {pool : Pool ι α} (hmoves : pool.moves = [])
    (hpermits : 0 < pool.free + pool.active) :
    ∀ worker ∈ pool.workers, worker.phase.isSettled = true := by
  have hnone : ∀ move, move ∉ pool.moves := by simp [hmoves]
  have hinactive : pool.active = 0 := by
    rw [active, List.countP_eq_zero]
    intro worker hworker hactive
    obtain ⟨index, hindex⟩ := List.mem_iff_getElem?.mp hworker
    obtain ⟨job, phase⟩ := worker
    cases phase with
    | active task =>
        exact hnone (.advance index) (mem_moves_iff.mpr (.inr (.inl ⟨index, job, task, hindex, rfl⟩)))
    | _ => cases hactive
  intro worker hworker
  obtain ⟨index, hindex⟩ := List.mem_iff_getElem?.mp hworker
  obtain ⟨job, phase⟩ := worker
  cases phase with
  | waiting task =>
      have hfree : 0 < pool.free := by omega
      exact absurd (mem_moves_iff.mpr (.inl ⟨index, job, task, hindex, hfree, rfl⟩))
        (hnone (.enter index))
  | active task =>
      exact absurd (mem_moves_iff.mpr (.inr (.inl ⟨index, job, task, hindex, rfl⟩)))
        (hnone (.advance index))
  | finished result =>
      exact absurd (mem_moves_iff.mpr (.inr (.inr ⟨index, job, result, hindex, rfl⟩)))
        (hnone (.collect index))
  | collected => rfl
  | aborted => rfl

end Pool

namespace Batch

variable {ι α γ ρ : Type} {runner : Runner ρ} {collector : Collector ι α γ ρ}

theorem permits_finish {batch : Batch ι α γ ρ} {index : Nat} {job : ι} {task : Task α}
    (hworker : batch.pool.workers[index]? = some ⟨job, .active task⟩) (result : Except Panic α)
    (world : World ρ) :
    (batch.finish index result world).pool.free + (batch.finish index result world).pool.active =
      batch.pool.free + batch.pool.active := by
  have hcount := Pool.active_setPhase hworker (.finished result)
  have hfree : (batch.finish index result world).pool.free = batch.pool.free + 1 := rfl
  have hactive : (batch.finish index result world).pool.active =
      (batch.pool.setPhase index (.finished result)).active := rfl
  simp only [Phase.isActive, Bool.false_eq_true, if_true, if_false] at hcount
  rw [hfree, hactive]
  omega

/-- No step makes or loses a permit. -/
theorem Step.permits_eq {batch next : Batch ι α γ ρ} {move : Move}
    (h : Step runner collector batch move next) :
    next.pool.free + next.pool.active = batch.pool.free + batch.pool.active := by
  cases h with
  | @entered index job task hworker hfree =>
      have hcount := Pool.active_setPhase hworker (.active task)
      have hleft : (batch.enter index task).pool.free = batch.pool.free - 1 := rfl
      have hactive : (batch.enter index task).pool.active =
          (batch.pool.setPhase index (.active task)).active := rfl
      simp only [Phase.isActive, Bool.false_eq_true, if_true, if_false] at hcount
      rw [hleft, hactive]
      omega
  | @advanced index job effect rest reply world hworker hperform =>
      have hcount := Pool.active_setPhase hworker (.active (rest reply))
      simp only [Phase.isActive, if_true] at hcount
      simp only [Pool.free_setPhase]
      omega
  | panicked hworker hperform => exact permits_finish hworker _ _
  | ended hworker => exact permits_finish hworker _ _
  | @collected index job result gathered world hworker hcollect =>
      have hcount := Pool.active_setPhase hworker .collected
      simp only [Phase.isActive, Bool.false_eq_true, if_false] at hcount
      simp only [Pool.free_setPhase]
      omega

theorem Trail.permits_eq {first last : Batch ι α γ ρ} {past : List (Batch ι α γ ρ × Move)}
    (h : Trail runner collector first past last) :
    last.pool.free + last.pool.active = first.pool.free + first.pool.active := by
  refine h.invariant (fun _ batch =>
    batch.pool.free + batch.pool.active = first.pool.free + first.pool.active) [] rfl ?_
  intro _ batch move next _ hbatch hstep
  rw [hstep.permits_eq, hbatch]

theorem active_start (jobs : Nat) (work : List (ι × Task α)) (gathered : γ) (world : World ρ) :
    (start jobs work gathered world).pool.active = 0 := by
  rw [Pool.active, List.countP_eq_zero]
  intro worker hworker
  obtain ⟨⟨job, task⟩, _, rfl⟩ := List.mem_map.mp hworker
  simp [Phase.isActive]

/-- A batch that starts with all its permits and can do nothing more is done. -/
theorem isSettled_of_trail {jobs : Nat} {work : List (ι × Task α)} {gathered : γ} {world : World ρ}
    {past : List (Batch ι α γ ρ × Move)} {last : Batch ι α γ ρ}
    (h : Trail runner collector (start jobs work gathered world) past last)
    (hmoves : last.pool.moves = []) :
    ∀ worker ∈ last.pool.workers, worker.phase.isSettled = true := by
  apply Pool.isSettled_of_moves_eq_nil hmoves
  have hpermits := h.permits_eq
  have hfree : (start jobs work gathered world).pool.free = Pool.permits jobs := rfl
  have hpositive : 0 < Pool.permits jobs := Nat.lt_of_lt_of_le Nat.one_pos (Nat.le_max_right jobs 1)
  rw [active_start, hfree] at hpermits
  omega

end Batch

end Assay
