import Assay.Proofs.Batch.Trail
import Assay.Proofs.Task.Along

/-!
# What the workers of a batch can do at all

A worker is interrupted by others between any two of its effects, but it is still the same task that it goes
on with. So whatever holds along its task holds of the worker at every moment of the batch, as long as the
replies are such as they are assumed to be.
-/

namespace Assay

variable {ι α γ ρ : Type}

/-- What is left of the work of a worker, or has come of it. -/
def Phase.Along (asks : Effect → Prop) (given : (effect : Effect) → effect.Reply → Prop)
    (yields : α → Prop) : Phase α → Prop
  | waiting task | active task => task.Along asks given yields
  | finished result => ∀ value, result = .ok value → yields value
  | collected | aborted => True

def Pool.Along (asks : ι → Effect → Prop) (given : ι → (effect : Effect) → effect.Reply → Prop)
    (yields : ι → α → Prop) (pool : Pool ι α) : Prop :=
  ∀ (index : Nat) (job : ι) (phase : Phase α), pool.workers[index]? = some ⟨job, phase⟩ →
    phase.Along (asks job) (given job) (yields job)

namespace Batch

variable {runner : Runner ρ} {collector : Collector ι α γ ρ} {asks : ι → Effect → Prop}
  {given : ι → (effect : Effect) → effect.Reply → Prop} {yields : ι → α → Prop}

theorem along_start {jobs : Nat} {work : List (ι × Task α)} {gathered : γ} {world : World ρ}
    (h : ∀ job task, (job, task) ∈ work → task.Along (asks job) (given job) (yields job)) :
    (start jobs work gathered world).pool.Along asks given yields := by
  intro index job phase hworker
  obtain ⟨entry, hentry, heq⟩ := List.mem_map.mp (List.mem_of_getElem? hworker)
  cases heq
  exact h entry.1 entry.2 hentry

theorem along_setPhase {pool : Pool ι α} {index : Nat} {job : ι} {old new : Phase α}
    (h : pool.Along asks given yields) (hworker : pool.workers[index]? = some ⟨job, old⟩)
    (hnew : new.Along (asks job) (given job) (yields job)) :
    (pool.setPhase index new).Along asks given yields := by
  intro other otherJob phase hother
  rcases Pool.of_getElem?_setPhase hother with ⟨rfl, rfl, before, hbefore⟩ | ⟨_, hbefore⟩
  · rw [hworker] at hbefore
    cases hbefore
    exact hnew
  · exact h other otherJob phase hbefore

/-- A step keeps every worker along with its job, if its reply is as it should be. -/
theorem Step.along {batch next : Batch ι α γ ρ} {move : Move}
    (h : Step runner collector batch move next) (halong : batch.pool.Along asks given yields)
    (hgiven : ∀ (index : Nat) (job : ι) (effect : Effect) (rest : effect.Reply → Task α)
      (reply : effect.Reply), move = .advance index →
      batch.pool.workers[index]? = some ⟨job, .active (.perform effect rest)⟩ →
      (effect.perform runner batch.world).1 = .ok reply → given job effect reply) :
    next.pool.Along asks given yields := by
  cases h with
  | @entered index job task hworker hfree =>
      have htask := halong index job _ hworker
      exact along_setPhase halong hworker htask
  | @advanced index job effect rest reply world hworker hperform =>
      obtain ⟨_, hrest⟩ := halong index job _ hworker
      have hreply := hgiven index job effect rest reply rfl hworker (by rw [hperform])
      exact along_setPhase halong hworker (hrest reply hreply)
  | @panicked index job effect rest panic world hworker hperform =>
      exact along_setPhase halong hworker fun value hvalue => nomatch hvalue
  | @ended index job value hworker =>
      have hyields := halong index job _ hworker
      refine along_setPhase halong hworker fun other hother => ?_
      cases hother
      exact hyields
  | collected hworker hcollect => exact along_setPhase halong hworker trivial

/-- A batch only fails because a collector does, and that on what the work of somebody can come to. -/
theorem failure_of_stop {schedule : Schedule} {jobs : Nat} {work : List (ι × Task α)} {gathered : γ}
    {world : World ρ} {failure : Failure}
    (hwork : ∀ job task, (job, task) ∈ work →
      task.Along (fun _ => True) (fun _ _ => True) (yields job))
    (h : (run runner collector schedule jobs work gathered world).stop = some (.failed failure)) :
    ∃ job result gathered world, (∀ value, result = .ok value → yields job value) ∧
      (collector.take job result gathered world).1 = .error failure := by
  have hjobs : Pool.permits jobs ≤ Pool.maxPermits := by
    refine Nat.le_of_not_lt fun hmany => ?_
    rw [run, Pool.start, if_pos hmany] at h
    cases h
  obtain ⟨past, last, move, other, htrail, hmake, -, hstop⟩ := trail_of_run_stop_eq_some hjobs h
  obtain rfl : failure = other := Stop.failed.inj hstop
  have halong := htrail.invariant
    (fun _ batch => batch.pool.Along (fun _ _ => True) (fun _ _ _ => True) yields) []
    (along_start hwork)
    fun _ _ _ _ _ halong hstep => hstep.along halong fun _ _ _ _ _ _ _ _ => trivial
  obtain ⟨index, job, result, rfl, hworker, hfails⟩ := collect_of_make_stopped hmake
  exact ⟨job, result, last.gathered, last.world, halong index job _ hworker, hfails⟩

end Batch

end Assay
