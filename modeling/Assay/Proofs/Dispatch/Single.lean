import Assay.Proofs.Dispatch.Once

/-!
# A batch of one

With a single submission there is nobody to take turns with. The worker goes through exactly the moments of its
task, and what it comes to is reported.
-/

namespace Assay

/-- What is left to do is the rest of a whole, or has come to the same as the whole. -/
def Phase.OnCourse {α ρ : Type} (runner : Runner ρ) (whole : Task α) (first world : World ρ) :
    Phase α → Prop
  | waiting task | active task =>
    (task.run runner world).1 = (whole.run runner first).1 ∧
      ∀ moment ∈ task.moments runner world, moment ∈ whole.moments runner first
  | finished result => result = (whole.run runner first).1
  | collected | aborted => True

namespace Dispatcher

variable {ρ : Type} {dispatcher : Dispatcher} {runner : Runner ρ} {reporter : Reporter ρ}
  {schedule : Schedule} {submission : Submission} {world : World ρ}

/-- What is asked for in this move is asked for by the submission alone, too, and in the same world. -/
def Expected (dispatcher : Dispatcher) (runner : Runner ρ) (submission : Submission)
    (world : World ρ) (entry : Batch Submission (Except Failure Outcome) ResultSet ρ × Move) : Prop :=
  ∀ (index : Nat) (other : Submission) (effect : Effect)
    (rest : effect.Reply → Task (Except Failure Outcome)),
    entry.1.pool.workers[index]? = some ⟨other, .active (.perform effect rest)⟩ →
    other = submission ∧
      ⟨effect, entry.1.world⟩ ∈ (dispatcher.work submission).moments runner world

structure Lone (dispatcher : Dispatcher) (runner : Runner ρ) (submission : Submission)
    (world : World ρ)
    (past : List (Batch Submission (Except Failure Outcome) ResultSet ρ × Move))
    (batch : Batch Submission (Except Failure Outcome) ResultSet ρ) : Prop where
  worker : ∃ phase, batch.pool.workers = [⟨submission, phase⟩] ∧
    phase.OnCourse runner (dispatcher.work submission) world batch.world
  expected : ∀ entry ∈ past, dispatcher.Expected runner submission world entry
  reports : ∀ report ∈ reportsOf past,
    reported? ((dispatcher.work submission).run runner world).1 = some report.2

theorem lone_start :
    Lone dispatcher runner submission world [] (dispatcher.start [submission] world) where
  worker := ⟨.waiting (dispatcher.work submission), rfl, rfl, fun _ hmoment => hmoment⟩
  expected := fun _ hentry => nomatch hentry
  reports := fun _ hreport => nomatch hreport

theorem Lone.onCourse {past : List (Batch Submission (Except Failure Outcome) ResultSet ρ × Move)}
    {batch : Batch Submission (Except Failure Outcome) ResultSet ρ} {index : Nat}
    {other : Submission} {phase : Phase (Except Failure Outcome)}
    (h : Lone dispatcher runner submission world past batch)
    (hworker : batch.pool.workers[index]? = some ⟨other, phase⟩) :
    index = 0 ∧ other = submission ∧
      phase.OnCourse runner (dispatcher.work submission) world batch.world := by
  obtain ⟨only, hworkers, hcourse⟩ := h.worker
  rw [hworkers] at hworker
  cases index with
  | zero =>
      cases hworker
      exact ⟨rfl, rfl, hcourse⟩
  | succ index => simp at hworker

theorem Lone.expected_now
    {past : List (Batch Submission (Except Failure Outcome) ResultSet ρ × Move)}
    {batch : Batch Submission (Except Failure Outcome) ResultSet ρ}
    (h : Lone dispatcher runner submission world past batch) (move : Move) :
    dispatcher.Expected runner submission world (batch, move) := by
  intro index other effect rest hworker
  obtain ⟨_, hother, hcourse⟩ := h.onCourse hworker
  refine ⟨hother, hcourse.2 _ ?_⟩
  rw [Task.moments]
  exact List.mem_cons_self ..

theorem Lone.workers_setPhase
    {past : List (Batch Submission (Except Failure Outcome) ResultSet ρ × Move)}
    {batch : Batch Submission (Except Failure Outcome) ResultSet ρ} {index : Nat}
    {other : Submission} {old : Phase (Except Failure Outcome)}
    (h : Lone dispatcher runner submission world past batch)
    (hworker : batch.pool.workers[index]? = some ⟨other, old⟩)
    (new : Phase (Except Failure Outcome)) :
    (batch.pool.setPhase index new).workers = [⟨submission, new⟩] := by
  obtain ⟨rfl, _, _⟩ := h.onCourse hworker
  obtain ⟨only, hworkers, _⟩ := h.worker
  rw [Pool.setPhase, hworkers]
  rfl

theorem Lone.step {past : List (Batch Submission (Except Failure Outcome) ResultSet ρ × Move)}
    {batch next : Batch Submission (Except Failure Outcome) ResultSet ρ} {move : Move}
    (h : Lone dispatcher runner submission world past batch)
    (hstep : Batch.Step runner (collect reporter) batch move next) :
    Lone dispatcher runner submission world (past ++ [(batch, move)]) next where
  worker := by
    cases hstep with
    | @entered index other task hworker hfree =>
        exact ⟨_, h.workers_setPhase hworker _, (h.onCourse hworker).2.2⟩
    | @advanced index other effect rest reply after hworker hperform =>
        obtain ⟨_, _, hrun, hmoments⟩ := h.onCourse hworker
        rw [Task.run, hperform] at hrun
        rw [Task.moments, hperform] at hmoments
        exact ⟨_, h.workers_setPhase hworker _, hrun,
          fun moment hmoment => hmoments moment (List.mem_cons_of_mem _ hmoment)⟩
    | @panicked index other effect rest panic after hworker hperform =>
        obtain ⟨_, _, hrun, _⟩ := h.onCourse hworker
        rw [Task.run, hperform] at hrun
        exact ⟨_, h.workers_setPhase hworker _, hrun⟩
    | @ended index other value hworker =>
        obtain ⟨_, _, hrun, _⟩ := h.onCourse hworker
        exact ⟨_, h.workers_setPhase hworker _, hrun⟩
    | @collected index other result gathered after hworker hcollect =>
        exact ⟨_, h.workers_setPhase hworker _, trivial⟩
  expected := by
    intro entry hentry
    rcases List.mem_append.mp hentry with hold | hnew
    · exact h.expected entry hold
    · obtain rfl := List.mem_singleton.mp hnew
      exact h.expected_now move
  reports := by
    rw [reportsOf_append]
    intro report hreport
    rcases List.mem_append.mp hreport with hold | hnew
    · exact h.reports report hold
    cases move with
    | enter index => cases hnew
    | advance index => cases hnew
    | collect index =>
        obtain ⟨other, result, outcome, htaken⟩ := taken_of_step hstep
        rw [reportsOf, List.filterMap_cons, htaken.report?_eq] at hnew
        obtain rfl := List.mem_singleton.mp hnew
        obtain ⟨_, _, hresult⟩ := h.onCourse htaken.worker
        rw [← hresult]
        exact htaken.reported

theorem lone_of_trail {past : List (Batch Submission (Except Failure Outcome) ResultSet ρ × Move)}
    {last : Batch Submission (Except Failure Outcome) ResultSet ρ}
    (h : Batch.Trail runner (collect reporter) (dispatcher.start [submission] world) past last) :
    Lone dispatcher runner submission world past last :=
  h.invariant (Lone dispatcher runner submission world) [] lone_start
    fun _ _ _ _ _ hbatch hstep => hbatch.step hstep

variable (reporter schedule) in
/-- A batch of one comes to what its submission comes to. -/
theorem run_single {outcome : Outcome}
    (houtcome : reported? ((dispatcher.work submission).run runner world).1 = some outcome)
    (hjobs : Pool.permits dispatcher.jobs ≤ Pool.maxPermits)
    (htold : ∀ (submission : Submission) (outcome : Outcome) (world : World ρ),
      (reporter submission outcome world).1 = .ok ()) :
    (dispatcher.run runner reporter schedule [submission] world).stop = none ∧
      dispatcher.reports runner reporter schedule [submission] world = [(submission, outcome)] ∧
      ∀ entry ∈ dispatcher.history runner reporter schedule [submission] world,
        dispatcher.Expected runner submission world entry := by
  have hstop : (dispatcher.run runner reporter schedule [submission] world).stop = none := by
    refine stop_eq_none_of_reported hjobs htold fun past last htrail _ index other found hworker => ?_
    obtain ⟨_, _, hresult⟩ := (lone_of_trail htrail).onCourse hworker
    rw [hresult]
    exact ⟨outcome, houtcome⟩
  obtain ⟨htrail, _⟩ := trail_of_stop_eq_none hstop
  have hlone := lone_of_trail htrail
  refine ⟨hstop, ?_, hlone.expected⟩
  have hperm := reports_perm hstop
  have hsubmissions := List.perm_singleton.mp hperm
  obtain ⟨report, hreport, hjob⟩ := List.map_eq_singleton_iff.mp hsubmissions
  have hvalue := hlone.reports report (by
    have hmem : report ∈ dispatcher.reports runner reporter schedule [submission] world := by
      rw [hreport]
      exact List.mem_singleton_self report
    exact reports_eq ▸ hmem)
  rw [houtcome] at hvalue
  rw [hreport, ← hjob, Option.some.inj hvalue]

end Dispatcher

end Assay
