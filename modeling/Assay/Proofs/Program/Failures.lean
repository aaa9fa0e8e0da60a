import Assay.Program
import Assay.Proofs.Batch.Along

/-!
# Failures before the work and failures of the work

A failure that is due to the settings, or to where the submissions are, is known before anything is done. The work
itself has failures of its own, and it is a matter of going through all that is done to see that these are none of
the former.
-/

namespace Assay

/-- The failure is due to what was asked for, and not to what was done. -/
def Failure.isPreliminary : Failure → Bool
  | config _ | configFormat | collection _ _ => true
  | launch _ _ | io _ | worker _ => false

/-- If this is a failure, it is one of the work. -/
def Late {α : Type} (result : Except Failure α) : Prop :=
  ∀ failure, result = .error failure → failure.isPreliminary = false

theorem late_ok {α : Type} (value : α) : Late (.ok value) := fun _ h => nomatch h

theorem late_error {α : Type} {failure : Failure} (h : failure.isPreliminary = false) :
    Late (.error failure : Except Failure α) := fun _ hother => by
  cases hother
  exact h

theorem Late.map {α β : Type} {result : Except Failure α} (h : Late result) (change : α → β) :
    Late (result.map change) := by
  cases result with
  | error failure => exact late_error (h failure rfl)
  | ok value => exact late_ok _

/-- Whatever it is told, the task comes to a value or to a failure of the work. -/
abbrev Task.EndsLate {α : Type} (task : Task (Except Failure α)) : Prop :=
  task.Along (fun _ => True) (fun _ _ => True) Late

theorem Task.endsLate_bind {α β : Type} {task : Task α} {next : α → Task (Except Failure β)}
    (h : ∀ value, (next value).EndsLate) : (task.bind next).EndsLate :=
  along_bind (along_trivially task) fun value _ => h value

theorem Task.endsLate_map {α β : Type} {task : Task (Except Failure α)} (h : task.EndsLate)
    (change : α → β) : (task.bind fun found => .done (found.map change)).EndsLate :=
  along_bind h fun _ hfound => hfound.map change

/-! ### The work of a submission -/

namespace Pipeline

theorem endsLate_build (pipeline : Pipeline) (submission : Submission) :
    (pipeline.build submission).EndsLate := by
  refine Task.endsLate_bind fun _ => Task.endsLate_bind fun made => ?_
  cases made with
  | error fault => exact Task.endsLate_bind fun _ => late_ok _
  | ok _ =>
      refine Task.endsLate_bind fun ending => ?_
      cases ending with
      | exited status =>
          by_cases hzero : status = 0
          · subst hzero
            exact late_ok _
          · simp only
            exact Task.endsLate_bind fun _ => late_ok _
      | timedOut limit => exact late_ok _
      | notLaunched program detail => exact late_error rfl

theorem endsLate_compare (comparator : Comparator) (artifact directory : Path) :
    (comparator.compare artifact directory).EndsLate := by
  refine Task.endsLate_bind fun ending => ?_
  cases ending with
  | exited status =>
      by_cases hzero : status = 0
      · subst hzero
        exact late_ok _
      · simp only
        exact Task.endsLate_bind fun _ => late_ok _
  | timedOut limit => exact late_ok _
  | notLaunched program detail => exact late_error rfl

theorem endsLate_validate (pipeline : Pipeline) (submission : Submission) :
    (pipeline.validate submission).EndsLate := by
  refine Task.endsLate_bind fun listing => ?_
  split
  · exact Task.endsLate_bind fun _ => late_ok _
  · refine Task.along_bind (endsLate_compare _ _ _) fun result hresult => ?_
    rcases result with failure | _ | command | command
    · exact late_error (hresult failure rfl)
    · exact late_ok _
    · exact late_ok _
    · exact late_ok _

theorem endsLate_finish (outcome : Outcome) : (finish outcome).EndsLate :=
  Task.endsLate_bind fun _ => late_ok _

theorem endsLate_process (pipeline : Pipeline) (submission : Submission) :
    (pipeline.process submission).EndsLate := by
  refine Task.endsLate_bind fun _ => ?_
  refine Task.along_bind (endsLate_build pipeline submission) fun built hbuilt => ?_
  rcases built with failure | onward | outcome
  · exact late_error (hbuilt failure rfl)
  · refine Task.endsLate_bind fun _ => Task.endsLate_bind fun ran => ?_
    cases ran with
    | settled outcome => exact endsLate_finish outcome
    | onward =>
        refine Task.endsLate_bind fun _ => ?_
        refine Task.along_bind (endsLate_validate pipeline submission) fun validated hvalidated => ?_
        cases validated with
        | error failure => exact late_error (hvalidated failure rfl)
        | ok outcome => exact endsLate_finish outcome
  · exact endsLate_finish outcome

end Pipeline

/-! ### The work of a reference -/

namespace Scorer

variable (scorer : Scorer) (stream : StreamId) (reference student : Submission)

theorem endsLate_scoreStudent (runs : Nat) (parts : List AnalyzerPart) :
    (scorer.scoreStudent stream reference student runs parts).EndsLate := by
  induction parts generalizing runs with
  | nil => exact late_ok _
  | cons part parts ih =>
      refine Task.endsLate_bind fun ending => ?_
      cases ending with
      | exited status =>
          by_cases hzero : status = 0
          · subst hzero
            exact ih (runs + 1)
          · simp only
            exact Task.endsLate_bind fun _ => Task.endsLate_map (ih (runs + 1)) _
      | timedOut limit => exact Task.endsLate_bind fun _ => Task.endsLate_map (ih (runs + 1)) _
      | notLaunched program detail => exact late_error rfl

theorem endsLate_scoreStudents (runs : Nat) (students : List Submission) :
    (scorer.scoreStudents stream reference runs students).EndsLate := by
  induction students generalizing runs with
  | nil => exact late_ok _
  | cons student students ih =>
      refine Task.endsLate_bind fun _ => ?_
      refine Task.along_bind (endsLate_scoreStudent scorer stream reference student runs _)
        fun scored hscored => ?_
      rcases scored with failure | ⟨more, _ | _⟩
      · exact late_error (hscored failure rfl)
      · exact Task.endsLate_bind fun _ => Task.endsLate_map (ih more) _
      · exact ih more

theorem endsLate_scoreGroup (students : List Submission) :
    (scorer.scoreGroup students reference).EndsLate := by
  refine Task.endsLate_bind fun opened => ?_
  cases opened with
  | error fault => exact late_error rfl
  | ok stream => exact Task.endsLate_map (endsLate_scoreStudents scorer stream reference 0 students) _

end Scorer

/-! ### The work of all -/

variable {ρ : Type}

/-- The batch was not stopped by a failure that is no failure of the work. -/
def Batch.Result.StopsLate {ι α γ : Type} (result : Batch.Result ι α γ ρ) : Prop :=
  ∀ failure, result.stop = some (.failed failure) → failure.isPreliminary = false

theorem Batch.stopsLate_run {ι α γ : Type} {runner : Runner ρ}
    {collector : Collector ι (Except Failure α) γ ρ} {schedule : Schedule} {jobs : Nat}
    {work : List (ι × Task (Except Failure α))} {gathered : γ} {world : World ρ}
    (hwork : ∀ job task, (job, task) ∈ work → task.EndsLate)
    (hcollector : ∀ job result gathered world, (∀ value, result = .ok value → Late value) →
      Late (collector.take job result gathered world).1) :
    (Batch.run runner collector schedule jobs work gathered world).StopsLate := by
  intro failure hstop
  obtain ⟨job, result, gathered, world, hyields, hfails⟩ :=
    failure_of_stop hwork hstop
  exact hcollector job result gathered world hyields failure hfails

namespace Dispatcher

theorem late_settle (log : ExecuteLog) (submission : Submission) (outcome : Outcome)
    (results : ResultSet) (world : World ρ) :
    Late (settle log.report submission outcome results world).1 :=
  late_ok _

theorem stopsLate_run (dispatcher : Dispatcher) (runner : Runner ρ) (log : ExecuteLog)
    (schedule : Schedule) (submissions : List Submission) (world : World ρ) :
    (dispatcher.run runner log.report schedule submissions world).StopsLate := by
  refine Batch.stopsLate_run ?_ ?_
  · intro job task hmem
    obtain ⟨submission, -, heq⟩ := List.mem_map.mp hmem
    cases heq
    exact Task.endsLate_bind fun _ => Pipeline.endsLate_process _ _
  · intro submission result results world hyields
    rcases result with panic | failure | outcome
    · exact late_settle log submission _ _ _
    · exact late_error (hyields _ rfl failure rfl)
    · exact late_settle log submission _ _ _

end Dispatcher

theorem Scorer.stopsLate_run (scorer : Scorer) (runner : Runner ρ) (schedule : Schedule)
    (references students : List Submission) (world : World ρ) :
    (scorer.run runner schedule references students world).StopsLate := by
  unfold Scorer.run
  split
  · intro failure hstop
    cases hstop
    rfl
  · refine Batch.stopsLate_run ?_ ?_
    · intro job task hmem
      obtain ⟨reference, -, heq⟩ := List.mem_map.mp hmem
      cases heq
      exact endsLate_scoreGroup scorer _ students
    · intro reference result reports world hyields
      rcases result with panic | failure | report
      · exact late_error rfl
      · exact late_error (hyields _ rfl failure rfl)
      · exact late_ok _

/-! ### The log -/

namespace ExecuteLog

theorem late_attach (directory : Path) (key : String) (world : World ρ) :
    Late (attach directory key world).1 := by
  unfold attach
  split
  · exact late_error rfl
  · dsimp only
    split
    · exact late_error rfl
    · exact late_ok _

theorem late_verdicts (path : Path) (world : World ρ) : Late (verdicts path world).1 := by
  unfold verdicts
  split
  · exact late_ok _
  · exact late_ok _
  · exact late_error rfl

end ExecuteLog

end Assay
