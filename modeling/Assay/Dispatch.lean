import Assay.Batch
import Assay.Pipeline

/-!
# Taking a batch through the pipeline

Every submission becomes a task of its own. The outcomes come in as they are known; each of them is reported
once, before it is kept, and the first failure to do so ends the batch.
-/

namespace Assay

/-- Is told every outcome as soon as it is known. -/
def Reporter (ρ : Type) := Submission → Outcome → World ρ → Except Failure Unit × World ρ

/-- Takes many submissions through a pipeline, at most `jobs` of them at a time. -/
structure Dispatcher where
  pipeline : Pipeline
  jobs : Nat

namespace Dispatcher

variable {ρ : Type}

abbrev Result (ρ : Type) := Batch.Result Submission (Except Failure Outcome) ResultSet ρ

/-- A worker that broke down leaves this outcome behind. -/
def brokenDown : Outcome := .executionFailure none none

def work (dispatcher : Dispatcher) (submission : Submission) : Task (Except Failure Outcome) := do
  Task.note .info ("Processing: " ++ submission.label)
  dispatcher.pipeline.process submission

def settle (reporter : Reporter ρ) (submission : Submission) (outcome : Outcome)
    (results : ResultSet) (world : World ρ) : Except Failure ResultSet × World ρ :=
  match reporter submission outcome world with
  | (.error failure, world) => (.error failure, world)
  | (.ok (), world) =>
    let (previous, results) := results.record submission.label outcome
    (.ok results,
      if previous.isSome then world.warn ("Submission " ++ submission.label ++ " was classified twice")
      else world)

def take (reporter : Reporter ρ) (submission : Submission) :
    Except Panic (Except Failure Outcome) → ResultSet → World ρ → Except Failure ResultSet × World ρ
  | .ok (.ok outcome), results, world => settle reporter submission outcome results world
  | .ok (.error failure), _, world =>
    (.error failure,
      world.error ("Aborting batch on " ++ submission.label ++ ": " ++ failure.message))
  | .error _, results, world => settle reporter submission brokenDown results world

def collect (reporter : Reporter ρ) : Collector Submission (Except Failure Outcome) ResultSet ρ where
  lament submission panic :=
    [{ level := .error
       message := "Worker for " ++ submission.label ++ " panicked: " ++ panic.message }]
  take := take reporter

@[simp]
theorem take_collect (reporter : Reporter ρ) : (collect reporter).take = take reporter := rfl

def run (dispatcher : Dispatcher) (runner : Runner ρ) (reporter : Reporter ρ) (schedule : Schedule)
    (submissions : List Submission) (world : World ρ) : Result ρ :=
  Batch.run runner (collect reporter) schedule dispatcher.jobs
    (submissions.map fun submission => (submission, dispatcher.work submission)) .empty world

end Dispatcher

end Assay
