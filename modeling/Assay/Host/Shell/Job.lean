import Assay.Host.Shell.Launch

namespace Assay.Host.Shell

open Act

/-- Runs a job from its start on, up to `limit` if need be, and says when it ended. -/
def runJob (evaluate : Evaluator) (limit : Option Duration) (job : Job) : Act (Option Duration) := do
  let before ← get
  set { before with clock := job.start, deadline := limit, jobs := [], status := 0 }
  let result ← within (fun _ => job.frame) (do evaluate job.script; return (← get).status)
  let after ← get
  set { after with
    clock := before.clock, deadline := before.deadline, status := before.status
    jobs := before.jobs ++ after.jobs }
  match result with
  | .error .expired => return none
  | result =>
    let status ← statusOfChild job.process result
    modify fun session => { session with ended := session.ended.put job.process status }
    return some after.clock

/-- Runs jobs to their end. The one that takes longest decides what time it is then. -/
def awaitJobs (evaluate : Evaluator) (awaited : Job → Bool) : Act Unit := do
  let session ← get
  set { session with jobs := session.jobs.filter (!awaited ·) }
  for job in session.jobs.filter awaited do
    match ← runJob evaluate session.deadline job with
    | none => throw .expired
    | some ended =>
      modify fun session =>
        { session with clock := ⟨max session.clock.nanoseconds ended.nanoseconds⟩ }

/-- Waits for the jobs with the given numbers, or for all there are. -/
def wait (evaluate : Evaluator) (words : List String) : Act Nat := do
  match words.getLast? with
  | none => do
    awaitJobs evaluate fun _ => true
    return 0
  | some last => do
    let numbers := words.filterMap String.toNat?
    awaitJobs evaluate fun job => numbers.contains job.process
    return (last.toNat?.bind (← get).ended.find?).getD notFoundStatus

/-- Runs jobs up to the time it is. What is left of a job is kept where it has not done anything yet. -/
def catchUp (evaluate : Evaluator) (jobs : List Job) : Act (List Job) := do
  let kept ← jobs.mapM fun job => do
    let before ← get
    match ← runJob evaluate (some before.clock) job with
    | some _ => return none
    | none =>
      if (← get).files.nodes.entries ≠ before.files.nodes.entries then return none
      set before
      return some job
  return kept.reduceOption

/-- Runs the jobs of the process up to the time it is. -/
def settle (evaluate : Evaluator) : Act Unit := do
  let jobs := (← get).jobs
  modify fun session => { session with jobs := [] }
  let kept ← catchUp evaluate jobs
  modify fun session => { session with jobs := kept ++ session.jobs }

end Assay.Host.Shell
