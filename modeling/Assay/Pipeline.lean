import Assay.Artifact
import Assay.Comparison
import Assay.Outcome

/-!
# The pipeline of one submission

Clean, build, run, validate. Every stage either lets the next one follow or settles the outcome. A failure
ends the batch only where the submission cannot be to blame: when the build or the comparison cannot be
launched.
-/

namespace Assay

/-- How every submission is built and run. -/
structure Recipe where
  clean : Command
  build : Command
  run : Command
  outputSubdirectory : Path
  runLimit : Duration
deriving DecidableEq, Repr

/-- Where the program runs and leaves its artifact. -/
def Recipe.outputDirectory (recipe : Recipe) (submission : Submission) : Path :=
  submission.root.join recipe.outputSubdirectory

/-- How far a submission has come. -/
inductive Stage
  | pending
  | building
  | buildFailed
  | built
  | running
  | timedOut
  | runFailed
  | ran
  | validating
  | pathError
  | mismatch
  | validated
deriving DecidableEq, Repr

namespace Stage

def all : List Stage :=
  [pending, building, buildFailed, built, running, timedOut, runFailed, ran, validating, pathError,
    mismatch, validated]

def text : Stage → String
  | pending => "Pending"
  | building => "Building"
  | buildFailed => "BuildFailed"
  | built => "Built"
  | running => "Running"
  | timedOut => "TimedOut"
  | runFailed => "RunFailed"
  | ran => "Ran"
  | validating => "Validating"
  | pathError => "PathError"
  | mismatch => "Mismatch"
  | validated => "Validated"

def isTerminal : Stage → Bool
  | buildFailed | timedOut | runFailed | pathError | mismatch | validated => true
  | pending | building | built | running | ran | validating => false

/-- The stage in which an outcome was reached. -/
def ofOutcome : Outcome → Stage
  | .success => validated
  | .compileFailure _ => buildFailed
  | .executionFailure _ _ => runFailed
  | .timeout _ => timedOut
  | .artifactPathError _ _ => pathError
  | .artifactMismatch _ => mismatch

theorem isTerminal_ofOutcome (outcome : Outcome) : (ofOutcome outcome).isTerminal := by
  cases outcome <;> rfl

end Stage

/-- Builds, runs and validates one submission, and stops at the first stage that fails. -/
structure Pipeline where
  recipe : Recipe
  artifactSuffix : String
  comparator : Comparator
deriving DecidableEq, Repr

namespace Pipeline

/-- Either the next stage follows or the outcome is known. -/
inductive Progress
  | onward
  | settled (outcome : Outcome)
deriving DecidableEq, Repr

def quietCall (command : Command) (directory : Path) (limit : Option Duration) : Call :=
  { command, directory, stdout := .discard, stderr := .discard, limit }

def cleanCall (pipeline : Pipeline) (submission : Submission) : Call :=
  quietCall pipeline.recipe.clean submission.root none

def buildCall (pipeline : Pipeline) (submission : Submission) : Call :=
  quietCall pipeline.recipe.build submission.root none

def runCall (pipeline : Pipeline) (submission : Submission) : Call :=
  quietCall pipeline.recipe.run (pipeline.recipe.outputDirectory submission)
    (some pipeline.recipe.runLimit)

def transition (source target : Stage) : Task Unit :=
  Task.note .debug "State changed" [("from", source.text), ("to", target.text)]

/-- Nothing that happens while cleaning counts: there may be nothing to clean. -/
def clean (pipeline : Pipeline) (submission : Submission) : Task Unit := do
  match ← Task.call (pipeline.cleanCall submission) with
  | .exited 0 => return
  | .exited status => Task.note .debug s!"Clean exited with {status}, ignored"
  | ending =>
    Task.note .warn ("Clean step failed, ignored: " ++ ending.problem?.getD "")

/-- A build that cannot be launched is no fault of the submission. -/
def build (pipeline : Pipeline) (submission : Submission) : Task (Except Failure Progress) := do
  pipeline.clean submission
  let command := pipeline.recipe.build
  let directory := pipeline.recipe.outputDirectory submission
  match ← Task.ensureDirectory directory with
  | .error fault =>
    Task.note .error ("Cannot create " ++ directory.shown ++ ": " ++ fault.message)
    return .ok (.settled (.compileFailure command))
  | .ok () =>
    match ← Task.call (pipeline.buildCall submission) with
    | .exited 0 => return .ok .onward
    | .exited status =>
      Task.note .debug s!"Build exited with {status}"
      return .ok (.settled (.compileFailure command))
    | .notLaunched program detail => return .error (.launch program detail)
    | .timedOut _ => return .ok (.settled (.timeout command))

/-- The program is the product of the submission, so failing to launch it is held against it. -/
def execute (pipeline : Pipeline) (submission : Submission) : Task Progress := do
  let command := pipeline.recipe.run
  match ← Task.call (pipeline.runCall submission) with
  | .exited 0 => return .onward
  | .exited status => return .settled (.executionFailure command status)
  | .timedOut limit =>
    Task.note .debug ("Run exceeded " ++ limit.text)
    return .settled (.timeout command)
  | .notLaunched _ detail =>
    Task.note .debug ("Executable did not start: " ++ detail)
    return .settled (.executionFailure command none)

def validate (pipeline : Pipeline) (submission : Submission) : Task (Except Failure Outcome) := do
  let directory := pipeline.recipe.outputDirectory submission
  match Artifact.ofListing directory pipeline.artifactSuffix (← Task.listFiles directory) with
  | .error problem =>
    Task.note .debug ("Artifact lookup failed: " ++ problem.message)
    return .ok (.artifactPathError problem.directory problem.candidates)
  | .ok artifact =>
    match ← pipeline.comparator.compare artifact directory with
    | .ok .identical => return .ok .success
    | .ok (.different command) => return .ok (.artifactMismatch command)
    | .ok (.timedOut command) => return .ok (.timeout command)
    | .error failure => return .error failure

def finish (outcome : Outcome) : Task (Except Failure Outcome) := do
  Task.note .debug "Pipeline finished"
    [("state", (Stage.ofOutcome outcome).text), ("tag", outcome.verdict.text)]
  return .ok outcome

/-- Takes a submission through all stages. What goes wrong with the submission is an outcome; only
what is wrong with the batch is a failure. -/
def process (pipeline : Pipeline) (submission : Submission) : Task (Except Failure Outcome) := do
  transition .pending .building
  match ← pipeline.build submission with
  | .error failure => return .error failure
  | .ok (.settled outcome) => finish outcome
  | .ok .onward =>
    transition .built .running
    match ← pipeline.execute submission with
    | .settled outcome => finish outcome
    | .onward =>
      transition .ran .validating
      match ← pipeline.validate submission with
      | .ok outcome => finish outcome
      | .error failure => return .error failure

end Pipeline

end Assay
