import Assay.Config.Reader
import Assay.ExecuteLog
import Assay.Roster

/-!
# The whole program

Loads the settings, and then either classifies all submissions or scores them against references. The
program says what it does under the topic `batch`, apart from what the workers say.
-/

namespace Assay

/-- How the whole program ends. -/
inductive Exit
  | completed
  | failed (failure : Failure)
  | panicked (panic : Panic)
deriving DecidableEq, Repr

def Exit.code : Exit → Nat
  | completed => 0
  | failed _ => 1
  | panicked _ => 101

/-- What a run needs beside its settings. -/
structure Program (ρ : Type) where
  runner : Runner ρ
  schedule : Schedule
  processors : Nat
  /-- Where in the source a panic happened. -/
  locate : Panic → String
  /-- The text of the error that a worker which broke down is handed over with. -/
  breakdown : Submission → Panic → String

namespace Program

variable {ρ : Type}

/-- A step of the program, which may end it. -/
abbrev Step (ρ : Type) := ExceptT Exit (StateM (World ρ))

def say (level : Level) (message : String) : Step ρ Unit :=
  modify fun world => world.note { level, message, topic := .batch }

def require {α : Type} : Except Failure α → Step ρ α
  | .ok value => pure value
  | .error failure => throw (.failed failure)

/-- Lifts an operation on the world that may fail. -/
def attempt {α : Type} (operation : World ρ → Except Failure α × World ρ) : Step ρ α := do
  let (result, world) := operation (← get)
  set world
  require result

/-- The hook that is set for the whole of a run. -/
def announce (program : Program ρ) (panic : Panic) : List Event :=
  [{ level := .error
     message := "panic occurred"
     fields := [("panic", "panicked at " ++ program.locate panic ++ ":\n" ++ panic.message)]
     topic := .batch }]

def gather {ι α γ : Type} (operation : World ρ → Batch.Result ι α γ ρ) :
    Step ρ (Batch.Result ι α γ ρ) := do
  let result := operation (← get)
  set result.batch.world
  match result.stop with
  | none => return result
  | some (.failed failure) => throw (.failed failure)
  | some (.panicked panic) =>
    modify fun world => world.noteAll (world.hook panic)
    throw (.panicked panic)

def summarize (config : Config) (log : ExecuteLog) (results : ResultSet) : Step ρ Unit := do
  if results.isEmpty then
    say .warn ("No submissions in " ++ config.submissionsDirectory.shown)
  else
    for verdict in Verdict.all do
      say .info (verdict.text ++ s!": {results.count verdict}")
    say .info s!"Processed {results.size} submissions"
    let verdicts ← attempt (ExecuteLog.verdicts log.path)
    let successful := verdicts.entries.countP fun entry => entry.2 = .success
    say .info (log.path.shown ++ s!" holds {verdicts.size} submissions, {successful} successful")

def execute (program : Program ρ) (config : Config) : Step ρ Unit := do
  let submissions ← attempt (Roster.discover config.submissionsDirectory)
  let comparator ← require (config.comparator (← get).files.directory)
  let artifactSuffix := config.validate.artifactSuffix
  say .info ("Comparing \x60*" ++ artifactSuffix ++ "\x60 artifacts against " ++
    comparator.reference.shown)
  let recipe ← require config.recipe
  let log ← attempt (ExecuteLog.attach config.outputDirectory config.logName)
  say .info ("Writing outcomes to " ++ log.path.shown)
  let dispatcher : Dispatcher :=
    { pipeline := { recipe, artifactSuffix, comparator }, jobs := config.poolSize program.processors }
  let result ← gather (dispatcher.run program.runner log.report program.schedule submissions)
  summarize config log result.batch.gathered

def score (program : Program ρ) (config : Config) : Step ρ Unit := do
  let rule ← require config.analyzerRule
  let references ← attempt (Roster.discover config.score.referencesDirectory)
  let students ← attempt (Roster.discover config.submissionsDirectory)
  let scorer : Scorer :=
    { rule, outputDirectory := config.outputDirectory, jobs := config.poolSize program.processors
      breakdown := program.breakdown }
  let result ← gather (scorer.run program.runner program.schedule references students)
  for report in Scorer.reports result do
    say .info (report.reference ++ " -> " ++ report.output.shown ++
      s!" ({report.invocations} runs, {report.failed.length} failed)")

def body (program : Program ρ) (settings : Path) : Step ρ Unit := do
  let config ← require (Config.load (← get).files settings)
  match config.mode with
  | .execute => program.execute config
  | .score => program.score config

def run (program : Program ρ) (settings : Path) (world : World ρ) : Exit × World ρ :=
  match (program.body settings).run { world with hook := program.announce } with
  | (.ok (), world) => (.completed, world)
  | (.error exit, world) => (exit, world)

end Program

end Assay
