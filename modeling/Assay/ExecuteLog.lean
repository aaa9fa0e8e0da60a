import Assay.Dispatch
import Assay.Record

/-!
# Execute logs

The log of a run is added to by the next run with the same key, so that the last line for a label is what
counts.
-/

namespace Assay

/-- A log of outcomes, one line each, that is only ever added to. -/
structure ExecuteLog where
  path : Path
  stream : StreamId
deriving DecidableEq, Repr

namespace ExecuteLog

variable {ρ : Type}

/-- Separators of any kind are replaced, so that every key names a file in the same directory. -/
def fileName (key : String) : String :=
  let safe := key.toList.map fun char => if char = '/' ∨ char = '\\' then '_' else char
  "execute_log_" ++ String.ofList safe ++ ".txt"

/-- Opens the log for `key` in `directory`, which is made if need be. What is in the log stays. -/
def attach (directory : Path) (key : String) (world : World ρ) :
    Except Failure ExecuteLog × World ρ :=
  match world.files.ensureDirectory world.files.directory directory with
  | (.error fault, files) => (.error (.io fault), { world with files })
  | (.ok (), files) =>
    let path := directory.join ⟨fileName key⟩
    match files.openStream files.directory path .append with
    | .error fault => (.error (.io fault), { world with files })
    | .ok (stream, files) =>
      (.ok { path, stream },
        { world with files }.debug ("Appending outcomes to " ++ path.shown))

def event (submission : Submission) (outcome : Outcome) : Event :=
  { level := if outcome.isSuccess then .info else .error
    message := (Record.ofOutcome submission.label outcome).text
    topic := .outcome }

def report (log : ExecuteLog) : Reporter ρ := fun submission outcome world =>
  let line := (Record.ofOutcome submission.label outcome).text ++ "\n"
  let world := world.note (event submission outcome)
  (.ok (), { world with files := world.files.write log.stream (Bytes.ofText line) })

/-- The verdicts in the log at `path`. A log that is not there is empty. -/
def verdicts (path : Path) (world : World ρ) :
    Except Failure (Table String Verdict) × World ρ :=
  match world.files.readText world.files.directory path with
  | .ok text => (.ok (Record.verdicts text), world)
  | .error .notFound => (.ok .empty, world.warn ("No execute log " ++ path.shown ++ " found"))
  | .error fault => (.error (.io fault), world)

end ExecuteLog

end Assay
