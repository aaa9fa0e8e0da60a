import Assay.Command
import Assay.Duration
import Assay.Failure
import Assay.Files.Basic

/-!
# Processes

What is asked of the system when a command is run, and what comes back. How commands are run is not settled
here: a `Runner` does it.
-/

namespace Assay

/-- Where the output of a process goes; never to the streams of the batch itself. -/
inductive Sink
  | discard
  | stream (id : StreamId)
deriving DecidableEq, Repr

/-- A command to be run to its end. -/
structure Call where
  command : Command
  directory : Path
  stdout : Sink
  stderr : Sink
  limit : Option Duration
deriving DecidableEq, Repr

/-- The file a call asks for. A relative path of more than one component is put behind the directory of
the call. -/
def Call.programPath (call : Call) : Path :=
  let path : Path := ⟨call.command.program⟩
  if !path.isAbsolute ∧ 1 < path.components.length then call.directory.join path else path

/-- How a call ended. A process killed by a signal exits with `-1`. -/
inductive Ending
  | exited (status : Int)
  | timedOut (limit : Duration)
  | notLaunched (program detail : String)
deriving DecidableEq, Repr

def Ending.problem? : Ending → Option String
  | exited _ => none
  | timedOut limit => some ("timed out after " ++ limit.text)
  | notLaunched program detail => some (launchMessage program detail)

/-- A worker that broke down while it was running. -/
structure Panic where
  message : String
deriving DecidableEq, Repr

/-- Runs commands. A command may change files, and a runner may remember something of type `ρ`. -/
def Runner (ρ : Type) := Call → Files → ρ → Except Panic Ending × Files × ρ

end Assay
