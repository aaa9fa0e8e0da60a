import Assay.Host.Shell

/-!
# Launching calls

A runner with a host behind it. A call is resolved from the directory it is to run in: its program is an
installed one or a script for one.
-/

namespace Assay.Host

/-- What is left of the calls so far: the time, and the jobs that outlive the call that started them. -/
structure Machine where
  clock : Duration
  jobs : List Job
  nextProcess : Nat

def Machine.start : Machine := { clock := ⟨0⟩, jobs := [], nextProcess := 1000 }

def evaluator : Shell.Evaluator := Shell.evaluate Shell.depthLimit

def hasNul (text : String) : Bool := text.toList.contains '\x00'

/-- What a program or an argument is to the process that gets it. -/
def wordOf (text : String) : String := Octets.ofRaw text

def nulDetail : String := "nul byte found in provided data"

/-- What a call starts, and in which directory, or why it cannot be started. -/
def resolve (call : Call) (files : Files) : Except String (Location × Image × List String) :=
  if call.command.argv.any hasNul ∨ call.directory.text.bytes.contains 0 then .error nulDetail
  else
    match files.findDirectory files.directory call.directory with
    | .error fault => .error fault.message
    | .ok directory =>
      match Shell.program files directory (Octets.ofPath call.programPath) with
      | .error fault => .error fault.message
      | .ok (image, first) => .ok (directory, image, first ++ call.command.arguments.map wordOf)

/-- A process that was just started, with nothing to read. -/
def session (call : Call) (directory : Location) (files : Files) (machine : Machine) : Session where
  frame :=
    { process := machine.nextProcess
      ancestors := []
      directory
      settings := .empty
      functions := .empty
      exported := []
      name := wordOf call.command.program
      arguments := []
      input := ByteArray.empty
      output := .sink call.stdout
      errors := .sink call.stderr
      traps := .empty
      pending := []
      strict := false
      lastJob := none }
  files
  clock := machine.clock
  deadline := call.limit.map fun limit => ⟨machine.clock.nanoseconds + limit.nanoseconds⟩
  status := 0
  captured := ByteArray.empty
  jobs := []
  ended := .empty
  nextProcess := machine.nextProcess + 1

/-- Runs the jobs of a process that has ended up to the time it is, and those that were there before. A
process that ran out of time takes its jobs along. -/
def settle (expired : Bool) (earlier : List Job) (session : Session) : Files × Machine :=
  let catchUp (jobs : List Job) (session : Session) : List Job × Session :=
    match (Shell.catchUp evaluator jobs).run { session with jobs := [], deadline := none } with
    | (.ok kept, after) => (kept ++ after.jobs, after)
    | (.error _, after) => ([], after)
  let clock := if expired then session.deadline.getD session.clock else session.clock
  let (own, session) := catchUp session.jobs { session with clock }
  let (others, session) := catchUp earlier session
  let jobs := if expired then others else others ++ own
  (session.files, { clock, jobs, nextProcess := session.nextProcess })

/-- Runs calls. A call without any time to run is not waited for. -/
def runner : Runner Machine := fun call files machine =>
  match resolve call files, call.limit with
  | .error detail, _ => (.ok (.notLaunched call.command.program detail), files, machine)
  | .ok _, some ⟨0⟩ => (.ok (.timedOut ⟨0⟩), files, machine)
  | .ok (directory, image, arguments), limit =>
    let action := Shell.runImage evaluator (Shell.launch evaluator Shell.launchLimit) image arguments
    let (result, after) := action.run (session call directory files machine)
    let ending : Ending :=
      match result with
      | .ok status | .error (.exited status) | .error (.returned status) => .exited ↑(status % 256)
      | .error (.killed ..) => .exited (-1)
      | .error .expired => .timedOut (limit.getD ⟨0⟩)
      | .error .leaveLoop | .error .nextTurn => .exited 0
    let (files, machine) := settle (ending matches .timedOut _) machine.jobs after
    (.ok ending, files, machine)

end Assay.Host
