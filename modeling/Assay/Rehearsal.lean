import Assay.Files.Action
import Assay.Process
import Assay.Text.Split

/-!
# Rehearsed runners

A runner for trying a batch out: nothing is started, and what a command would do is said in advance.
-/

namespace Assay

namespace Rehearsal

/-- What a rehearsed command does. -/
inductive Reaction
  | exit (status : Int) (actions : List FileAction)
  /-- Uses up all the time it is given. -/
  | hang
  | timeOut (limit : Duration)
  | refuse
  | panic

/-- Which commands a reaction is for. What is not given does not matter. -/
structure Cue where
  program : Option String := none
  arguments : Option (List String) := none
  /-- Occurs in the text of the command. -/
  text : Option String := none
  /-- Occurs in the working directory. -/
  directory : Option String := none
  times : Option Nat := none
  reaction : Reaction

/-- How often each cue was taken, and all calls so far. -/
structure Memory where
  taken : List Nat
  calls : List Call

def Memory.start : Memory := ⟨[], []⟩

def Memory.timesTaken (memory : Memory) (cue : Nat) : Nat :=
  memory.taken.count cue

def Cue.isFor (cue : Cue) (call : Call) (taken : Nat) : Bool :=
  cue.program.all (· = call.command.program) &&
  cue.arguments.all (· = call.command.arguments) &&
  cue.text.all (fun text => Text.contains text.toList call.command.text.toList) &&
  cue.directory.all (fun text => Text.contains text.toList call.directory.shown.toList) &&
  cue.times.all (taken < ·)

def find? (cues : List Cue) (call : Call) (memory : Memory) : Option (Cue × Nat) :=
  cues.zipIdx.find? fun (cue, index) => cue.isFor call (memory.timesTaken index)

/-- Does the actions, and echoes the command into a stream. -/
def exit (call : Call) (actions : List FileAction) (files : Files) : Files :=
  let files := FileAction.applyAll files files.directory
    (actions.map (FileAction.relativeTo call.directory))
  match call.stdout with
  | .discard => files
  | .stream id => files.write id (Bytes.ofText (call.command.text ++ "\n"))

def react (call : Call) (files : Files) : Reaction → Except Panic Ending × Files
  | .exit status actions => (.ok (.exited status), exit call actions files)
  | .hang => (.ok (.timedOut (call.limit.getD ⟨0⟩)), files)
  | .timeOut limit => (.ok (.timedOut limit), files)
  | .refuse => (.ok (.notLaunched call.command.program "No such file or directory"), files)
  | .panic => (.error ⟨"scripted panic for " ++ call.command.text⟩, files)

/-- A runner that starts nothing and lets the first cue for a command decide. A command without a cue
succeeds and changes nothing. -/
def runner (cues : List Cue) : Runner Memory := fun call files memory =>
  let called := { memory with calls := memory.calls ++ [call] }
  match find? cues call memory with
  | none =>
    let (ending, files) := react call files (.exit 0 [])
    (ending, files, called)
  | some (cue, index) =>
    let (ending, files) := react call files cue.reaction
    (ending, files, { called with taken := index :: called.taken })

end Rehearsal

end Assay
