import Assay.Duration
import Assay.Host.Script
import Assay.Process

/-!
# Sessions

A host runs one process at a time. A process that waits for another one is suspended while that runs, and
jobs in the background are caught up with whenever time has passed, so a session is a state with a clock and
an action on it is a function.
-/

namespace Assay.Host

/-! ### Words

Scripts do with words what they do with bytes. Every character of a word on the host stands for one byte.
-/

namespace Octets

def word (bytes : Bytes) : String :=
  String.ofList (bytes.toList.map fun byte => Char.ofNat byte.toNat)

def bytes (word : String) : Bytes :=
  ⟨(word.toList.map fun char => char.toNat.toUInt8).toArray⟩

def ofRaw (text : RawText) : String :=
  String.ofList (text.bytes.map fun byte => Char.ofNat byte.toNat)

def raw (word : String) : RawText :=
  ⟨word.toList.map fun char => char.toNat.toUInt8⟩

def path (word : String) : Path := ⟨raw word⟩

def ofPath (path : Path) : String := ofRaw path.text

end Octets

/-! ### Processes -/

inductive Output
  | sink (sink : Sink)
  /-- Into the hands of whoever started the process. -/
  | capture
deriving DecidableEq

/-- What a process has for itself. -/
structure Frame where
  process : Nat
  /-- The processes that wait for this one. -/
  ancestors : List Nat
  directory : Location
  settings : Table String String
  functions : Table String Script
  /-- The variables that the programs it starts get too. -/
  exported : List String
  name : String
  arguments : List String
  input : Bytes
  output : Output
  errors : Output
  /-- What is done on a signal instead of ending, and at the end of the process for number zero. A signal
  for which nothing is done is ignored. -/
  traps : Table Nat String
  /-- Signals that have come and are still to be answered. -/
  pending : List Nat
  /-- The first command that fails ends the process. -/
  strict : Bool
  lastJob : Option Nat

/-- The frame of a copy of the process. Only signals that are ignored stay trapped. -/
def Frame.copied (frame : Frame) : Frame :=
  { frame with
    traps := frame.traps.filterKeys fun signal =>
      signal ≠ 0 && frame.traps.find? signal = some ""
    pending := [] }

/-- A script left to run beside the one that started it. -/
structure Job where
  process : Nat
  frame : Frame
  script : Script
  start : Duration

/-- A process and what it shares with the others of its group. Only waiting takes time. -/
structure Session where
  frame : Frame
  files : Files
  clock : Duration
  deadline : Option Duration
  status : Nat
  captured : Bytes
  jobs : List Job
  /-- The exit statuses of the jobs that have ended. -/
  ended : Table Nat Nat
  nextProcess : Nat

/-- Why a process does not go on. -/
inductive Stop
  | exited (status : Nat)
  | killed (process signal : Nat)
  /-- The time is up. -/
  | expired
  | leaveLoop
  | nextTurn
  | returned (status : Nat)
deriving DecidableEq

abbrev Act := ExceptT Stop (StateM Session)

namespace Act

def frame : Act Frame := do return (← get).frame

def modifyFrame (change : Frame → Frame) : Act Unit :=
  modify fun session => { session with frame := change session.frame }

def setStatus (status : Nat) : Act Unit :=
  modify fun session => { session with status := status % 256 }

def emit (output : Output) (bytes : Bytes) : Act Unit :=
  modify fun session =>
    match output with
    | .sink .discard => session
    | .sink (.stream id) => { session with files := session.files.write id bytes }
    | .capture => { session with captured := session.captured ++ bytes }

def print (text : String) : Act Unit := do emit (← frame).output (Octets.bytes text)

def complain (message : String) : Act Unit := do
  let frame ← frame
  emit frame.errors (Octets.bytes (frame.name ++ ": " ++ message ++ "\n"))

/-- Lets time pass, up to the deadline. -/
def pass (duration : Duration) : Act Unit := do
  let session ← get
  let later : Duration := ⟨session.clock.nanoseconds + duration.nanoseconds⟩
  match session.deadline with
  | none => set { session with clock := later }
  | some deadline =>
    if 0 < duration.nanoseconds ∧ deadline.nanoseconds ≤ later.nanoseconds then do
      set { session with clock := deadline }
      throw .expired
    else set { session with clock := later }

/-- An operation on files that starts in the working directory of the process. -/
def query {α : Type} (operation : Files → Location → Except Fault α) : Act (Except Fault α) := do
  let session ← get
  return operation session.files session.frame.directory

/-- Changes files; a fault changes nothing. -/
def alter (operation : Files → Location → Except Fault Files) : Act (Except Fault Unit) := do
  let session ← get
  match operation session.files session.frame.directory with
  | .ok files =>
    set { session with files }
    return .ok ()
  | .error fault => return .error fault

/-- Runs an action with a frame of its own. What it does to files, clock and output stays. -/
def within {α : Type} (change : Frame → Frame) (action : Act α) : Act (Except Stop α) := do
  let before ← frame
  modifyFrame change
  let result ← ExceptT.lift action.run
  modifyFrame fun _ => before
  return result

/-- Runs an action and hands over what it printed. -/
def capturing {α : Type} (action : Act α) : Act (Except Stop α × Bytes) := do
  let before := (← get).captured
  modify fun session => { session with captured := ByteArray.empty }
  let result ← within (fun frame => { frame with output := .capture }) action
  let captured := (← get).captured
  modify fun session => { session with captured := before }
  return (result, captured)

def newProcess : Act Nat := do
  let process := (← get).nextProcess
  modify fun session => { session with nextProcess := process + 1 }
  return process

/-- The exit status that the parent of a process sees. What stops the parent too goes on. -/
def statusOfChild (process : Nat) (result : Except Stop Nat) : Act Nat :=
  match result with
  | .ok status | .error (.exited status) | .error (.returned status) => return status % 256
  | .error (.killed victim signal) =>
    if victim = process then return 128 + signal else throw (.killed victim signal)
  | .error .expired => throw .expired
  | .error .leaveLoop | .error .nextTurn => return 0

/-- Runs an action in a process of its own, and hands over its exit status. -/
def asChild (action : Act Nat) : Act Nat := do
  let process ← newProcess
  let result ← within (fun frame =>
    { frame with process, ancestors := frame.process :: frame.ancestors }) action
  statusOfChild process result

end Act

end Assay.Host
