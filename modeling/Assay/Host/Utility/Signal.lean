import Assay.Host.Utility.Basic

namespace Assay.Host.Utility

open Act

/-- A number of seconds, with a fraction and with a unit if need be. -/
def duration? (text : String) : Option Duration := do
  let (digits, unit) := match text.toList.getLast? with
    | some 's' => (text.toList.dropLast, 1)
    | some 'm' => (text.toList.dropLast, 60)
    | some 'h' => (text.toList.dropLast, 3600)
    | some 'd' => (text.toList.dropLast, 86400)
    | _ => (text.toList, 1)
  let (whole, fraction) := (Text.splitOnce ['.'] digits).getD (digits, [])
  if (whole ++ fraction).isEmpty || !(whole ++ fraction).all Char.isDigit then none
  else
    let number (digits : List Char) : Nat :=
      digits.foldl (fun value digit => 10 * value + (digit.toNat - '0'.toNat)) 0
    let nanoseconds := number ((fraction ++ List.replicate 9 '0').take 9)
    return ⟨unit * (number whole * 1000000000 + nanoseconds)⟩

def sleep : Utility := fun words => do
  match words.mapM duration? with
  | some durations =>
    if durations.isEmpty then missingOperand "sleep"
    else
      pass ⟨durations.foldl (fun total duration => total + duration.nanoseconds) 0⟩
      return 0
  | none =>
    complain "sleep: invalid time interval"
    return 1

def signalNames : List (String × Nat) :=
  [("EXIT", 0), ("HUP", 1), ("INT", 2), ("QUIT", 3), ("ILL", 4), ("TRAP", 5), ("ABRT", 6), ("BUS", 7), ("FPE", 8),
    ("KILL", 9), ("USR1", 10), ("SEGV", 11), ("USR2", 12), ("PIPE", 13), ("ALRM", 14), ("TERM", 15),
    ("CHLD", 17), ("CONT", 18), ("STOP", 19)]

def signal? (text : String) : Option Nat :=
  text.toNat? <|> signalNames.lookup text <|>
    ("SIG".toList.isPrefixOf? text.toList).bind fun rest => signalNames.lookup (String.ofList rest)

/-- Signals that end a process which does not care about them. -/
def isDeadly (signal : Nat) : Bool :=
  0 < signal && signal < 65 && !([17, 18, 19, 20, 21, 22, 23, 28].contains signal)

/-- Signals that halt a process for good, where nobody wakes it. -/
def isHalting (signal : Nat) : Bool := [19, 20, 21, 22].contains signal

/-- Sends a signal to the process itself, to one that waits for it, or to a job. -/
def send (signal : Nat) (target : String) : Act Bool := do
  let session ← get
  let frame := session.frame
  match target.toNat? with
  | none => return false
  | some process =>
    let trap := if signal = 9 ∨ signal = 19 then none else frame.traps.find? signal
    if process = frame.process ∨ process ∈ frame.ancestors then
      if trap.isSome then
        modifyFrame fun frame => { frame with pending := frame.pending ++ [signal] }
        return true
      if isDeadly signal then throw (.killed process signal)
      if isHalting signal then throw .expired
      return true
    else if session.jobs.any (·.process = process) then
      if isDeadly signal then
        set { session with
          jobs := session.jobs.filter (·.process ≠ process)
          ended := session.ended.put process (128 + signal) }
      return true
    else return false

def kill : Utility
  | "-s" :: name :: processes => sendAll (signal? name) processes
  | first :: rest =>
    match first.toList with
    | '-' :: name => sendAll (signal? (String.ofList name)) rest
    | _ => sendAll (some 15) (first :: rest)
  | [] => return 2
where
  sendAll (signal : Option Nat) (processes : List String) : Act Nat :=
    match signal with
    | some signal => forOperands processes (send signal)
    | none => return 1

end Assay.Host.Utility
