import Assay.Host.Script.Reader
import Assay.Host.Utility.Basic

namespace Assay.Host.Shell

open Act

/-- Runs a script that is part of the one at hand. -/
abbrev Evaluator := Script → Act Unit

/-- The status of a script that cannot be read. -/
def unreadable : Nat := 2

/-- The longest part of a text that ends with a line and can be read. -/
def readablePart? (source : List Char) : Option Script :=
  let lines := Text.splitAll '\n' source
  (List.range lines.length).reverse.findSome? fun count =>
    Script.ofText? (List.intercalate ['\n'] (lines.take count) ++ ['\n'])

/-- Runs a text. Where it cannot be read, the lines before that have been run. -/
def runText (evaluate : Evaluator) (source : List Char) : Act Unit := do
  match Script.ofText? source with
  | some script => evaluate script
  | none =>
    (readablePart? source).forM evaluate
    complain "Syntax error"
    throw (.exited unreadable)

/-- Runs what is to be done on a signal, or at the end of the process for number zero. -/
def answer (evaluate : Evaluator) (signal : Nat) : Act Unit := do
  let session ← get
  let action := (session.frame.traps.find? signal).getD ""
  unless action.isEmpty do
    runText evaluate action.toList
    setStatus session.status

/-- Answers the signals that have come. -/
def answerAll (evaluate : Evaluator) : Act Unit := do
  let pending := (← frame).pending
  unless pending.isEmpty do
    modifyFrame fun frame => { frame with pending := [] }
    pending.forM (answer evaluate)

/-- Runs a script that is all of a process, and what is to be done at its end. -/
def runWhole (evaluate : Evaluator) (script : Act Unit) : Act Nat := do
  match ← ExceptT.lift script.run with
  | .ok () => pure ()
  | .error (.exited status) | .error (.returned status) => setStatus status
  | .error stop => throw stop
  answer evaluate 0
  return (← get).status

/-- Runs a script instead of what the process was running, with a name and arguments. -/
def runSource (evaluate : Evaluator) (strict : Bool) (name : String) (arguments : List String)
    (source : List Char) : Act Nat := do
  modifyFrame fun frame =>
    { frame.copied with
      name, arguments, strict
      settings := frame.settings.filterKeys frame.exported.contains
      functions := .empty
      lastJob := none }
  setStatus 0
  runWhole evaluate (runText evaluate source)

/-- The shell as a program: runs a script that is given as text, in a file, or as its input. -/
def shell (evaluate : Evaluator) : Utility := fun words => do
  let options := words.takeWhile Utility.isOption
  let strict := Utility.hasOption options 'e'
  match words.dropWhile Utility.isOption with
  | [] =>
    let input := (← frame).input
    modifyFrame fun frame => { frame with input := ByteArray.empty }
    runSource evaluate strict "sh" [] (Octets.word input).toList
  | first :: rest =>
    if Utility.hasOption options 'c' then
      runSource evaluate strict (rest.headD "sh") (rest.drop 1) first.toList
    else
      match ← query fun files base => files.read base (Octets.path first) with
      | .ok source => runSource evaluate strict first rest (Octets.word source).toList
      | .error _ =>
        complain ("0: cannot open " ++ first ++ ": No such file")
        return unreadable

end Assay.Host.Shell
