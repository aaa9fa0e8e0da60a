import Assay.Host.Shell.Builtin

/-!
# The shell

Runs scripts. Every construct of the language has a function that leaves its parts to an evaluator, and
`evaluate` ties them together, so that it is structural in how deep scripts may be nested. Nothing takes
time but waiting; a loop that turns too often, and a script that is nested too deep, use up all the time
there is.
-/

namespace Assay.Host.Shell

open Act

/-- What a script between the brackets of a substitution prints. -/
def substitute (evaluate : Evaluator) (source : List Char) : Act Bytes := do
  let process := (← frame).process
  let (result, bytes) ← capturing (do runText evaluate source; return (← get).status)
  setStatus (← match result with
    | .error (.killed victim signal) => throw (.killed victim signal)
    | result => statusOfChild process result)
  return bytes

def runSimple (evaluate : Evaluator) (assignments : List (String × Word)) (words : List Word) :
    Act Unit := do
  let substitute := substitute evaluate
  let argv ← expand substitute words
  let assigned ← assignments.mapM fun (name, word) => do
    return (name, (← expandWhole substitute word).text)
  match argv with
  | [] =>
    if !assigned.isEmpty || words.isEmpty then setVariables assigned
    unless assignments.any fun (_, word) => word.any fun piece => piece matches .substitution .. do
      setStatus 0
  | name :: arguments =>
    let began := (← get).clock
    setStatus (← withEnvironment assigned (runCommand evaluate name arguments))
    if (← get).clock ≠ began then settle evaluate
    answerAll evaluate

/-- Opens a file for output; what is written to the null device is gone. -/
def openOutput (target : String) (mode : OpenMode) : Act (Except Fault Output) := do
  if target = "/dev/null" then return .ok (.sink .discard)
  let session ← get
  match session.files.openStream session.frame.directory (Octets.path target) mode with
  | .ok (stream, files) =>
    set { session with files }
    return .ok (.sink (.stream stream))
  | .error fault => return .error fault

def setOutput (descriptor : Nat) (output : Output) : Act Unit :=
  modifyFrame fun frame =>
    if descriptor = 2 then { frame with errors := output }
    else if descriptor = 1 then { frame with output } else frame

def applyRedirection (evaluate : Evaluator) (redirection : Redirection) : Act (Except Fault Unit) := do
  let target (word : Word) : Act String := do
    return (← expandWhole (substitute evaluate) word).text
  match redirection with
  | .read source =>
    match ← Utility.readOperand (← target source) with
    | .ok input =>
      modifyFrame fun frame => { frame with input }
      return .ok ()
    | .error fault => return .error fault
  | .text content =>
    let text := (← expandWhole (substitute evaluate) content).text
    modifyFrame fun frame => { frame with input := Octets.bytes text }
    return .ok ()
  | .write descriptor file mode =>
    match ← openOutput (← target file) mode with
    | .ok output =>
      setOutput descriptor output
      return .ok ()
    | .error fault => return .error fault
  | .duplicate descriptor source =>
    let frame ← frame
    match ← target source with
    | "1" => setOutput descriptor frame.output
    | "2" => setOutput descriptor frame.errors
    | _ => setOutput descriptor (.sink .discard)
    return .ok ()

/-- Applies redirections in turn, and says whether all could be applied. -/
def applyRedirections (evaluate : Evaluator) : List Redirection → Act Bool
  | [] => return true
  | redirection :: rest => do
    match ← applyRedirection evaluate redirection with
    | .ok () => applyRedirections evaluate rest
    | .error fault =>
      complain ("cannot open: " ++ fault.message)
      return false

/-- A command whose redirections stay. -/
def keepsRedirections : Script → Bool
  | .simple [] [[.plain name]] => name = "exec".toList
  | _ => false

/-- Runs a script with redirections, which last only as long as it runs. -/
def runRedirected (evaluate : Evaluator) (script : Script) (redirections : List Redirection) :
    Act Unit := do
  let before ← frame
  let restore : Act Unit := modifyFrame fun frame =>
    if keepsRedirections script then frame
    else { frame with input := before.input, output := before.output, errors := before.errors }
  if ← applyRedirections evaluate redirections then
    let result ← ExceptT.lift (evaluate script).run
    restore
    match result with
    | .ok () => return
    | .error stop => throw stop
  else
    restore
    setStatus unreadable

/-- Runs a script whose failure is not the end of the process. -/
def succeeded (evaluate : Evaluator) (script : Script) : Act Bool := do
  let strict := (← frame).strict
  modifyFrame fun frame => { frame with strict := false }
  let result ← ExceptT.lift (evaluate script).run
  modifyFrame fun frame => { frame with strict }
  match result with
  | .ok () => return (← get).status = 0
  | .error stop => throw stop

/-- Ends a strict process where the last command failed. -/
def checkStatus : Act Unit := do
  let session ← get
  if session.frame.strict ∧ session.status ≠ 0 then throw (.exited session.status)

/-- One turn of a loop, and whether there is another one. -/
def turn (body : Act Unit) : Act Bool := do
  match ← ExceptT.lift body.run with
  | .ok () | .error .nextTurn => return true
  | .error .leaveLoop => return false
  | .error stop => throw stop

/-- How often a loop turns before it is taken to go on for ever. -/
def turnLimit : Nat := 100000

def repeatWhile (condition : Act Bool) (body : Act Unit) : Nat → Act Unit
  | 0 => throw .expired
  | turns + 1 => do
    if ← condition then
      if ← turn body then repeatWhile condition body turns

def runLoop (evaluate : Evaluator) (holds : Bool) (condition body : Script) : Act Unit := do
  repeatWhile (do return (← succeeded evaluate condition) = holds) (evaluate body) turnLimit
  setStatus 0

def runForEach (evaluate : Evaluator) (name : String) (body : Script) : List String → Act Unit
  | [] => return
  | item :: rest => do
    setVariables [(name, item)]
    if ← turn (evaluate body) then runForEach evaluate name body rest

/-- Runs the first branch with a pattern that accepts the subject. -/
def runSelection (evaluate : Evaluator) (subject : List Char) :
    List (List Word × Script) → Act Unit
  | [] => setStatus 0
  | (patterns, script) :: rest => do
    let fields ← patterns.mapM (expandWhole (substitute evaluate))
    if fields.any (Pattern.accepts · subject) then evaluate script
    else runSelection evaluate subject rest

/-- Runs a script in a copy of the process. What ends the copy leaves the process running. -/
def runSubshell (evaluate : Evaluator) (script : Script) : Act Unit := do
  let result ← within Frame.copied (runWhole evaluate (evaluate script))
  match result with
  | .error (.killed victim signal) => throw (.killed victim signal)
  | result => setStatus (← statusOfChild 0 result)

def runPiped (evaluate : Evaluator) (left right : Script) : Act Unit := do
  let (result, bytes) ← capturing (do evaluate left; return (← get).status)
  match result with
  | .error (.killed victim signal) => throw (.killed victim signal)
  | .error .expired => throw .expired
  | _ => pure ()
  let result ← within (fun frame => { frame with input := bytes })
    (do evaluate right; return (← get).status)
  match result with
  | .error (.killed victim signal) => throw (.killed victim signal)
  | result => setStatus (← statusOfChild 0 result)

def startJob (script : Script) : Act Unit := do
  let process ← newProcess
  let session ← get
  let job : Job := { process, frame := session.frame.copied, script, start := session.clock }
  set { session with
    jobs := session.jobs ++ [job], status := 0
    frame := { session.frame with lastJob := some process } }

/-- Runs one script, whose parts are left to `evaluate`. -/
def step (evaluate : Evaluator) : Script → Act Unit
  | .simple assignments words => do
    runSimple evaluate assignments words
    checkStatus
  | .redirected script redirections => runRedirected evaluate script redirections
  | .sequence scripts => scripts.forM evaluate
  | .both left right => do if ← succeeded evaluate left then evaluate right
  | .either left right => do unless ← succeeded evaluate left do evaluate right
  | .negated script => do setStatus (if ← succeeded evaluate script then 1 else 0)
  | .piped left right => do
    runPiped evaluate left right
    checkStatus
  | .background script => startJob script
  | .subshell script => do
    runSubshell evaluate script
    checkStatus
  | .branch condition accepted rejected => do
    if ← succeeded evaluate condition then evaluate accepted
    else if rejected matches .sequence [] then setStatus 0
    else evaluate rejected
  | .loop holds condition body => runLoop evaluate holds condition body
  | .forEach name words body => do
    runForEach evaluate name body (← expand (substitute evaluate) words)
  | .define name body => do
    modifyFrame fun frame => { frame with functions := frame.functions.put name body }
    setStatus 0
  | .select subject branches => do
    runSelection evaluate ((← expandWhole (substitute evaluate) subject).map Prod.fst) branches

/-- How deep scripts can be nested, and started from one another. -/
def depthLimit : Nat := 400

/-- Runs a script. One that starts itself over and over never ends. -/
def evaluate : Nat → Evaluator
  | 0, _ => throw .expired
  | depth + 1, script => step (evaluate depth) script

end Assay.Host.Shell
