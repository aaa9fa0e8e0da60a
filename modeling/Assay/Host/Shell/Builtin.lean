import Assay.Host.Expansion
import Assay.Host.Shell.Job

namespace Assay.Host.Shell

open Act

def exitStatus (words : List String) : Act Nat := do
  match words with
  | [] => return (← get).status
  | word :: _ => return (word.toNat?.map (· % 256)).getD unreadable

def changeDirectory (target : String) : Act Nat := do
  match ← query fun files base => files.findDirectory base (Octets.path target) with
  | .ok directory =>
    modifyFrame fun frame => { frame with directory }
    return 0
  | .error _ =>
    complain ("cd: can't cd to " ++ target)
    return unreadable

/-- Reads a line of the input into variables, the last of which takes what is left. -/
def readLine (names : List String) : Act Nat := do
  let bytes := (← frame).input.toList
  let line := bytes.takeWhile (· ≠ 10)
  let rest := bytes.drop (line.length + 1)
  modifyFrame fun frame => { frame with input := ⟨rest.toArray⟩ }
  let text := (Octets.word ⟨line.toArray⟩).toList
  assign names (text.dropWhile isFieldSpace)
  return if line.length < bytes.length then 0 else 1
where
  assign : List String → List Char → Act Unit
    | [], _ => return
    | [name], text => put name (text.reverse.dropWhile isFieldSpace).reverse
    | name :: names, text => do
      put name (text.takeWhile (!isFieldSpace ·))
      assign names ((text.dropWhile (!isFieldSpace ·)).dropWhile isFieldSpace)
  put (name : String) (text : List Char) : Act Unit :=
    modifyFrame fun frame =>
      { frame with settings := frame.settings.put name (String.ofList text) }

/-- Sets what is done on signals; a hyphen gives them back their meaning. -/
def trap : List String → Act Nat
  | action :: signals => do
    let named := signals.filterMap Utility.signal?
    modifyFrame fun frame =>
      { frame with
        traps := if action = "-" then frame.traps.filterKeys (!named.contains ·)
          else named.foldl (fun traps signal => traps.put signal action) frame.traps }
    return 0
  | [] => return 0

/-- Utilities that the shell does not start a process for. -/
def ownUtilities : List String := ["true", "false", "printf", "pwd", "test", "[", "kill"]

/-- Commands that act on the shell itself. -/
def builtin? (evaluate : Evaluator) (name : String) (arguments : List String) :
    Option (Act Nat) :=
  match name with
  | ":" => some (return 0)
  | "echo" => some (Utility.shellEcho arguments)
  | "cd" => some (changeDirectory (arguments.headD "/"))
  | "exit" => some do throw (.exited (← exitStatus arguments))
  | "read" => some (readLine (arguments.filter fun word => !Utility.isOption word))
  | "trap" => some (trap arguments)
  | "wait" => some (wait evaluate arguments)
  | "return" => some do throw (.returned (← exitStatus arguments))
  | "umask" | "ulimit" => some (return 0)
  | "command" => some do
    let session ← get
    match arguments with
    | "-v" :: name :: _ =>
      let known := (Utility.find? name).isSome || (program session.files session.frame.directory name).isOk
      if known then print (name ++ "\n")
      return if known then 0 else notFoundStatus
    | name :: arguments => asChild (launch evaluate launchLimit name arguments)
    | [] => return 0
  | "break" => some (throw .leaveLoop)
  | "continue" => some (throw .nextTurn)
  | "shift" => some do
    let count := (arguments.head?.bind String.toNat?).getD 1
    if (← frame).arguments.length < count then
      complain "shift: can't shift that many"
      throw (.exited unreadable)
    modifyFrame fun frame => { frame with arguments := frame.arguments.drop count }
    return 0
  | "set" => some do
    match arguments with
    | "--" :: words => modifyFrame fun frame => { frame with arguments := words }
    | _ =>
      let strict := Utility.hasOption arguments 'e'
      modifyFrame fun frame => { frame with strict := frame.strict || strict }
    return 0
  | "export" | "readonly" => some do
    setVariables (arguments.filterMap setting?)
    exportNames (arguments.map fun word => ((setting? word).map Prod.fst).getD word)
    return 0
  | "local" => some do
    setVariables (arguments.filterMap setting?)
    return 0
  | "unset" => some do
    modifyFrame fun frame =>
      { frame with settings := frame.settings.filterKeys fun key => !arguments.contains key }
    return 0
  | "eval" => some do
    runText evaluate (" ".intercalate arguments).toList
    return (← get).status
  | "." => some do
    if arguments.isEmpty then return 0
    match ← query fun files base => files.read base (Octets.path (arguments.headD "")) with
    | .ok source =>
      runText evaluate (Octets.word source).toList
      return (← get).status
    | .error _ =>
      complain (".: cannot open " ++ arguments.headD "")
      throw (.exited unreadable)
  | "exec" =>
    match arguments with
    | name :: arguments => some do throw (.exited (← launch evaluate launchLimit name arguments))
    | [] => some (return 0)
  | _ =>
    if ownUtilities.contains name then (Utility.find? name).map fun utility => utility arguments
    else none

/-- Runs the body of a function with arguments of its own. -/
def callFunction (evaluate : Evaluator) (body : Script) (arguments : List String) : Act Nat := do
  let before := (← frame).arguments
  modifyFrame fun frame => { frame with arguments }
  let result ← ExceptT.lift (evaluate body).run
  modifyFrame fun frame => { frame with arguments := before }
  match result with
  | .ok () => return (← get).status
  | .error (.returned status) => return status
  | .error stop => throw stop

def runCommand (evaluate : Evaluator) (name : String) (arguments : List String) : Act Nat := do
  match (← frame).functions.find? name, builtin? evaluate name arguments with
  | some body, _ => callFunction evaluate body arguments
  | none, some action => action
  | none, none => asChild (launch evaluate launchLimit name arguments)

end Assay.Host.Shell
