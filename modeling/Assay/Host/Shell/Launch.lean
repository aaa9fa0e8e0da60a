import Assay.Host.Installation
import Assay.Host.Shell.Source

namespace Assay.Host.Shell

open Act

/-- How many interpreters can stand between a script and an installed program. -/
def interpreterLimit : Nat := 5

/-- The length in bytes from which on a name is too long to be searched for. -/
def programNameLimit : Nat := 255

def notFoundStatus : Nat := 127

def notExecutableStatus : Nat := 126

/-- How a file asks to be run: the interpreter that its first line names, and an argument for it. -/
def interpreter? (content : Bytes) : Option (String × List String) := do
  let rest ← ['#', '!'].isPrefixOf? (Octets.word content).toList
  let isGap (char : Char) : Bool := char = ' ' || char = '\t'
  let line := (rest.takeWhile (· ≠ '\n')).dropWhile isGap
  let name := line.takeWhile (!isGap ·)
  let argument := ((line.drop name.length).dropWhile isGap).reverse.dropWhile isGap
  if name.isEmpty then none
  else
    return (String.ofList name,
      if argument.isEmpty then [] else [String.ofList argument.reverse])

/-- An installed program and the arguments in front of its own, or why there is none. -/
abbrev Program := Except Fault (Image × List String)

/-- The program in a file, which is an installed program or a script for one. -/
def programFile (files : Files) (base : Location) : Nat → Path → Program
  | depth, path =>
    match files.find base path with
    | .error fault => .error fault
    | .ok (_, .file _ content true) =>
      match Image.ofContent? content, interpreter? content, depth with
      | some image, _, _ => .ok (image, [])
      | none, none, _ => .error .notExecutable
      | none, some _, 0 => .error .linkLoop
      | none, some (interpreter, arguments), depth + 1 =>
        (programFile files base depth (Octets.path interpreter)).map fun (image, first) =>
          (image, first ++ arguments ++ [Octets.ofPath path])
    | .ok _ => .error .permissionDenied

/-- A name without a separator stands for a program in the search directory, any other for a file. -/
def program (files : Files) (base : Location) (name : String) : Program :=
  if name.toList.contains '/' then programFile files base interpreterLimit (Octets.path name)
  else if name.isEmpty then .error .notFound
  else if programNameLimit ≤ name.length then .error .nameTooLong
  else programFile files base interpreterLimit (searchDirectory.path.join (Octets.path name))

/-- How many programs can stand in front of one another on a command line. -/
def launchLimit : Nat := 100

def setVariables (assignments : List (String × String)) : Act Unit :=
  modifyFrame fun frame =>
    { frame with
      settings := assignments.foldl (fun settings (name, value) => settings.put name value)
        frame.settings }

/-- Makes variables visible to the programs that are started. -/
def exportNames (names : List String) : Act Unit :=
  modifyFrame fun frame => { frame with exported := names ++ frame.exported }

/-- Gives variables the values they had in `before`. -/
def restoreVariables (names : List String) (before : Frame) : Act Unit :=
  modifyFrame fun frame =>
    { frame with
      exported := before.exported
      settings := names.foldl (fun settings name =>
        match before.settings.find? name with
        | some value => settings.put name value
        | none => settings.filterKeys (· ≠ name)) frame.settings }

/-- Runs an action with variables set that are visible to the programs it starts. -/
def withEnvironment {α : Type} (assignments : List (String × String)) (action : Act α) : Act α := do
  if assignments.isEmpty then action
  else
    let before ← frame
    let names := assignments.map Prod.fst
    setVariables assignments
    exportNames names
    let value ← action
    restoreVariables names before
    return value

def setting? (word : String) : Option (String × String) :=
  (Text.splitOnce ['='] word.toList).map fun (name, value) =>
    (String.ofList name, String.ofList value)

/-- Runs what follows the settings at the start of a command line, with these settings. -/
def environment (launch : String → List String → Act Nat) : Utility := fun words => do
  let isSetting (word : String) : Bool := (setting? word).isSome
  match words.dropWhile isSetting with
  | [] => return 0
  | name :: arguments =>
    withEnvironment ((words.takeWhile isSetting).filterMap setting?) (launch name arguments)

def runImage (evaluate : Evaluator) (launch : String → List String → Act Nat) (image : Image) :
    Utility :=
  match image.name, Utility.find? image.name with
  | "sh", _ => shell evaluate
  | "env", _ => environment launch
  | _, some utility => utility
  | _, none => fun _ => return notExecutableStatus

/-- Runs a program that is not part of the shell. -/
def launch (evaluate : Evaluator) : Nat → String → List String → Act Nat
  | 0, _, _ => throw .expired
  | depth + 1, name, arguments => do
    let session ← get
    match program session.files session.frame.directory name with
    | .ok (image, first) => runImage evaluate (launch evaluate depth) image (first ++ arguments)
    | .error .notExecutable => shell evaluate (name :: arguments)
    | .error .notFound =>
      complain (name ++ ": not found")
      return notFoundStatus
    | .error _ =>
      complain (name ++ ": Permission denied")
      return notExecutableStatus

end Assay.Host.Shell
