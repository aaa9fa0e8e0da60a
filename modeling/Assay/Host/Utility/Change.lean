import Assay.Host.Utility.Basic

namespace Assay.Host.Utility

open Act

/-- Removes what is at a path, and a directory only if that is asked for or it may be and is empty. -/
def removeNode (recursive emptyDirectory : Bool) (files : Files) (base : Location) (path : Path) :
    Except Fault Files :=
  match files.lookup base path false with
  | .ok (.occupied location (.directory _)) =>
    if recursive || emptyDirectory && (files.names location).isEmpty then files.remove base path
    else .error .isADirectory
  | _ => files.remove base path

def rm : Utility := fun words => do
  let recursive := hasOption words 'r' || hasOption words 'R'
  let force := hasOption words 'f'
  if (operandsOf words).isEmpty && !force then missingOperand "rm"
  else
    forOperands (operandsOf words) fun operand => do
      let result ← alter fun files base =>
        removeNode recursive (hasOption words 'd') files base (Octets.path operand)
      let quiet := match result with
        | .error .notFound | .error .notADirectory => force
        | _ => false
      settle "rm" operand quiet result

/-- The path itself, or the entry in it that is named like `source` where it is a directory. -/
def into (files : Files) (base : Location) (source target : String) : Path :=
  let path := Octets.path target
  if files.isDirectory base path then
    path.join ⟨(Octets.path source).fileName?.getD (Octets.raw source)⟩
  else path

def copyFile (files : Files) (base : Location) (source : String) (target : Path) :
    Except Fault Files :=
  match files.find base (Octets.path source) with
  | .ok (_, .file _ content executable) => do
    let copied ← files.writeFile base target content
    if executable then copied.setExecutable base target true else return copied
  | .ok _ => .error .isADirectory
  | .error fault => .error fault

/-- Copies a directory with all that is in it. -/
def copyTree (files : Files) (base : Location) (source : String) (target : Path) :
    Except Fault Files := do
  match ← files.find base (Octets.path source) with
  | (location, .directory _) =>
    let (made, files) := files.ensureDirectory base target
    made
    (files.below location).foldlM (fun files child => do
      let inner : Path := target.join ⟨RawText.intercalate "/" (child.drop location.length)⟩
      match files.node? child with
      | some (.directory _) => files.makeDirectory base inner
      | some (.link path) => files.makeLink base inner path
      | some (.file ..) => copyFile files base (Octets.ofPath child.path) inner
      | none => .ok files) files
  | _ => copyFile files base source target

/-- Splits off the last operand, which the others go to. -/
def sourcesAndTarget? (operands : List String) : Option (List String × String) :=
  match operands.getLast? with
  | some target => if operands.length < 2 then none else some (operands.dropLast, target)
  | none => none

def toTarget (utility : String) (operands : List String)
    (operation : Files → Location → String → Path → Except Fault Files) : Act Nat := do
  match sourcesAndTarget? operands with
  | some (sources, target) =>
    forOperands sources fun source => do
      settle utility source false
        (← alter fun files base => operation files base source (into files base source target))
  | none =>
    missingOperand utility

def cp : Utility := fun words =>
  let recursive := ['r', 'R', 'a'].any (hasOption words)
  toTarget "cp" (operandsOf words) (if recursive then copyTree else copyFile)

def moveNode (files : Files) (base : Location) (source : String) (target : Path) :
    Except Fault Files := do
  match ← files.lookup base (Octets.path source) false, ← files.lookup base target false with
  | .occupied old _, .vacant new => return files.move old new
  | .occupied old (.file ..), .occupied new (.file ..) => return files.move old new
  | .occupied _ _, .occupied _ _ => throw .alreadyExists
  | .vacant _, _ => throw .notFound

def mv : Utility := fun words => toTarget "mv" (operandsOf words) moveNode

def mkdir : Utility := fun words =>
  forSomeOperands "mkdir" (operandsOf words) fun operand => do
    settle "mkdir" operand false (← alter fun files base =>
      if hasOption words 'p' then
        let (made, files) := files.ensureDirectory base (Octets.path operand)
        made.map fun _ => files
      else files.makeDirectory base (Octets.path operand))

def rmdir : Utility := fun words =>
  forSomeOperands "rmdir" (operandsOf words) fun operand => do
    settle "rmdir" operand false (← alter fun files base => do
      let location ← files.findDirectory base (Octets.path operand)
      if (files.names location).isEmpty then files.remove base (Octets.path operand)
      else throw .directoryNotEmpty)

def touch : Utility := fun words =>
  forSomeOperands "touch" (operandsOf words) fun operand => do
    settle "touch" operand false (← alter fun files base =>
      if files.isDirectory base (Octets.path operand) then .ok files
      else (files.openStream base (Octets.path operand) .append).map Prod.snd)

def ln : Utility := fun words => do
  let symbolic := hasOption words 's'
  toTarget "ln" (operandsOf words) fun files base source target =>
    let files := if hasOption words 'f' then (files.remove base target).toOption.getD files else files
    if symbolic then files.makeLink base target (Octets.path source) else copyFile files base source target

/-- Whether a mode makes a file executable; modes that say nothing about it say nothing here. -/
def executableOf? (mode : String) : Option Bool :=
  if mode.toList.all Char.isDigit then
    some (mode.toList.any fun digit => (digit.toNat - '0'.toNat) % 2 = 1)
  else if !mode.toList.contains 'x' then none
  else some (mode.toList.contains '+' || mode.toList.contains '=')

def chmod : Utility
  | mode :: operands =>
    forOperands operands fun operand => do
      settle "chmod" operand false (← alter fun files base =>
        match executableOf? mode with
        | some executable => files.setExecutable base (Octets.path operand) executable
        | none => (files.find base (Octets.path operand)).map fun _ => files)
  | [] => do missingOperand "chmod"

end Assay.Host.Utility
