import Assay.Host.Utility.Basic

namespace Assay.Host.Utility

open Act

/-- Where `operand` is a directory, the entry in it that is named like `other`. -/
def besides (operand other : String) : Act String := do
  let isDirectory ← query fun files base => .ok (files.isDirectory base (Octets.path operand))
  let name := (Octets.path other).fileName?.getD (Octets.raw other)
  return if isDirectory.toOption.getD false then Octets.ofPath ((Octets.path operand).join ⟨name⟩) else operand

/-- Both directories have the same names, and files of one name have the same content. -/
def sameDirectories (left right : String) : Act Bool := do
  let listed (path : String) := query fun files base => files.list base (Octets.path path)
  let sorted (names : Except Fault (List RawText)) : List String :=
    ((names.toOption.getD []).map Octets.ofRaw).mergeSort (· ≤ ·)
  let names := sorted (← listed left)
  if names ≠ sorted (← listed right) then return false
  names.allM fun name => do
    let read (path : String) := readOperand (Octets.ofPath ((Octets.path path).join (Octets.path name)))
    return (← read left).toOption = (← read right).toOption

/-- Ends with zero where two files are the same, with one where they differ, and with two in trouble. -/
def compare (utility : String) (acceptsDirectories : Bool) : Utility := fun words => do
  match operandsOf words with
  | [left, right] =>
    let isDirectory (path : String) := do
      return (← query fun files base => .ok (files.isDirectory base (Octets.path path))).toOption.getD false
    if acceptsDirectories && (← isDirectory left) && (← isDirectory right) then
      return if ← sameDirectories left right then 0 else 1
    let first ← if acceptsDirectories then besides left right else pure left
    let second ← if acceptsDirectories then besides right left else pure right
    match ← readOperand first, ← readOperand second with
    | .ok one, .ok other => return if one = other then 0 else 1
    | .error fault, _ =>
      blame utility first fault
      return 2
    | _, .error fault =>
      blame utility second fault
      return 2
  | _ =>
    complain (utility ++ ": missing operand")
    return 2

end Assay.Host.Utility
