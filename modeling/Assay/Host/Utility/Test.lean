import Assay.Host.Utility.Basic

namespace Assay.Host.Utility

open Act

def fileTest (operator operand : String) : Act Bool := do
  let session ← get
  let files := session.files
  let base := session.frame.directory
  let found := (files.find base (Octets.path operand)).toOption
  return match operator, found with
    | "-f", some (_, .file ..) => true
    | "-d", some (_, .directory _) => true
    | "-e", some _ | "-r", some _ | "-w", some _ => true
    | "-s", some (_, .file _ content _) => 0 < content.size
    | "-x", some (_, .file _ _ executable) => executable
    | "-x", some (_, .directory _) => true
    | "-L", _ | "-h", _ =>
      match files.lookup base (Octets.path operand) false with
      | .ok (.occupied _ (.link _)) => true
      | _ => false
    | _, _ => false

def compareNumbers (operator : String) (left right : Int) : Option Bool :=
  match operator with
  | "-eq" => some (left = right)
  | "-ne" => some (left ≠ right)
  | "-lt" => some (left < right)
  | "-le" => some (left ≤ right)
  | "-gt" => some (right < left)
  | "-ge" => some (right ≤ left)
  | _ => none

/-- Splits a condition at its first `-o`, or else at its first `-a`. -/
def splitCondition? (words : List String) (operator : String) :
    Option (List String × List String) :=
  match words.dropWhile (· ≠ operator) with
  | _ :: after => some (words.takeWhile (· ≠ operator), after)
  | [] => none

/-- Works a condition out; `none` where it makes no sense. -/
def condition : Nat → List String → Act (Option Bool)
  | 0, _ => return none
  | fuel + 1, words => do
    match words with
    | [] => return some false
    | [word] => return some (!word.isEmpty)
    | ["!", word] => return some word.isEmpty
    | ["-n", word] => return some (!word.isEmpty)
    | ["-z", word] => return some word.isEmpty
    | [operator, operand] =>
      if ["-f", "-d", "-e", "-r", "-w", "-s", "-x", "-L", "-h"].contains operator then
        return some (← fileTest operator operand)
      else return none
    | [left, "=", right] | [left, "==", right] => return some (left = right)
    | [left, "!=", right] => return some (left ≠ right)
    | "!" :: rest => return (← condition fuel rest).map (!·)
    | _ =>
      match splitCondition? words "-o", splitCondition? words "-a", words with
      | some (left, right), _, _ => do
        match ← condition fuel left, ← condition fuel right with
        | some one, some other => return some (one || other)
        | _, _ => return none
      | none, some (left, right), _ => do
        match ← condition fuel left, ← condition fuel right with
        | some one, some other => return some (one && other)
        | _, _ => return none
      | none, none, [left, operator, right] =>
        match left.trimAscii.toString.toInt?, right.trimAscii.toString.toInt? with
        | some one, some other => return compareNumbers operator one other
        | _, _ => return none
      | none, none, _ => return none

def test : Utility := fun words => do
  match ← condition (words.length + 1) words with
  | some holds => return if holds then 0 else 1
  | none =>
    complain "test: bad condition"
    return 2

def bracket : Utility := fun words => do
  if words.getLast? = some "]" then test words.dropLast
  else
    complain "[: missing ]"
    return 2

end Assay.Host.Utility
