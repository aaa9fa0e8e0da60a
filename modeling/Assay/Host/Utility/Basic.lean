import Assay.Host.Session
import Assay.Text.Split

/-!
# Utilities

The programs of a host that are not scripts. A utility sees files, input and arguments through the
session it runs in, and ends with a status; what it cannot do it complains about and goes on.
-/

namespace Assay.Host

/-- A program that is part of the host: does its work on its arguments and ends with a status. -/
abbrev Utility := List String → Act Nat

namespace Utility

open Act

def printBytes (bytes : Bytes) : Act Unit := do emit (← frame).output bytes

/-- Reports a fault as the named utility does. -/
def blame (utility operand : String) (fault : Fault) : Act Unit := do
  let text := (Text.splitOnce " (".toList fault.message.toList).elim fault.message fun (text, _) =>
    String.ofList text
  emit (← frame).errors (Octets.bytes (utility ++ ": " ++ operand ++ ": " ++ text ++ "\n"))

def readOperand (operand : String) : Act (Except Fault Bytes) := do
  if operand = "-" then
    let input := (← frame).input
    modifyFrame fun frame => { frame with input := ByteArray.empty }
    return .ok input
  else if operand = "/dev/null" then return .ok ByteArray.empty
  else query fun files base => files.read base (Octets.path operand)

/-- Ends a utility that was not given an operand. -/
def missingOperand (utility : String) : Act Nat := do
  complain (utility ++ ": missing operand")
  return 1

/-- Does something for every operand, and ends with one if any of it went wrong. -/
def forOperands (operands : List String) (action : String → Act Bool) : Act Nat := do
  let results ← operands.mapM action
  return if results.all id then 0 else 1

/-- Does something for every operand, of which there has to be one. -/
def forSomeOperands (utility : String) (operands : List String) (action : String → Act Bool) :
    Act Nat :=
  if operands.isEmpty then missingOperand utility else forOperands operands action

def isOption (word : String) : Bool :=
  word.toList.head? = some '-' && word ≠ "-"

def hasOption (words : List String) (letter : Char) : Bool :=
  words.any fun word => isOption word && word.toList.contains letter

def operandsOf (words : List String) : List String :=
  words.filter fun word => !isOption word

/-- Ends with one where an operation was refused and that matters. -/
def settle (utility operand : String) (quiet : Bool) : Except Fault Unit → Act Bool
  | .ok () => return true
  | .error fault => do
    if quiet then return true
    blame utility operand fault
    return false

end Utility

end Assay.Host
