import Assay.Task

/-!
# Comparing artifacts

Whether two artifacts are the same is left to an external program, of which only the exit status counts.
-/

namespace Assay

/-- What came of comparing an artifact with the reference. -/
inductive Comparison
  | identical
  | different (command : Command)
  | timedOut (command : Command)
deriving DecidableEq, Repr

/-- An external program that says by exiting with zero that two files are the same. -/
structure Comparator where
  program : String
  reference : Path
  limit : Duration
deriving DecidableEq, Repr

namespace Comparator

/-- The paths go to the program as they are shown. -/
def command (comparator : Comparator) (candidate : Path) : Command :=
  ⟨comparator.program, [comparator.reference.shown, candidate.shown]⟩

def call (comparator : Comparator) (candidate directory : Path) : Call :=
  { command := comparator.command candidate, directory, stdout := .discard, stderr := .discard,
    limit := some comparator.limit }

/-- Every exit status but zero counts as a difference. -/
def compare (comparator : Comparator) (candidate directory : Path) :
    Task (Except Failure Comparison) := do
  let command := comparator.command candidate
  match ← Task.call (comparator.call candidate directory) with
  | .exited 0 => return .ok .identical
  | .exited status =>
    Task.note .debug s!"Compare exited with {status}"
    return .ok (.different command)
  | .timedOut _ => return .ok (.timedOut command)
  | .notLaunched program detail => return .error (.launch program detail)

end Comparator

end Assay
