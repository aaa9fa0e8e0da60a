import Assay.Command
import Assay.Path
import Assay.Table

/-!
# Submissions and their outcomes

A verdict is one of six words, written down and read back. An outcome says in addition what was run, where
that helps to find out why. Of several outcomes for one label a result set keeps the latest.
-/

namespace Assay

/-- One program handed in, or one reference solution. -/
structure Submission where
  label : String
  root : Path
  sources : Path
deriving DecidableEq, Repr, Inhabited

/-- Sources are looked for in `src` unless said otherwise. -/
def Submission.ofRoot (label : String) (root : Path) : Submission :=
  { label, root, sources := root.join ⟨"src"⟩ }

inductive Verdict
  | success
  | compileFailure
  | executionFailure
  | timeout
  | artifactPathError
  | artifactMismatch
deriving DecidableEq, Repr, Inhabited

namespace Verdict

def all : List Verdict :=
  [success, compileFailure, executionFailure, timeout, artifactPathError, artifactMismatch]

def text : Verdict → String
  | success => "Success"
  | compileFailure => "CompileFailure"
  | executionFailure => "ExecutionFailure"
  | timeout => "Timeout"
  | artifactPathError => "ArtifactPathError"
  | artifactMismatch => "ArtifactMismatch"

def ofText? (text : String) : Option Verdict :=
  all.find? fun verdict => verdict.text = text

def unknownMessage (text : String) : String :=
  "unknown outcome tag `" ++ text ++ "`"

theorem mem_all (verdict : Verdict) : verdict ∈ all := by
  cases verdict <;> decide

theorem text_injective {left right : Verdict} (h : left.text = right.text) : left = right := by
  cases left <;> cases right <;> first | rfl | exact absurd h (by decide)

theorem ofText?_text (verdict : Verdict) : ofText? verdict.text = some verdict := by
  cases verdict <;> decide

theorem ofText?_eq_some_iff {text : String} {verdict : Verdict} :
    ofText? text = some verdict ↔ verdict.text = text := by
  constructor
  · intro h
    simpa using List.find?_some h
  · rintro rfl
    exact ofText?_text verdict

end Verdict

/-- What became of one submission. An execution failure or a timeout has no command where the worker
died before a command could be blamed. -/
inductive Outcome
  | success
  | compileFailure (command : Command)
  | executionFailure (command : Option Command) (status : Option Int)
  | timeout (command : Option Command)
  | artifactPathError (directory : Path) (candidates : Nat)
  | artifactMismatch (command : Command)
deriving DecidableEq, Repr, Inhabited

namespace Outcome

def verdict : Outcome → Verdict
  | success => .success
  | compileFailure _ => .compileFailure
  | executionFailure _ _ => .executionFailure
  | timeout _ => .timeout
  | artifactPathError _ _ => .artifactPathError
  | artifactMismatch _ => .artifactMismatch

def command? : Outcome → Option Command
  | success | artifactPathError _ _ => none
  | compileFailure command | artifactMismatch command => some command
  | executionFailure command _ | timeout command => command

def isSuccess (outcome : Outcome) : Bool :=
  outcome.verdict = .success

theorem isSuccess_iff {outcome : Outcome} : outcome.isSuccess ↔ outcome = success := by
  cases outcome <;> simp [isSuccess, verdict]

end Outcome

/-- The latest outcome of every label. -/
abbrev ResultSet := Table String Outcome

namespace ResultSet

/-- Keeps the outcome, and gives back the one that was kept for the label before. -/
def record (results : ResultSet) (label : String) (outcome : Outcome) : Option Outcome × ResultSet :=
  (results.find? label, results.put label outcome)

def count (results : ResultSet) (verdict : Verdict) : Nat :=
  results.entries.countP fun entry => entry.2.verdict = verdict

/-- How often each verdict occurs; verdicts that do not occur are left out. -/
def tally (results : ResultSet) : List (Verdict × Nat) :=
  (Verdict.all.map fun verdict => (verdict, results.count verdict)).filter fun entry => 0 < entry.2

end ResultSet

end Assay
