import Assay.Batch
import Assay.Outcome

/-!
# Scoring against references

An external analyzer compares every part of every student with the same part of a reference, and writes
what it finds to the stream of the reference.
-/

namespace Assay

/-- A source file that is scored by itself, with the marker the analyzer uses for it. -/
structure AnalyzerPart where
  marker : String
  file : String
deriving DecidableEq, Repr

/-- How the analyzer compares a student with a reference. -/
structure AnalyzerRule where
  program : String
  parts : List AnalyzerPart
  extraArguments : List String
  limit : Option Duration
deriving DecidableEq, Repr

def AnalyzerRule.command (rule : AnalyzerRule) (reference student : Submission)
    (part : AnalyzerPart) : Command :=
  { program := rule.program
    arguments :=
      ["-cam-reference-solution=" ++ (reference.sources.join ⟨part.file⟩).shown,
        "-cam-marker=" ++ part.marker,
        (student.sources.join ⟨part.file⟩).shown,
        "--"] ++ rule.extraArguments }

/-- What came of scoring all students against one reference. -/
structure GroupReport where
  reference : String
  output : Path
  invocations : Nat
  /-- The students for whom an analyzer run went wrong, in the order in which they were scored. -/
  failed : List String
deriving DecidableEq, Repr

/-- Scores every student against every reference. Each reference has an output stream of its own, so
references may be taken in any order and the students under one of them may not. -/
structure Scorer where
  rule : AnalyzerRule
  outputDirectory : Path
  jobs : Nat
  /-- The text of the error that a group which broke down is handed over with. -/
  breakdown : Submission → Panic → String

namespace Scorer

variable {ρ : Type}

abbrev Result (ρ : Type) :=
  Batch.Result Submission (Except Failure GroupReport) (List GroupReport) ρ

def streamPath (scorer : Scorer) (reference : Submission) : Path :=
  scorer.outputDirectory.join ⟨(reference.label ++ ".stdout" : String)⟩

/-- The analyzer runs in the working directory of the batch. -/
def call (scorer : Scorer) (stream : StreamId) (reference student : Submission)
    (part : AnalyzerPart) : Call :=
  { command := scorer.rule.command reference student part
    directory := ⟨"."⟩
    stdout := .stream stream
    stderr := .discard
    limit := scorer.rule.limit }

/-- Runs the analyzer on the parts of one student, goes on counting the runs, and says whether all went
well. Only a failure to launch it ends the scoring. -/
def scoreStudent (scorer : Scorer) (stream : StreamId) (reference student : Submission) :
    Nat → List AnalyzerPart → Task (Except Failure (Nat × Bool))
  | runs, [] => return .ok (runs, true)
  | runs, part :: parts => do
    let call := scorer.call stream reference student part
    match ← Task.call call with
    | .exited 0 => scorer.scoreStudent stream reference student (runs + 1) parts
    | .exited status =>
      Task.note .debug (s!"Analyzer exited with {status}: " ++ call.command.text)
      return (← scorer.scoreStudent stream reference student (runs + 1) parts).map fun scored =>
        (scored.1, false)
    | .timedOut limit =>
      Task.note .debug ("Analyzer exceeded " ++ limit.text ++ ": " ++ call.command.text)
      return (← scorer.scoreStudent stream reference student (runs + 1) parts).map fun scored =>
        (scored.1, false)
    | .notLaunched program detail => return .error (.launch program detail)

/-- How many runs there were in all, and the labels of the students for whom something went wrong. -/
def scoreStudents (scorer : Scorer) (stream : StreamId) (reference : Submission) :
    Nat → List Submission → Task (Except Failure (Nat × List String))
  | runs, [] => return .ok (runs, [])
  | runs, student :: students => do
    Task.note .info ("Running " ++ student.label ++ " against " ++ reference.label)
    match ← scorer.scoreStudent stream reference student runs scorer.rule.parts with
    | .error failure => return .error failure
    | .ok (runs, true) => scorer.scoreStudents stream reference runs students
    | .ok (runs, false) =>
      Task.note .error ("Failed to mark " ++ student.label)
      return (← scorer.scoreStudents stream reference runs students).map fun scored =>
        (scored.1, student.label :: scored.2)

/-- What is reported for a reference, with the number of runs and the students for whom something went
wrong. -/
def report (scorer : Scorer) (reference : Submission) (scored : Nat × List String) : GroupReport :=
  { reference := reference.label
    output := scorer.streamPath reference
    invocations := scored.1
    failed := scored.2 }

/-- The stream is emptied first: it holds one run. -/
def scoreGroup (scorer : Scorer) (students : List Submission) (reference : Submission) :
    Task (Except Failure GroupReport) := do
  match ← Task.openStream (scorer.streamPath reference) with
  | .error fault => return .error (.io fault)
  | .ok stream =>
    return (← scorer.scoreStudents stream reference 0 students).map (scorer.report reference)

def take (scorer : Scorer) (students : Nat) (reference : Submission) :
    Except Panic (Except Failure GroupReport) → List GroupReport → World ρ →
      Except Failure (List GroupReport) × World ρ
  | .ok (.ok report), reports, world =>
    (.ok (reports ++ [report]),
      world.info (s!"Scored {students} students against " ++ report.reference ++
        s!" ({report.failed.length} failed)"))
  | .ok (.error failure), _, world => (.error failure, world)
  | .error panic, _, world => (.error (.worker (scorer.breakdown reference panic)), world)

/-- A group that breaks down says nothing of it itself. -/
def collect (scorer : Scorer) (students : Nat) :
    Collector Submission (Except Failure GroupReport) (List GroupReport) ρ where
  lament _ _ := []
  take := scorer.take students

/-- The reports of a result, by label of the reference. -/
def reports (result : Result ρ) : List GroupReport :=
  result.batch.gathered.mergeSort fun left right => left.reference ≤ right.reference

/-- Makes the output directory and scores all groups. -/
def run (scorer : Scorer) (runner : Runner ρ) (schedule : Schedule)
    (references students : List Submission) (world : World ρ) : Result ρ :=
  match world.files.ensureDirectory world.files.directory scorer.outputDirectory with
  | (.error fault, files) =>
    ⟨some (.failed (.io fault)), { pool := .empty, gathered := [], world := { world with files } }⟩
  | (.ok (), files) =>
    Batch.run runner (scorer.collect students.length) schedule scorer.jobs
      (references.map fun reference => (reference, scorer.scoreGroup students reference)) []
      { world with files }

end Scorer

end Assay
