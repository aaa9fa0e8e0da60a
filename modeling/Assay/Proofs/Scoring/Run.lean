import Assay.Proofs.Batch.Trail
import Assay.Scoring

namespace Assay

/-! # The batch of a scorer -/

namespace Scorer

variable {ρ : Type} (scorer : Scorer) (references students : List Submission)

def workOf : List (Submission × Task (Except Failure GroupReport)) :=
  references.map fun reference => (reference, scorer.scoreGroup students reference)

/-- Where scoring starts, with an output directory that is there. -/
def start (world : World ρ) : Batch Submission (Except Failure GroupReport) (List GroupReport) ρ :=
  Batch.start scorer.jobs (scorer.workOf references students) [] world

def history (runner : Runner ρ) (schedule : Schedule) (world : World ρ) :
    List (Batch Submission (Except Failure GroupReport) (List GroupReport) ρ × Move) :=
  match world.files.ensureDirectory world.files.directory scorer.outputDirectory with
  | (.error _, _) => []
  | (.ok (), files) =>
    Batch.history runner (scorer.collect students.length) schedule scorer.jobs
      (scorer.workOf references students) [] { world with files }

variable {scorer references students} {runner : Runner ρ} {world : World ρ} {made : Files}

theorem run_eq
    (hmade : world.files.ensureDirectory world.files.directory scorer.outputDirectory = (.ok (), made))
    (hjobs : Pool.permits scorer.jobs ≤ Pool.maxPermits) (schedule : Schedule) :
    scorer.run runner schedule references students world =
      Batch.runFrom runner (scorer.collect students.length) schedule 0
        (scorer.start references students { world with files := made }) := by
  rw [run, hmade]
  exact Batch.run_eq hjobs schedule _ _ _

theorem history_eq
    (hmade : world.files.ensureDirectory world.files.directory scorer.outputDirectory = (.ok (), made))
    (hjobs : Pool.permits scorer.jobs ≤ Pool.maxPermits) (schedule : Schedule) :
    scorer.history references students runner schedule world =
      Batch.historyFrom runner (scorer.collect students.length) schedule 0
        (scorer.start references students { world with files := made }) := by
  rw [history, hmade]
  exact Batch.history_eq hjobs schedule _ _ _

/-- A scoring is a run of its groups, unless it does not get so far as to start them. -/
theorem trail_run (scorer : Scorer) (references students : List Submission) (runner : Runner ρ)
    (schedule : Schedule) (world : World ρ) :
    ((scorer.run runner schedule references students world).stop ≠ none ∧
        scorer.history references students runner schedule world = []) ∨
      ∃ made past last final,
        world.files.ensureDirectory world.files.directory scorer.outputDirectory = (.ok (), made) ∧
        Batch.Trail runner (scorer.collect students.length)
          (scorer.start references students { world with files := made }) past last ∧
        Batch.Close runner (scorer.collect students.length) last final
          (scorer.run runner schedule references students world) ∧
        scorer.history references students runner schedule world = past ++ final := by
  rcases hmade : world.files.ensureDirectory world.files.directory scorer.outputDirectory with
    ⟨fault | _, made⟩
  · rw [run, history, hmade]
    exact .inl ⟨nofun, rfl⟩
  by_cases hjobs : Pool.permits scorer.jobs ≤ Pool.maxPermits
  · rw [run_eq hmade hjobs, history_eq hmade hjobs]
    obtain ⟨past, last, final, htrail, hclose, hhistory⟩ := Batch.trail_runFrom runner
      (scorer.collect students.length) schedule 0 (scorer.start references students { world with files := made })
    exact .inr ⟨made, past, last, final, rfl, htrail, hclose, hhistory⟩
  · left
    simp [run, history, hmade, Batch.run, Batch.history, Pool.start, Nat.not_le.mp hjobs]

end Scorer

end Assay
