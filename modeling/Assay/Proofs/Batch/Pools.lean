import Assay.Proofs.Batch.Holders
import Assay.Proofs.Dispatch.Reports
import Assay.Proofs.Scoring.Run

/-!
# Both pools

Submissions are taken through the pipeline by one pool and references are scored by another. What holds of a pool
whoever works in it holds of these two.
-/

namespace Assay

variable {ρ : Type} {runner : Runner ρ}

namespace Dispatcher

theorem reaches_run {dispatcher : Dispatcher} {reporter : Reporter ρ} {submissions : List Submission}
    {world : World ρ} (hjobs : Pool.permits dispatcher.jobs ≤ Pool.maxPermits) (schedule : Schedule) :
    Batch.Reaches runner (collect reporter) (dispatcher.start submissions world)
      (dispatcher.run runner reporter schedule submissions world) := by
  rw [run, Batch.run_eq hjobs]
  exact Batch.reaches_runFrom schedule 0 _

end Dispatcher

namespace Scorer

theorem reaches_run {scorer : Scorer} {references students : List Submission} {world : World ρ}
    {made : Files}
    (hmade : world.files.ensureDirectory world.files.directory scorer.outputDirectory = (.ok (), made))
    (hjobs : Pool.permits scorer.jobs ≤ Pool.maxPermits) (schedule : Schedule) :
    Batch.Reaches runner (scorer.collect students.length)
      (scorer.start references students { world with files := made })
      (scorer.run runner schedule references students world) := by
  rw [run_eq hmade hjobs]
  exact Batch.reaches_runFrom schedule 0 _

end Scorer

/-- In either pool permits are bounded, accounted for and never all out of reach, and every run goes through moments
of which that is said. -/
theorem pools_governed (dispatcher : Dispatcher) (scorer : Scorer) (runner : Runner ρ)
    (reporter : Reporter ρ) (submissions references students : List Submission) (world : World ρ)
    (hdispatcher : Pool.permits dispatcher.jobs ≤ Pool.maxPermits)
    (hscorer : Pool.permits scorer.jobs ≤ Pool.maxPermits) :
    (Batch.Governed runner (Dispatcher.collect reporter) dispatcher.jobs
        (dispatcher.start submissions world) ∧
      ∀ schedule, Batch.Reaches runner (Dispatcher.collect reporter)
        (dispatcher.start submissions world)
        (dispatcher.run runner reporter schedule submissions world)) ∧
    ∀ made,
      world.files.ensureDirectory world.files.directory scorer.outputDirectory = (.ok (), made) →
        Batch.Governed runner (scorer.collect students.length) scorer.jobs
            (scorer.start references students { world with files := made }) ∧
          ∀ schedule, Batch.Reaches runner (scorer.collect students.length)
            (scorer.start references students { world with files := made })
            (scorer.run runner schedule references students world) := by
  refine ⟨⟨Batch.governed_start .., fun schedule => Dispatcher.reaches_run hdispatcher schedule⟩, ?_⟩
  intro made hmade
  exact ⟨Batch.governed_start .., fun schedule => Scorer.reaches_run hmade hscorer schedule⟩

/-- Nobody may run anything at a time, one worker breaks down, and there is a permit for each pool all the same. -/
theorem pools_governed_brittle :
    let dispatcher : Dispatcher :=
      { pipeline :=
          { recipe := ⟨⟨"make", ["clean"]⟩, ⟨"make", []⟩, ⟨"./paster", []⟩, ⟨"bin"⟩, ⟨5⟩⟩
            artifactSuffix := ".png"
            comparator := ⟨"cmp", ⟨"/reference.png"⟩, ⟨5⟩⟩ }
        jobs := 0 }
    let scorer : Scorer :=
      { rule := ⟨"analyzer", [⟨"part", "part.cpp"⟩], [], none⟩, outputDirectory := ⟨"/out"⟩, jobs := 2
        breakdown := fun _ panic => panic.message }
    let runner : Runner Unit := fun call files memory =>
      if call.directory = ⟨"/c"⟩ then (.error ⟨"out of memory"⟩, files, memory)
      else (.ok (.exited 0), files, memory)
    let reporter : Reporter Unit := fun _ _ world => (.ok (), world)
    let submissions := [Submission.ofRoot "b" ⟨"/b"⟩, Submission.ofRoot "c" ⟨"/c"⟩]
    let world : World Unit := .start (Files.bare []) ()
    let made := (world.files.ensureDirectory world.files.directory scorer.outputDirectory).2
    Pool.permits dispatcher.jobs = 1 ∧ Pool.permits scorer.jobs = 2 ∧
      Batch.Governed runner (Dispatcher.collect reporter) dispatcher.jobs
        (dispatcher.start submissions world) ∧
      Batch.Governed runner (scorer.collect submissions.length) scorer.jobs
        (scorer.start submissions submissions { world with files := made }) := by
  intro dispatcher scorer runner reporter submissions world made
  obtain ⟨⟨hdispatched, -⟩, hscored⟩ := pools_governed dispatcher scorer runner reporter submissions
    submissions submissions world (by decide) (by decide)
  have hmade : (world.files.ensureDirectory world.files.directory scorer.outputDirectory).1 = .ok () := by
    decide
  exact ⟨rfl, rfl, hdispatched, (hscored made (Prod.ext hmade rfl)).1⟩

end Assay
