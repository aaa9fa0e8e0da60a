import Assay.Proofs.Files.Made
import Assay.Proofs.Pipeline.Passage

/-!
# Launches that cannot be refused

A build or a comparison that is not launched ends the whole batch, so it must not be in the hands of a submission
to bring that about. It could do so by taking away the directory to work in. But a build comes right after the
output directory was made, which lies below the root, and a comparison right after the output directory was
listed. What a submission takes away in time is seen to be missing, and is held against it alone.
-/

namespace Assay

/-- A command is not launched only where its program is missing or there is no directory to work in. -/
def Runner.RefusesOnly {ρ : Type} (runner : Runner ρ) (missing : Issue ρ → Prop) : Prop :=
  ∀ (issue : Issue ρ) (program detail : String),
    issue.answer runner = .ok (.notLaunched program detail) →
      missing issue ∨ issue.files.isDirectory issue.files.directory issue.call.directory = false

theorem Runner.RefusesOnly.isDirectory_eq_false {ρ : Type} {runner : Runner ρ}
    {missing : Issue ρ → Prop} (h : runner.RefusesOnly missing) {issue : Issue ρ}
    {program detail : String} (hpresent : ¬ missing issue)
    (hrefused : issue.answer runner = .ok (.notLaunched program detail)) :
    issue.files.isDirectory issue.files.directory issue.call.directory = false :=
  (h issue program detail hrefused).resolve_left hpresent

namespace Pipeline

variable {ρ : Type} {attempt : Attempt ρ}

theorem buildProgress_eq_error_iff (pipeline : Pipeline) {ending : Ending} {failure : Failure} :
    pipeline.buildProgress ending = .error failure ↔
      ∃ program detail, ending = .notLaunched program detail ∧ failure = .launch program detail := by
  cases ending <;> simp [buildProgress, eq_comm]

theorem compareResult_eq_error_iff (pipeline : Pipeline) {artifact : Path} {ending : Ending}
    {failure : Failure} :
    pipeline.compareResult artifact ending = .error failure ↔
      ∃ program detail, ending = .notLaunched program detail ∧ failure = .launch program detail := by
  cases ending <;> simp [compareResult, eq_comm]

theorem isAbsolute_directory (hroot : attempt.submission.root.isAbsolute = true)
    (hrelative : attempt.pipeline.recipe.outputSubdirectory.isAbsolute = false) :
    attempt.directory.isAbsolute = true := by
  rw [Attempt.directory, Recipe.outputDirectory, Path.isAbsolute_join _ hrelative, hroot]

/-- When a build is called for, the root is there, whatever cleaning has done to it. -/
theorem isDirectory_buildIssue (attempt : Attempt ρ) (hroot : attempt.submission.root.isAbsolute = true)
    (hrelative : attempt.pipeline.recipe.outputSubdirectory.isAbsolute = false)
    (hprepared : attempt.Prepared) :
    attempt.buildIssue.files.isDirectory attempt.buildIssue.files.directory
      attempt.buildIssue.call.directory = true := by
  have habsolute := isAbsolute_directory hroot hrelative
  have hnonempty : attempt.directory.text ≠ "" := by
    intro hempty
    simp [Path.isAbsolute, hempty] at habsolute
  have hmade : attempt.creation = (.ok (), attempt.creation.2) :=
    Prod.ext hprepared.made rfl
  -- The output directory was just made, and the root is on the way to it.
  have hthere := Files.isDirectory_of_ensureDirectory hnonempty hmade
  rw [Files.isDirectory_of_isAbsolute habsolute attempt.creation.2.directory] at hthere
  exact Files.isDirectory_of_join hroot hrelative hthere

/-- When a comparison is called for, the output directory is there: an artifact was found in it. -/
theorem isDirectory_compareIssue (attempt : Attempt ρ) {artifact : Path}
    (hlocated : attempt.located = .ok artifact) :
    (attempt.compareIssue artifact).files.isDirectory (attempt.compareIssue artifact).files.directory
      (attempt.compareIssue artifact).call.directory = true := by
  unfold Attempt.located Artifact.locate at hlocated
  rcases hlisted : (attempt.runIssue.filesAfter attempt.runner).listFiles
    (attempt.runIssue.filesAfter attempt.runner).directory attempt.directory with fault | names
  · rw [hlisted] at hlocated
    cases hlocated
  · exact Files.isDirectory_of_listFiles hlisted

/-- How a submission ends whose build and comparison are never refused. -/
theorem Passage.yields {issues : List (Issue ρ)} {marks : List Event}
    {result : Except Panic (Except Failure Outcome)} (h : Passage attempt issues marks result)
    (hbuild : ∀ program detail, attempt.Prepared →
      attempt.buildIssue.answer attempt.runner ≠ .ok (.notLaunched program detail))
    (hcompare : ∀ artifact program detail, attempt.located = .ok artifact →
      (attempt.compareIssue artifact).answer attempt.runner ≠ .ok (.notLaunched program detail)) :
    (∃ outcome, result = .ok (.ok outcome)) ∨
      ∃ issue ∈ issues, ∃ panic, issue.answer attempt.runner = .error panic ∧ result = .error panic := by
  cases h with
  | cleanPanicked hclean => exact .inr ⟨_, by simp, _, hclean, rfl⟩
  | notMade hclean hmade => exact .inl ⟨_, rfl⟩
  | buildPanicked hprepared hpanic => exact .inr ⟨_, by simp, _, hpanic, rfl⟩
  | buildRefused hprepared hanswer hjudged =>
      obtain ⟨program, detail, rfl, -⟩ := (buildProgress_eq_error_iff _).mp hjudged
      exact absurd hanswer (hbuild program detail hprepared)
  | buildSettled hprepared hanswer hjudged => exact .inl ⟨_, rfl⟩
  | runPanicked hbuilt hpanic => exact .inr ⟨_, by simp, _, hpanic, rfl⟩
  | runSettled hbuilt hanswer hjudged => exact .inl ⟨_, rfl⟩
  | notLocated hran hlocated => exact .inl ⟨_, rfl⟩
  | comparePanicked hran hlocated hpanic => exact .inr ⟨_, by simp, _, hpanic, rfl⟩
  | @compared artifact ending hran hlocated hanswer =>
      cases hresult : attempt.pipeline.compareResult artifact ending with
      | error failure =>
          obtain ⟨program, detail, rfl, -⟩ := (compareResult_eq_error_iff _).mp hresult
          exact absurd hanswer (hcompare artifact program detail hlocated)
      | ok outcome => exact .inl ⟨outcome, rfl⟩

/-- The build or the comparison is called for and cannot be launched. -/
inductive Attempt.Refused (attempt : Attempt ρ) (program detail : String) : Prop
  | build (hprepared : attempt.Prepared)
      (hanswer : attempt.buildIssue.answer attempt.runner = .ok (.notLaunched program detail))
  | compare {artifact : Path} (hran : attempt.Ran) (hlocated : attempt.located = .ok artifact)
      (hanswer : (attempt.compareIssue artifact).answer attempt.runner =
        .ok (.notLaunched program detail))

theorem Passage.result_of_refused {issues : List (Issue ρ)} {marks : List Event}
    {result : Except Panic (Except Failure Outcome)} (h : Passage attempt issues marks result)
    {program detail : String} (hrefused : attempt.Refused program detail) :
    result = .ok (.error (.launch program detail)) := by
  cases hrefused with
  | build hprepared hanswer =>
      rw [h.result_eq, Attempt.concluded_of_prepared hprepared, Attempt.fromBuild, hanswer]
      rfl
  | compare hran hlocated hanswer =>
      rw [h.result_of_ran hran, Attempt.judged_of_located hlocated, hanswer]
      rfl

/-- Only the build and the comparison end a batch, and only where they cannot be launched. What becomes of the
launch of the other two commands is the business of the submission. -/
theorem Passage.fatal_iff {issues : List (Issue ρ)} {marks : List Event}
    {result : Except Panic (Except Failure Outcome)} (h : Passage attempt issues marks result)
    {failure : Failure} :
    result = .ok (.error failure) ↔
      ∃ program detail, failure = .launch program detail ∧ attempt.Refused program detail := by
  constructor
  · intro hfatal
    cases h with
    | buildRefused hprepared hanswer hjudged =>
        obtain ⟨program, detail, rfl, rfl⟩ := (buildProgress_eq_error_iff _).mp hjudged
        cases hfatal
        exact ⟨program, detail, rfl, .build hprepared hanswer⟩
    | compared hran hlocated hanswer =>
        obtain ⟨program, detail, rfl, rfl⟩ :=
          (compareResult_eq_error_iff _).mp (Except.ok.inj hfatal)
        exact ⟨program, detail, rfl, .compare hran hlocated hanswer⟩
    | _ => cases hfatal
  · rintro ⟨program, detail, rfl, hrefused⟩
    exact h.result_of_refused hrefused

theorem process_fatal_iff (pipeline : Pipeline) (submission : Submission) (runner : Runner ρ)
    (world : World ρ) (failure : Failure) :
    ((pipeline.process submission).run runner world).1 = .ok (.error failure) ↔
      ∃ program detail, failure = .launch program detail ∧
        Attempt.Refused ⟨pipeline, submission, runner, world.files, world.memory⟩ program detail :=
  (passage_process pipeline submission runner world).fatal_iff

variable {pipeline : Pipeline} {submission : Submission} {runner : Runner ρ}

/-- A submission cannot end the batch: it comes to an outcome, whatever its commands leave of its directories. -/
theorem process_yields {missing : Issue ρ → Prop} (hrefuses : runner.RefusesOnly missing)
    (hbuild : ∀ issue : Issue ρ, issue.call = pipeline.buildCall submission → ¬ missing issue)
    (hcompare : ∀ (issue : Issue ρ) (artifact : Path),
      issue.call = pipeline.comparator.call artifact (pipeline.recipe.outputDirectory submission) →
        ¬ missing issue)
    (hroot : submission.root.isAbsolute = true)
    (hrelative : pipeline.recipe.outputSubdirectory.isAbsolute = false) (world : World ρ) :
    let result := ((pipeline.process submission).run runner world).1
    (∃ outcome, result = .ok (.ok outcome)) ∨
      ∃ issue ∈ (pipeline.process submission).issues runner world, ∃ panic,
        issue.answer runner = .error panic ∧ result = .error panic := by
  intro result
  let attempt : Attempt ρ := ⟨pipeline, submission, runner, world.files, world.memory⟩
  have hpassage := passage_course attempt
  simp only [attempt, Attempt.course, Task.course_eq] at hpassage
  apply hpassage.yields
  · intro program detail hprepared hrefused
    have hgone := hrefuses.isDirectory_eq_false (hbuild attempt.buildIssue rfl) hrefused
    have hthere := isDirectory_buildIssue attempt hroot hrelative hprepared
    exact Bool.false_ne_true (hgone.symm.trans hthere)
  · intro artifact program detail hlocated hrefused
    have hgone := hrefuses.isDirectory_eq_false
      (hcompare (attempt.compareIssue artifact) artifact rfl) hrefused
    have hthere := isDirectory_compareIssue attempt hlocated
    exact Bool.false_ne_true (hgone.symm.trans hthere)

def paster : Pipeline :=
  { recipe :=
      { clean := ⟨"rake", ["clean"]⟩
        build := ⟨"make", ["bin/paster"]⟩
        run := ⟨"./paster", []⟩
        outputSubdirectory := ⟨"bin"⟩
        runLimit := ⟨5⟩ }
    artifactSuffix := ".png"
    comparator := { program := "cmp", reference := ⟨"/reference.png"⟩, limit := ⟨5⟩ } }

/-- Two programs are installed, and the third one removes the root it works under. -/
def vandal : Runner Unit := fun call files memory =>
  if call.command.program ∉ ["make", "cmp", "./paster"] then
    (.ok (.notLaunched call.command.program "not found"), files, memory)
  else if files.isDirectory files.directory call.directory = false then
    (.ok (.notLaunched call.command.program "no such directory"), files, memory)
  else if call.command.program = "./paster" then (.ok (.exited 0), files.erase ["b"], memory)
  else (.ok (.exited 0), files, memory)

/-- The clean command is missing, and nothing is left where the artifact should be. -/
theorem process_yields_vandal :
    let world : World Unit := .start (Files.bare ["b"]) ()
    let result := ((paster.process (.ofRoot "b" ⟨"/b"⟩)).run vandal world).1
    ((∃ outcome, result = .ok (.ok outcome)) ∨
      ∃ issue ∈ (paster.process (.ofRoot "b" ⟨"/b"⟩)).issues vandal world, ∃ panic,
        issue.answer vandal = .error panic ∧ result = .error panic) ∧
      result = .ok (.ok (.artifactPathError ⟨"/b/bin"⟩ 0)) := by
  intro world result
  have hrefuses : vandal.RefusesOnly fun issue =>
      issue.call.command.program ∉ ["make", "cmp", "./paster"] := by
    intro issue program detail hrefused
    by_cases hmissing : issue.call.command.program ∉ ["make", "cmp", "./paster"]
    · exact .inl hmissing
    · refine .inr (of_not_not fun hthere => ?_)
      simp only [Issue.answer, vandal, if_neg hmissing, if_neg hthere] at hrefused
      split at hrefused <;> cases hrefused
  refine ⟨process_yields hrefuses ?_ ?_ (by decide) (by decide) world, by decide⟩
  · intro issue hcall
    rw [hcall]
    decide
  · intro issue artifact hcall
    rw [hcall]
    simp [Comparator.call, Comparator.command, paster]

end Pipeline

end Assay
