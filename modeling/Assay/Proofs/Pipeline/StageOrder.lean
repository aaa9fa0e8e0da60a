import Assay.Proofs.Pipeline.Passage

/-!
# The order of the stages

Whatever the commands of a submission do to each other's files, they are asked for in one order, and each of
them only on the terms under which the stage before it lets it follow. `stageOrder_process` says so of every
runner: the terms are about the answers that were really given and about the files that were really there.
-/

namespace Assay

/-- The only name in the directory that ends in `suffix` and leads to a file, links followed. -/
def Artifact.IsOnly (files : Files) (directory : Path) (suffix : String) (name : RawText) : Prop :=
  ∃ names, files.listFiles files.directory directory = .ok names ∧
    names.filter (hasSuffix suffix) = [name]

theorem Artifact.choose_eq_ok_iff {directory artifact : Path} {suffix : String}
    {names : List RawText} :
    choose directory suffix names = .ok artifact ↔
      ∃ name, names.filter (hasSuffix suffix) = [name] ∧ artifact = directory.join ⟨name⟩ := by
  unfold choose
  rcases names.filter (hasSuffix suffix) with _ | ⟨first, _ | ⟨second, rest⟩⟩
  · simp
  · simp [eq_comm]
  · simp

theorem Artifact.locate_eq_ok_iff {files : Files} {directory artifact : Path} {suffix : String} :
    locate files directory suffix = .ok artifact ↔
      ∃ name, IsOnly files directory suffix name ∧ artifact = directory.join ⟨name⟩ := by
  unfold locate IsOnly
  cases files.listFiles files.directory directory with
  | error fault => simp [ofListing]
  | ok names => simp [ofListing, choose_eq_ok_iff]

namespace Pipeline

variable {ρ : Type}

/-- The mark that is left at the end, which is there only with an outcome. -/
def lastMarks : Except Panic (Except Failure Outcome) → List Event
  | .ok judged => closingMarks judged
  | .error _ => []

/-- A call is made once the one before it has returned, and finds what that has left. Only between cleaning
and building is something done in addition: the output directory is made. -/
structure Handed (attempt : Attempt ρ) (index : Nat) (earlier later : Issue ρ) : Prop where
  returned : ∃ ending, earlier.answer attempt.runner = .ok ending
  memory : later.memory = earlier.memoryAfter attempt.runner
  files : later.files =
    if index = 0 then
      ((earlier.filesAfter attempt.runner).ensureDirectory
        (earlier.filesAfter attempt.runner).directory attempt.directory).2
    else earlier.filesAfter attempt.runner

/-- The calls of a submission follow the order of the stages, and so do the marks it leaves. -/
structure StageOrder (attempt : Attempt ρ) (issues : List (Issue ρ)) (marks : List Event)
    (result : Except Panic (Except Failure Outcome)) : Prop where
  /-- All output is discarded, and only the run and the comparison are limited. -/
  calls : ∃ artifact : Path, issues.map Issue.call <+:
    [⟨attempt.pipeline.recipe.clean, attempt.submission.root, .discard, .discard, none⟩,
      ⟨attempt.pipeline.recipe.build, attempt.submission.root, .discard, .discard, none⟩,
      ⟨attempt.pipeline.recipe.run, attempt.directory, .discard, .discard,
        some attempt.pipeline.recipe.runLimit⟩,
      ⟨attempt.pipeline.comparator.command artifact, attempt.directory, .discard, .discard,
        some attempt.pipeline.comparator.limit⟩]
  handed : ∀ index earlier later, issues[index]? = some earlier →
    issues[index + 1]? = some later → Handed attempt index earlier later
  clean_issued : ∃ cleaned, issues[0]? = some cleaned ∧ cleaned.files = attempt.files ∧
    cleaned.memory = attempt.memory
  build_issued_iff : (∃ built, issues[1]? = some built) ↔
    ∃ cleaned ending, issues[0]? = some cleaned ∧ cleaned.answer attempt.runner = .ok ending ∧
      ((cleaned.filesAfter attempt.runner).ensureDirectory
        (cleaned.filesAfter attempt.runner).directory attempt.directory).1 = .ok ()
  run_issued_iff : (∃ ran, issues[2]? = some ran) ↔
    ∃ built, issues[1]? = some built ∧ built.answer attempt.runner = .ok (.exited 0)
  compare_issued_iff : ∀ call, (∃ compared, issues[3]? = some compared ∧ compared.call = call) ↔
    ∃ ran name, issues[2]? = some ran ∧ ran.answer attempt.runner = .ok (.exited 0) ∧
      Artifact.IsOnly (ran.filesAfter attempt.runner) attempt.directory
        attempt.pipeline.artifactSuffix name ∧
      call = attempt.pipeline.comparator.call (attempt.directory.join ⟨name⟩) attempt.directory
  /-- A submission is marked as done exactly where it has an outcome. -/
  marked : ∃ changes, marks = changes ++ lastMarks result ∧
    changes <+: [changeMark .pending .building, changeMark .built .running,
      changeMark .ran .validating] ∧
    changeMark .pending .building ∈ changes ∧
    (changeMark .built .running ∈ changes ↔
      ∃ built, issues[1]? = some built ∧ built.answer attempt.runner = .ok (.exited 0)) ∧
    (changeMark .ran .validating ∈ changes ↔
      ∃ ran, issues[2]? = some ran ∧ ran.answer attempt.runner = .ok (.exited 0))
  terminal : ∀ outcome, result = .ok (.ok outcome) → (Stage.ofOutcome outcome).isTerminal

/-- How far a submission gets, whatever is made of it there: five possibilities. -/
inductive Reach (attempt : Attempt ρ) : List (Issue ρ) → List Event → Prop
  | cleaning (hstuck : ¬ attempt.Prepared) :
      Reach attempt [attempt.cleanIssue] [changeMark .pending .building]
  | building (hprepared : attempt.Prepared)
      (hstuck : attempt.buildIssue.answer attempt.runner ≠ .ok (.exited 0)) :
      Reach attempt [attempt.cleanIssue, attempt.buildIssue] [changeMark .pending .building]
  | running (hbuilt : attempt.Built)
      (hstuck : attempt.runIssue.answer attempt.runner ≠ .ok (.exited 0)) :
      Reach attempt [attempt.cleanIssue, attempt.buildIssue, attempt.runIssue]
        [changeMark .pending .building, changeMark .built .running]
  | locating (hran : attempt.Ran) (hstuck : ∀ artifact, attempt.located ≠ .ok artifact) :
      Reach attempt [attempt.cleanIssue, attempt.buildIssue, attempt.runIssue]
        [changeMark .pending .building, changeMark .built .running, changeMark .ran .validating]
  | comparing {artifact : Path} (hran : attempt.Ran) (hlocated : attempt.located = .ok artifact) :
      Reach attempt
        [attempt.cleanIssue, attempt.buildIssue, attempt.runIssue, attempt.compareIssue artifact]
        [changeMark .pending .building, changeMark .built .running, changeMark .ran .validating]

theorem answer_build_ne {attempt : Attempt ρ} {ending : Ending}
    (hbuild : attempt.buildIssue.answer attempt.runner = .ok ending)
    (hjudged : attempt.pipeline.buildProgress ending ≠ .ok .onward) :
    attempt.buildIssue.answer attempt.runner ≠ .ok (.exited 0) := by
  intro hzero
  rw [hbuild] at hzero
  exact hjudged (attempt.pipeline.buildProgress_eq_onward_iff.mpr (Except.ok.inj hzero))

theorem answer_run_ne {attempt : Attempt ρ} {ending : Ending}
    (hrun : attempt.runIssue.answer attempt.runner = .ok ending)
    (hjudged : attempt.pipeline.runProgress ending ≠ .onward) :
    attempt.runIssue.answer attempt.runner ≠ .ok (.exited 0) := by
  intro hzero
  rw [hrun] at hzero
  exact hjudged (attempt.pipeline.runProgress_eq_onward_iff.mpr (Except.ok.inj hzero))

theorem Passage.reach {attempt : Attempt ρ} {issues : List (Issue ρ)} {marks : List Event}
    {result : Except Panic (Except Failure Outcome)} (h : Passage attempt issues marks result) :
    ∃ changes, Reach attempt issues changes ∧ marks = changes ++ lastMarks result := by
  cases h with
  | cleanPanicked hclean =>
      refine ⟨_, .cleaning fun hprepared => ?_, rfl⟩
      obtain ⟨ending, hending⟩ := hprepared.cleaned
      simp [hclean] at hending
  | notMade hclean hmade =>
      refine ⟨_, .cleaning fun hprepared => ?_, rfl⟩
      simp [hprepared.made] at hmade
  | buildPanicked hprepared hbuild => exact ⟨_, .building hprepared (by simp [hbuild]), rfl⟩
  | buildRefused hprepared hbuild hjudged =>
      exact ⟨_, .building hprepared (answer_build_ne hbuild (by simp [hjudged])), rfl⟩
  | buildSettled hprepared hbuild hjudged =>
      exact ⟨_, .building hprepared (answer_build_ne hbuild (by simp [hjudged])), rfl⟩
  | runPanicked hbuilt hrun => exact ⟨_, .running hbuilt (by simp [hrun]), rfl⟩
  | runSettled hbuilt hrun hjudged =>
      exact ⟨_, .running hbuilt (answer_run_ne hrun (by simp [hjudged])), rfl⟩
  | notLocated hran hlocated => exact ⟨_, .locating hran (by simp [hlocated]), rfl⟩
  | comparePanicked hran hlocated hcompare => exact ⟨_, .comparing hran hlocated, rfl⟩
  | compared hran hlocated hcompare => exact ⟨_, .comparing hran hlocated, rfl⟩

section Reach

variable {attempt : Attempt ρ} {issues : List (Issue ρ)} {changes : List Event}

theorem Reach.calls (h : Reach attempt issues changes) :
    ∃ artifact : Path, issues.map Issue.call <+:
      [⟨attempt.pipeline.recipe.clean, attempt.submission.root, .discard, .discard, none⟩,
        ⟨attempt.pipeline.recipe.build, attempt.submission.root, .discard, .discard, none⟩,
        ⟨attempt.pipeline.recipe.run, attempt.directory, .discard, .discard,
          some attempt.pipeline.recipe.runLimit⟩,
        ⟨attempt.pipeline.comparator.command artifact, attempt.directory, .discard, .discard,
          some attempt.pipeline.comparator.limit⟩] := by
  cases h with
  | comparing hran hlocated => exact ⟨_, List.prefix_rfl⟩
  | _ => exact ⟨⟨""⟩, _, rfl⟩

theorem handed_of_prepared (hprepared : attempt.Prepared) :
    Handed attempt 0 attempt.cleanIssue attempt.buildIssue :=
  ⟨hprepared.cleaned, rfl, rfl⟩

theorem handed_of_built (hbuilt : attempt.Built) :
    Handed attempt 1 attempt.buildIssue attempt.runIssue :=
  ⟨⟨_, hbuilt.built⟩, rfl, rfl⟩

theorem handed_of_ran (hran : attempt.Ran) (artifact : Path) :
    Handed attempt 2 attempt.runIssue (attempt.compareIssue artifact) :=
  ⟨⟨_, hran.ran⟩, rfl, rfl⟩

theorem Reach.handed (h : Reach attempt issues changes) {index : Nat} {earlier later : Issue ρ}
    (hearlier : issues[index]? = some earlier) (hlater : issues[index + 1]? = some later) :
    Handed attempt index earlier later := by
  have hthree (hbuilt : attempt.Built)
      (hearlier : [attempt.cleanIssue, attempt.buildIssue, attempt.runIssue][index]? = some earlier)
      (hlater :
        [attempt.cleanIssue, attempt.buildIssue, attempt.runIssue][index + 1]? = some later) :
      Handed attempt index earlier later := by
    match index with
    | 0 =>
        cases hearlier
        cases hlater
        exact handed_of_prepared hbuilt.toPrepared
    | 1 =>
        cases hearlier
        cases hlater
        exact handed_of_built hbuilt
    | _ + 2 => simp at hlater
  cases h with
  | cleaning hstuck => simp at hlater
  | building hprepared hstuck =>
      match index with
      | 0 =>
          cases hearlier
          cases hlater
          exact handed_of_prepared hprepared
      | _ + 1 => simp at hlater
  | running hbuilt hstuck => exact hthree hbuilt hearlier hlater
  | locating hran hstuck => exact hthree hran.toBuilt hearlier hlater
  | comparing hran hlocated =>
      match index with
      | 0 =>
          cases hearlier
          cases hlater
          exact handed_of_prepared hran.toPrepared
      | 1 =>
          cases hearlier
          cases hlater
          exact handed_of_built hran.toBuilt
      | 2 =>
          cases hearlier
          cases hlater
          exact handed_of_ran hran _
      | _ + 3 => simp at hlater

theorem Reach.clean_issued (h : Reach attempt issues changes) :
    ∃ cleaned, issues[0]? = some cleaned ∧ cleaned.files = attempt.files ∧
      cleaned.memory = attempt.memory := by
  have hclean : issues[0]? = some attempt.cleanIssue := by
    cases h <;> rfl
  exact ⟨attempt.cleanIssue, hclean, rfl, rfl⟩

theorem Reach.build_issued_iff (h : Reach attempt issues changes) :
    (∃ built, issues[1]? = some built) ↔
      ∃ cleaned ending, issues[0]? = some cleaned ∧ cleaned.answer attempt.runner = .ok ending ∧
        ((cleaned.filesAfter attempt.runner).ensureDirectory
          (cleaned.filesAfter attempt.runner).directory attempt.directory).1 = .ok () := by
  have hterms (hclean : issues[0]? = some attempt.cleanIssue) : attempt.Prepared ↔
      ∃ cleaned ending, issues[0]? = some cleaned ∧ cleaned.answer attempt.runner = .ok ending ∧
        ((cleaned.filesAfter attempt.runner).ensureDirectory
          (cleaned.filesAfter attempt.runner).directory attempt.directory).1 = .ok () := by
    constructor
    · rintro ⟨⟨ending, hending⟩, hmade⟩
      exact ⟨attempt.cleanIssue, ending, hclean, hending, hmade⟩
    · rintro ⟨cleaned, ending, hcleaned, hending, hmade⟩
      obtain rfl : attempt.cleanIssue = cleaned := Option.some.inj (hclean.symm.trans hcleaned)
      exact ⟨⟨ending, hending⟩, hmade⟩
  cases h with
  | cleaning hstuck =>
      rw [← hterms rfl]
      simpa using hstuck
  | building hprepared hstuck =>
      rw [← hterms rfl]
      exact iff_of_true ⟨_, rfl⟩ hprepared
  | running hbuilt hstuck =>
      rw [← hterms rfl]
      exact iff_of_true ⟨_, rfl⟩ hbuilt.toPrepared
  | locating hran hstuck =>
      rw [← hterms rfl]
      exact iff_of_true ⟨_, rfl⟩ hran.toPrepared
  | comparing hran hlocated =>
      rw [← hterms rfl]
      exact iff_of_true ⟨_, rfl⟩ hran.toPrepared

theorem Reach.run_issued_iff (h : Reach attempt issues changes) :
    (∃ ran, issues[2]? = some ran) ↔
      ∃ built, issues[1]? = some built ∧ built.answer attempt.runner = .ok (.exited 0) := by
  cases h with
  | cleaning hstuck => simp
  | building hprepared hstuck => simpa using hstuck
  | running hbuilt hstuck => simpa using hbuilt.built
  | locating hran hstuck => simpa using hran.built
  | comparing hran hlocated => simpa using hran.built

theorem located_eq_ok_iff {artifact : Path} :
    attempt.located = .ok artifact ↔
      ∃ name, Artifact.IsOnly (attempt.runIssue.filesAfter attempt.runner) attempt.directory
        attempt.pipeline.artifactSuffix name ∧ artifact = attempt.directory.join ⟨name⟩ :=
  Artifact.locate_eq_ok_iff

theorem Reach.compare_issued_iff (h : Reach attempt issues changes) (call : Call) :
    (∃ compared, issues[3]? = some compared ∧ compared.call = call) ↔
      ∃ ran name, issues[2]? = some ran ∧ ran.answer attempt.runner = .ok (.exited 0) ∧
        Artifact.IsOnly (ran.filesAfter attempt.runner) attempt.directory
          attempt.pipeline.artifactSuffix name ∧
        call = attempt.pipeline.comparator.call (attempt.directory.join ⟨name⟩) attempt.directory := by
  have hterms (hrun : issues[2]? = some attempt.runIssue) (hran : attempt.Ran) :
      (∃ artifact, attempt.located = .ok artifact ∧
        call = attempt.pipeline.comparator.call artifact attempt.directory) ↔
        ∃ ran name, issues[2]? = some ran ∧ ran.answer attempt.runner = .ok (.exited 0) ∧
          Artifact.IsOnly (ran.filesAfter attempt.runner) attempt.directory
            attempt.pipeline.artifactSuffix name ∧
          call = attempt.pipeline.comparator.call (attempt.directory.join ⟨name⟩) attempt.directory := by
    simp only [located_eq_ok_iff]
    constructor
    · rintro ⟨_, ⟨name, honly, rfl⟩, hcall⟩
      exact ⟨_, name, hrun, hran.ran, honly, hcall⟩
    · rintro ⟨ran, name, hissued, _, honly, hcall⟩
      obtain rfl : attempt.runIssue = ran := Option.some.inj (hrun.symm.trans hissued)
      exact ⟨_, ⟨name, honly, rfl⟩, hcall⟩
  cases h with
  | cleaning hstuck => simp
  | building hprepared hstuck => simp
  | running hbuilt hstuck =>
      simp only [List.getElem?_cons_succ, List.getElem?_cons_zero, List.getElem?_nil,
        Option.some.injEq, reduceCtorEq, false_and, exists_false, false_iff]
      rintro ⟨ran, name, rfl, hzero, _⟩
      exact hstuck hzero
  | locating hran hstuck =>
      rw [← hterms rfl hran]
      simp [hstuck]
  | @comparing chosen hran hlocated =>
      rw [← hterms rfl hran, hlocated]
      constructor
      · rintro ⟨compared, hissued, rfl⟩
        cases hissued
        exact ⟨chosen, rfl, rfl⟩
      · rintro ⟨artifact, hchosen, rfl⟩
        obtain rfl : chosen = artifact := Except.ok.inj hchosen
        exact ⟨_, rfl, rfl⟩

theorem Reach.changes_prefix (h : Reach attempt issues changes) :
    changes <+: [changeMark .pending .building, changeMark .built .running,
      changeMark .ran .validating] := by
  cases h <;> simp

theorem Reach.building_mem (h : Reach attempt issues changes) :
    changeMark .pending .building ∈ changes := by
  cases h <;> simp

theorem Reach.running_mem_iff (h : Reach attempt issues changes) :
    changeMark .built .running ∈ changes ↔
      ∃ built, issues[1]? = some built ∧ built.answer attempt.runner = .ok (.exited 0) := by
  have hother : changeMark .built .running ≠ changeMark .pending .building := by decide
  cases h with
  | cleaning hstuck => simp [hother]
  | building hprepared hstuck => simpa [hother] using hstuck
  | running hbuilt hstuck => simpa using hbuilt.built
  | locating hran hstuck => simpa using hran.built
  | comparing hran hlocated => simpa using hran.built

theorem Reach.validating_mem_iff (h : Reach attempt issues changes) :
    changeMark .ran .validating ∈ changes ↔
      ∃ ran, issues[2]? = some ran ∧ ran.answer attempt.runner = .ok (.exited 0) := by
  have hbuilding : changeMark .ran .validating ≠ changeMark .pending .building := by decide
  have hrunning : changeMark .ran .validating ≠ changeMark .built .running := by decide
  cases h with
  | cleaning hstuck => simp [hbuilding]
  | building hprepared hstuck => simp [hbuilding]
  | running hbuilt hstuck => simpa [hbuilding, hrunning] using hstuck
  | locating hran hstuck => simpa using hran.ran
  | comparing hran hlocated => simpa using hran.ran

end Reach

/-- Every submission is taken through the stages in their order, whatever the runner does. -/
theorem stageOrder_process (pipeline : Pipeline) (submission : Submission) (runner : Runner ρ)
    (world : World ρ) :
    StageOrder ⟨pipeline, submission, runner, world.files, world.memory⟩
      ((pipeline.process submission).issues runner world)
      (((pipeline.process submission).notes runner world).filter Event.isMark)
      ((pipeline.process submission).run runner world).1 := by
  have hpassage := passage_course ⟨pipeline, submission, runner, world.files, world.memory⟩
  simp only [Attempt.course, Task.course_eq] at hpassage
  obtain ⟨changes, hreach, hmarks⟩ := hpassage.reach
  exact {
    calls := hreach.calls
    handed := fun _ _ _ => hreach.handed
    clean_issued := hreach.clean_issued
    build_issued_iff := hreach.build_issued_iff
    run_issued_iff := hreach.run_issued_iff
    compare_issued_iff := hreach.compare_issued_iff
    marked := ⟨changes, hmarks, hreach.changes_prefix, hreach.building_mem,
      hreach.running_mem_iff, hreach.validating_mem_iff⟩
    terminal := fun outcome _ => Stage.isTerminal_ofOutcome outcome }

end Pipeline

end Assay
