import Assay.Proofs.Dispatch.Single
import Assay.Proofs.ExecuteLog.Occasion
import Assay.Proofs.Files.Region
import Assay.Proofs.Pipeline.Passage

/-!
# A submission on its own

To see what a submission can do at all, it is run alone, with commands that do nothing. Only its program is
given something to do: it changes the files once, when it is run, and what is asked for later comes to an end
that is chosen beforehand.
-/

namespace Assay

namespace ExecuteLog

/-- Everything goes well until the program is run. That changes the files, and whatever comes later ends in this
way. The runner remembers whether the program was run. -/
def staged (pipeline : Pipeline) (submission : Submission) (change : Files → Files)
    (ending : Ending) : Runner Bool := fun call files ran =>
  if ran then (.ok ending, files, true)
  else if call = pipeline.runCall submission then (.ok (.exited 0), change files, true)
  else (.ok (.exited 0), files, false)

section Run

variable {pipeline : Pipeline} {submission : Submission} (change : Files → Files) (ending : Ending)
  {files : Files}

theorem staged_ran (call : Call) (files : Files) :
    staged pipeline submission change ending call files true = (.ok ending, files, true) := rfl

theorem staged_run (files : Files) :
    staged pipeline submission change ending (pipeline.runCall submission) files false =
      (.ok (.exited 0), change files, true) := by
  simp [staged]

theorem staged_before {call : Call} (h : call.limit = none) (files : Files) :
    staged pipeline submission change ending call files false = (.ok (.exited 0), files, false) := by
  have hother : call ≠ pipeline.runCall submission := by
    rintro rfl
    cases h
  simp [staged, hother]

def Provided (pipeline : Pipeline) (submission : Submission) (files : Files) : Prop :=
  files.ensureDirectory files.directory (pipeline.recipe.outputDirectory submission) = (.ok (), files)
deriving Decidable

/-- The files have been changed if the program was run, and otherwise not. -/
def Changed (change : Files → Files) (files : Files) (world : World Bool) : Prop :=
  world.files = if world.memory then change files else files

theorem changed_perform (hbefore : Provided pipeline submission files)
    (hafter : Provided pipeline submission (change files)) {effect : Effect} {world : World Bool}
    (hasks : pipeline.Asks submission effect) (hchanged : Changed change files world) :
    Changed change files (effect.perform (staged pipeline submission change ending) world).2 := by
  obtain ⟨now, ran, events⟩ := world
  have hnow : now = if ran then change files else files := hchanged
  have hprovided : Provided pipeline submission now := by
    rw [hnow]
    split
    · exact hafter
    · exact hbefore
  cases effect with
  | run call =>
      cases ran with
      | true => exact hnow
      | false =>
          by_cases hrun : call = pipeline.runCall submission
          · subst hrun
            rw [Effect.perform, staged_run]
            exact congrArg change hnow
          · simp only [Effect.perform, staged, if_neg hrun]
            exact hnow
  | ensureDirectory path =>
      cases hasks
      simp only [Effect.perform]
      rw [hprovided]
      exact hnow
  | listFiles path => exact hnow
  | openStream path => cases hasks
  | note event => exact hnow

/-- A submission on its own only asks for what its pipeline asks for, and finds the files as they were or as its
program left them. -/
theorem moments_staged (hbefore : Provided pipeline submission files)
    (hafter : Provided pipeline submission (change files)) :
    ∀ moment ∈ (Dispatcher.work ⟨pipeline, 1⟩ submission).moments
        (staged pipeline submission change ending) (.start files false),
      pipeline.Asks submission moment.effect ∧ Changed change files moment.world := by
  have halong : (Dispatcher.work ⟨pipeline, 1⟩ submission).Along (pipeline.Asks submission)
      (pipeline.Finds fun _ => True) fun result => ∀ outcome, result = .ok outcome →
        pipeline.Blames submission (fun _ => True) outcome :=
    Task.along_bind (Task.along_ask (.note _)) fun _ _ =>
      Pipeline.along_process pipeline submission fun _ => True
  exact halong.moments pipeline.finds_anything
    (fun _ _ hasks hchanged => changed_perform change ending hbefore hafter hasks hchanged) rfl

def staging (pipeline : Pipeline) (submission : Submission) (files : Files)
    (change : Files → Files) (ending : Ending) : Pipeline.Attempt Bool :=
  { pipeline, submission, runner := staged pipeline submission change ending, files, memory := false }

theorem ran_staging (hbefore : Provided pipeline submission files) :
    (staging pipeline submission files change ending).Ran ∧
      (staging pipeline submission files change ending).runIssue =
        ⟨pipeline.runCall submission, files, false⟩ := by
  have hclean : staged pipeline submission change ending (pipeline.cleanCall submission) files false =
    (.ok (.exited 0), files, false) := staged_before change ending rfl files
  have hbuild : staged pipeline submission change ending (pipeline.buildCall submission) files false =
    (.ok (.exited 0), files, false) := staged_before change ending rfl files
  have hrun : staged pipeline submission change ending (pipeline.runCall submission) files false =
    (.ok (.exited 0), change files, true) := staged_run change ending files
  have hmade : (staging pipeline submission files change ending).creation = (.ok (), files) := by
    simp only [Pipeline.Attempt.creation, Issue.filesAfter, Pipeline.Attempt.cleanIssue, staging,
      hclean]
    exact hbefore
  have hbuildIssue : (staging pipeline submission files change ending).buildIssue =
      ⟨pipeline.buildCall submission, files, false⟩ := by
    rw [Pipeline.Attempt.buildIssue, hmade]
    simp only [Issue.memoryAfter, Pipeline.Attempt.cleanIssue, staging, hclean]
  have hrunIssue : (staging pipeline submission files change ending).runIssue =
      ⟨pipeline.runCall submission, files, false⟩ := by
    rw [Pipeline.Attempt.runIssue, hbuildIssue]
    simp only [Issue.filesAfter, Issue.memoryAfter, staging, hbuild]
  refine ⟨?_, hrunIssue⟩
  exact
    { cleaned := ⟨.exited 0, congrArg Prod.fst hclean⟩
      made := congrArg Prod.fst hmade
      built := by
        rw [hbuildIssue]
        exact congrArg Prod.fst hbuild
      ran := by
        rw [hrunIssue]
        exact congrArg Prod.fst hrun }

theorem run_staged (hbefore : Provided pipeline submission files) :
    ((Dispatcher.work ⟨pipeline, 1⟩ submission).run (staged pipeline submission change ending)
        (.start files false)).1 =
      match Artifact.locate (change files) (pipeline.recipe.outputDirectory submission)
        pipeline.artifactSuffix with
      | .error problem => .ok (.ok (.artifactPathError problem.directory problem.candidates))
      | .ok artifact => .ok (pipeline.compareResult artifact ending) := by
  obtain ⟨hran, hrunIssue⟩ := ran_staging change ending hbefore
  let started : World Bool :=
    (World.start files false).note { level := .info, message := "Processing: " ++ submission.label }
  have hcourse : (staging pipeline submission files change ending).course.result =
      ((pipeline.process submission).run (staged pipeline submission change ending) started).1 :=
    congrArg Course.result (Task.course_eq _ (pipeline.process submission) started)
  have hjudged := (Pipeline.passage_course _).result_of_ran hran
  have hrun : staged pipeline submission change ending (pipeline.runCall submission) files false =
    (.ok (.exited 0), change files, true) := staged_run change ending files
  have hlocated : (staging pipeline submission files change ending).located =
      Artifact.locate (change files) (pipeline.recipe.outputDirectory submission)
        pipeline.artifactSuffix := by
    rw [Pipeline.Attempt.located, hrunIssue]
    simp only [Issue.filesAfter, Pipeline.Attempt.directory, staging, hrun]
  have hwork : ((Dispatcher.work ⟨pipeline, 1⟩ submission).run
      (staged pipeline submission change ending) (.start files false)).1 =
        (staging pipeline submission files change ending).judged := hcourse.symm.trans hjudged
  rw [hwork, ← hlocated]
  cases hfound : (staging pipeline submission files change ending).located with
  | error problem => exact Pipeline.Attempt.judged_of_not_located hfound
  | ok artifact =>
      rw [Pipeline.Attempt.judged_of_located hfound, Pipeline.Attempt.compareIssue, hrunIssue]
      simp only [Issue.answer, Issue.filesAfter, Issue.memoryAfter, staging, hrun, staged_ran]
      rfl

def onItsOwn (pipeline : Pipeline) (submission : Submission) (log : ExecuteLog) (files : Files)
    (change : Files → Files) (ending : Ending) : Occasion Bool :=
  { dispatcher := ⟨pipeline, 1⟩
    runner := staged pipeline submission change ending
    schedule := .prompt
    submissions := [submission]
    log
    world := .start files false }

variable {log : ExecuteLog} {content : Bytes}

theorem holds_staged (hholds : log.Holds (Bytes.ofText "") files)
    (hkept : log.Holds (Bytes.ofText "") (change files)) {world : World Bool}
    (hchanged : Changed change files world) (call : Call)
    (hworld : log.Holds content world.files) :
    log.Holds content
      (staged pipeline submission change ending call world.files world.memory).2.1 := by
  obtain ⟨now, ran, events⟩ := world
  have hnow : now = if ran then change files else files := hchanged
  cases ran with
  | true => exact hworld
  | false =>
      by_cases hrun : call = pipeline.runCall submission
      · subst hrun hnow
        rw [staged_run, hworld.content_eq hholds]
        exact hkept
      · simp only [staged, if_neg hrun]
        exact hworld

/-- The submission on its own is reported as it was judged. -/
theorem run_onItsOwn (log : ExecuteLog) {outcome : Outcome}
    (houtcome : Dispatcher.reported? ((Dispatcher.work ⟨pipeline, 1⟩ submission).run
      (staged pipeline submission change ending) (.start files false)).1 = some outcome) :
    (onItsOwn pipeline submission log files change ending).result.stop = none ∧
      (onItsOwn pipeline submission log files change ending).reports = [(submission, outcome)] ∧
      ∀ entry ∈ (onItsOwn pipeline submission log files change ending).history,
        Dispatcher.Expected ⟨pipeline, 1⟩ (staged pipeline submission change ending) submission
          (.start files false) entry := by
  have hjobs : Pool.permits 1 ≤ Pool.maxPermits := by decide
  exact Dispatcher.run_single log.report .prompt houtcome hjobs fun _ _ _ => rfl

theorem spares_onItsOwn (hbefore : Provided pipeline submission files)
    (hafter : Provided pipeline submission (change files))
    (hholds : log.Holds (Bytes.ofText "") files)
    (hkept : log.Holds (Bytes.ofText "") (change files))
    {entry : Batch Submission (Except Failure Outcome) ResultSet Bool × Move}
    (hexpected : Dispatcher.Expected ⟨pipeline, 1⟩ (staged pipeline submission change ending)
      submission (.start files false) entry) :
    Spares log (staged pipeline submission change ending) entry := by
  intro index other call rest content _ hworker hworld
  obtain ⟨_, hmoment⟩ := hexpected index other (.run call) rest hworker
  obtain ⟨_, hchanged⟩ := moments_staged change ending hbefore hafter _ hmoment
  exact holds_staged change ending hholds hkept hchanged call hworld

theorem candidates_onItsOwn (hbefore : Provided pipeline submission files)
    (hafter : Provided pipeline submission (change files))
    {entry : Batch Submission (Except Failure Outcome) ResultSet Bool × Move}
    (hexpected : Dispatcher.Expected ⟨pipeline, 1⟩ (staged pipeline submission change ending)
      submission (.start files false) entry)
    {other : Submission} {name : RawText}
    (hmem : (other, name) ∈ Dispatcher.candidates pipeline.artifactSuffix entry) :
    name ∈ Artifact.candidates files (pipeline.recipe.outputDirectory submission)
        pipeline.artifactSuffix ∨
      name ∈ Artifact.candidates (change files) (pipeline.recipe.outputDirectory submission)
        pipeline.artifactSuffix := by
  unfold Dispatcher.candidates at hmem
  split at hmem
  · split at hmem
    · next index worker directory rest hworker =>
      obtain ⟨_, hmoment⟩ := hexpected _ _ (.listFiles directory) rest hworker
      obtain ⟨hasks, hchanged⟩ := moments_staged change ending hbefore hafter _ hmoment
      obtain ⟨found, hfound, heq⟩ := List.mem_map.mp hmem
      cases heq
      cases hasks
      rw [hchanged] at hfound
      split at hfound
      · exact .inr hfound
      · exact .inl hfound
    · cases hmem
  · cases hmem

/-- The batch of one is told in a log of its own, and nothing is found but what was there before its program or
after it. -/
theorem fresh_onItsOwn {outcome : Outcome} (hbefore : Provided pipeline submission files)
    (hafter : Provided pipeline submission (change files))
    (hholds : log.Holds (Bytes.ofText "") files)
    (hkept : log.Holds (Bytes.ofText "") (change files))
    (houtcome : Dispatcher.reported? ((Dispatcher.work ⟨pipeline, 1⟩ submission).run
      (staged pipeline submission change ending) (.start files false)).1 = some outcome) :
    let occasion := onItsOwn pipeline submission log files change ending
    occasion.Fresh ∧ occasion.reports = [(submission, outcome)] ∧
      ∀ entry ∈ occasion.history, ∀ other name,
        (other, name) ∈ Dispatcher.candidates pipeline.artifactSuffix entry →
        name ∈ Artifact.candidates files (pipeline.recipe.outputDirectory submission)
            pipeline.artifactSuffix ∨
          name ∈ Artifact.candidates (change files) (pipeline.recipe.outputDirectory submission)
            pipeline.artifactSuffix := by
  obtain ⟨hstop, hreports, hexpected⟩ := run_onItsOwn change ending log houtcome
  have hspared := fun entry hentry =>
    spares_onItsOwn change ending hbefore hafter hholds hkept (hexpected entry hentry)
  exact ⟨⟨hholds, hspared, hstop⟩, hreports, fun entry hentry _ _ =>
    candidates_onItsOwn change ending hbefore hafter (hexpected entry hentry)⟩

end Run

end ExecuteLog

end Assay
