import Assay.Pipeline
import Assay.Proofs.Task.Course

/-!
# The passage of a submission

Everything that the runner is asked on behalf of one submission is known beforehand up to the answers: which
command, in which directory, with which limit, on which files. What is left open is how far the submission
gets, and `Passage` lists every possibility once. Whatever is claimed of the pipeline is read off that list.
-/

namespace Assay

/-- Both marks begin with another letter than everything else that is noted. -/
theorem Event.isMark_append (level : Level) (start : String)
    (h : start.toList.head? ∉ [none, some 'S', some 'P']) (rest : String) :
    Event.isMark { level, message := start ++ rest } = false := by
  obtain ⟨first, hfirst⟩ : ∃ first, start.toList.head? = some first :=
    Option.ne_none_iff_exists'.mp fun hnone => h (by simp [hnone])
  have hhead : (start ++ rest).toList.head? = some first := by
    simp [String.toList_append, hfirst]
  rw [isMark, Bool.or_eq_false_iff, decide_eq_false_iff_not, decide_eq_false_iff_not]
  constructor
  · rintro (heq : start ++ rest = "State changed")
    rw [heq] at hhead
    exact h (by simp [hfirst, ← hhead])
  · rintro (heq : start ++ rest = "Pipeline finished")
    rw [heq] at hhead
    exact h (by simp [hfirst, ← hhead])

namespace Pipeline

variable {ρ : Type} (pipeline : Pipeline)

/-- How a build that ended in this way is judged. -/
def buildProgress : Ending → Except Failure Progress
  | .exited status =>
    .ok (if status = 0 then .onward else .settled (.compileFailure pipeline.recipe.build))
  | .notLaunched program detail => .error (.launch program detail)
  | .timedOut _ => .ok (.settled (.timeout pipeline.recipe.build))

def runProgress : Ending → Progress
  | .exited status =>
    if status = 0 then .onward else .settled (.executionFailure pipeline.recipe.run status)
  | .timedOut _ => .settled (.timeout pipeline.recipe.run)
  | .notLaunched _ _ => .settled (.executionFailure pipeline.recipe.run none)

def compareResult (artifact : Path) : Ending → Except Failure Outcome
  | .exited status =>
    .ok (if status = 0 then .success
      else .artifactMismatch (pipeline.comparator.command artifact))
  | .timedOut _ => .ok (.timeout (pipeline.comparator.command artifact))
  | .notLaunched program detail => .error (.launch program detail)

theorem buildProgress_eq_onward_iff {ending : Ending} :
    pipeline.buildProgress ending = .ok .onward ↔ ending = .exited 0 := by
  cases ending with
  | exited status => by_cases hzero : status = 0 <;> simp [buildProgress, hzero]
  | timedOut limit => simp [buildProgress]
  | notLaunched program detail => simp [buildProgress]

theorem runProgress_eq_onward_iff {ending : Ending} :
    pipeline.runProgress ending = .onward ↔ ending = .exited 0 := by
  cases ending with
  | exited status => by_cases hzero : status = 0 <;> simp [runProgress, hzero]
  | timedOut limit => simp [runProgress]
  | notLaunched program detail => simp [runProgress]

def changeMark (source target : Stage) : Event :=
  { level := .debug
    message := "State changed"
    fields := [("from", source.text), ("to", target.text)] }

def finishMark (outcome : Outcome) : Event :=
  { level := .debug
    message := "Pipeline finished"
    fields := [("state", (Stage.ofOutcome outcome).text), ("tag", outcome.verdict.text)] }

/-- A submission that ends the batch is never marked as done. -/
def closingMarks : Except Failure Outcome → List Event
  | .ok outcome => [finishMark outcome]
  | .error _ => []

/-- A submission about to be taken through a pipeline, and all that this can depend on. -/
structure Attempt (ρ : Type) where
  pipeline : Pipeline
  submission : Submission
  runner : Runner ρ
  files : Files
  memory : ρ

namespace Attempt

variable (attempt : Attempt ρ)

def course : Course ρ (Except Failure Outcome) :=
  (attempt.pipeline.process attempt.submission).course attempt.runner attempt.files attempt.memory

def directory : Path := attempt.pipeline.recipe.outputDirectory attempt.submission

def cleanIssue : Issue ρ :=
  ⟨attempt.pipeline.cleanCall attempt.submission, attempt.files, attempt.memory⟩

/-- The attempt to make the output directory, once cleaning is over. -/
def creation : Except Fault Unit × Files :=
  let cleaned := attempt.cleanIssue.filesAfter attempt.runner
  cleaned.ensureDirectory cleaned.directory attempt.directory

def buildIssue : Issue ρ :=
  { call := attempt.pipeline.buildCall attempt.submission
    files := attempt.creation.2
    memory := attempt.cleanIssue.memoryAfter attempt.runner }

def runIssue : Issue ρ :=
  { call := attempt.pipeline.runCall attempt.submission
    files := attempt.buildIssue.filesAfter attempt.runner
    memory := attempt.buildIssue.memoryAfter attempt.runner }

def located : Except Artifact.Problem Path :=
  Artifact.locate (attempt.runIssue.filesAfter attempt.runner) attempt.directory
    attempt.pipeline.artifactSuffix

def compareIssue (artifact : Path) : Issue ρ :=
  { call := attempt.pipeline.comparator.call artifact attempt.directory
    files := attempt.runIssue.filesAfter attempt.runner
    memory := attempt.runIssue.memoryAfter attempt.runner }

/-- Cleaning came to an end, whatever that was, and the output directory is there. -/
structure Prepared : Prop where
  cleaned : ∃ ending, attempt.cleanIssue.answer attempt.runner = .ok ending
  made : attempt.creation.1 = .ok ()

structure Built : Prop extends Prepared attempt where
  built : attempt.buildIssue.answer attempt.runner = .ok (.exited 0)

structure Ran : Prop extends Built attempt where
  ran : attempt.runIssue.answer attempt.runner = .ok (.exited 0)

end Attempt

/-- How far a submission gets: the calls made for it, the marks it leaves and how it ends. -/
inductive Passage (attempt : Attempt ρ) :
    List (Issue ρ) → List Event → Except Panic (Except Failure Outcome) → Prop
  | cleanPanicked {panic : Panic}
      (hclean : attempt.cleanIssue.answer attempt.runner = .error panic) :
      Passage attempt [attempt.cleanIssue] [changeMark .pending .building] (.error panic)
  | notMade {ending : Ending} {fault : Fault}
      (hclean : attempt.cleanIssue.answer attempt.runner = .ok ending)
      (hmade : attempt.creation.1 = .error fault) :
      Passage attempt [attempt.cleanIssue]
        [changeMark .pending .building,
          finishMark (.compileFailure attempt.pipeline.recipe.build)]
        (.ok (.ok (.compileFailure attempt.pipeline.recipe.build)))
  | buildPanicked {panic : Panic} (hprepared : attempt.Prepared)
      (hbuild : attempt.buildIssue.answer attempt.runner = .error panic) :
      Passage attempt [attempt.cleanIssue, attempt.buildIssue]
        [changeMark .pending .building] (.error panic)
  | buildRefused {ending : Ending} {failure : Failure} (hprepared : attempt.Prepared)
      (hbuild : attempt.buildIssue.answer attempt.runner = .ok ending)
      (hjudged : attempt.pipeline.buildProgress ending = .error failure) :
      Passage attempt [attempt.cleanIssue, attempt.buildIssue]
        [changeMark .pending .building] (.ok (.error failure))
  | buildSettled {ending : Ending} {outcome : Outcome} (hprepared : attempt.Prepared)
      (hbuild : attempt.buildIssue.answer attempt.runner = .ok ending)
      (hjudged : attempt.pipeline.buildProgress ending = .ok (.settled outcome)) :
      Passage attempt [attempt.cleanIssue, attempt.buildIssue]
        [changeMark .pending .building, finishMark outcome] (.ok (.ok outcome))
  | runPanicked {panic : Panic} (hbuilt : attempt.Built)
      (hrun : attempt.runIssue.answer attempt.runner = .error panic) :
      Passage attempt [attempt.cleanIssue, attempt.buildIssue, attempt.runIssue]
        [changeMark .pending .building, changeMark .built .running] (.error panic)
  | runSettled {ending : Ending} {outcome : Outcome} (hbuilt : attempt.Built)
      (hrun : attempt.runIssue.answer attempt.runner = .ok ending)
      (hjudged : attempt.pipeline.runProgress ending = .settled outcome) :
      Passage attempt [attempt.cleanIssue, attempt.buildIssue, attempt.runIssue]
        [changeMark .pending .building, changeMark .built .running, finishMark outcome]
        (.ok (.ok outcome))
  | notLocated {problem : Artifact.Problem} (hran : attempt.Ran)
      (hlocated : attempt.located = .error problem) :
      Passage attempt [attempt.cleanIssue, attempt.buildIssue, attempt.runIssue]
        [changeMark .pending .building, changeMark .built .running, changeMark .ran .validating,
          finishMark (.artifactPathError problem.directory problem.candidates)]
        (.ok (.ok (.artifactPathError problem.directory problem.candidates)))
  | comparePanicked {artifact : Path} {panic : Panic} (hran : attempt.Ran)
      (hlocated : attempt.located = .ok artifact)
      (hcompare : (attempt.compareIssue artifact).answer attempt.runner = .error panic) :
      Passage attempt
        [attempt.cleanIssue, attempt.buildIssue, attempt.runIssue, attempt.compareIssue artifact]
        [changeMark .pending .building, changeMark .built .running, changeMark .ran .validating]
        (.error panic)
  | compared {artifact : Path} {ending : Ending} (hran : attempt.Ran)
      (hlocated : attempt.located = .ok artifact)
      (hcompare : (attempt.compareIssue artifact).answer attempt.runner = .ok ending) :
      Passage attempt
        [attempt.cleanIssue, attempt.buildIssue, attempt.runIssue, attempt.compareIssue artifact]
        ([changeMark .pending .building, changeMark .built .running,
          changeMark .ran .validating] ++
          closingMarks (attempt.pipeline.compareResult artifact ending))
        (.ok (attempt.pipeline.compareResult artifact ending))

/-- What becomes of a submission whose program ran. -/
def Attempt.judged (attempt : Attempt ρ) : Except Panic (Except Failure Outcome) :=
  match attempt.located with
  | .error problem => .ok (.ok (.artifactPathError problem.directory problem.candidates))
  | .ok artifact =>
    ((attempt.compareIssue artifact).answer attempt.runner).map
      (attempt.pipeline.compareResult artifact)

theorem Attempt.judged_of_located {attempt : Attempt ρ} {artifact : Path}
    (h : attempt.located = .ok artifact) :
    attempt.judged = ((attempt.compareIssue artifact).answer attempt.runner).map
      (attempt.pipeline.compareResult artifact) := by
  unfold Attempt.judged
  rw [h]

theorem Attempt.judged_of_not_located {attempt : Attempt ρ} {problem : Artifact.Problem}
    (h : attempt.located = .error problem) :
    attempt.judged = .ok (.ok (.artifactPathError problem.directory problem.candidates)) := by
  unfold Attempt.judged
  rw [h]

/-- What becomes of a submission that was built, from the run on. -/
def Attempt.fromRun (attempt : Attempt ρ) : Except Panic (Except Failure Outcome) :=
  match (attempt.runIssue.answer attempt.runner).map attempt.pipeline.runProgress with
  | .error panic => .error panic
  | .ok (.settled outcome) => .ok (.ok outcome)
  | .ok .onward => attempt.judged

/-- What becomes of a submission that was prepared, from the build on. -/
def Attempt.fromBuild (attempt : Attempt ρ) : Except Panic (Except Failure Outcome) :=
  match (attempt.buildIssue.answer attempt.runner).map attempt.pipeline.buildProgress with
  | .error panic => .error panic
  | .ok (.error failure) => .ok (.error failure)
  | .ok (.ok (.settled outcome)) => .ok (.ok outcome)
  | .ok (.ok .onward) => attempt.fromRun

/-- What becomes of a submission. -/
def Attempt.concluded (attempt : Attempt ρ) : Except Panic (Except Failure Outcome) :=
  match attempt.cleanIssue.answer attempt.runner, attempt.creation.1 with
  | .error panic, _ => .error panic
  | .ok _, .error _ => .ok (.ok (.compileFailure attempt.pipeline.recipe.build))
  | .ok _, .ok () => attempt.fromBuild

theorem Attempt.concluded_of_prepared {attempt : Attempt ρ} (h : attempt.Prepared) :
    attempt.concluded = attempt.fromBuild := by
  obtain ⟨⟨ending, hcleaned⟩, hmade⟩ := h
  rw [concluded, hcleaned, hmade]

theorem Attempt.concluded_of_built {attempt : Attempt ρ} (h : attempt.Built) :
    attempt.concluded = attempt.fromRun := by
  rw [concluded_of_prepared h.toPrepared, fromBuild, h.built]
  rfl

theorem Attempt.concluded_of_ran {attempt : Attempt ρ} (h : attempt.Ran) :
    attempt.concluded = attempt.judged := by
  rw [concluded_of_built h.toBuilt, fromRun, h.ran]
  rfl

theorem Passage.result_eq {attempt : Attempt ρ} {issues : List (Issue ρ)} {marks : List Event}
    {result : Except Panic (Except Failure Outcome)} (h : Passage attempt issues marks result) :
    result = attempt.concluded := by
  cases h with
  | cleanPanicked hclean => rw [Attempt.concluded, hclean]
  | notMade hclean hmade => rw [Attempt.concluded, hclean, hmade]
  | buildPanicked hprepared hbuild =>
      rw [Attempt.concluded_of_prepared hprepared, Attempt.fromBuild, hbuild]
      rfl
  | buildRefused hprepared hbuild hjudged =>
      rw [Attempt.concluded_of_prepared hprepared, Attempt.fromBuild, hbuild, Except.map, hjudged]
  | buildSettled hprepared hbuild hjudged =>
      rw [Attempt.concluded_of_prepared hprepared, Attempt.fromBuild, hbuild, Except.map, hjudged]
  | runPanicked hbuilt hrun =>
      rw [Attempt.concluded_of_built hbuilt, Attempt.fromRun, hrun]
      rfl
  | runSettled hbuilt hrun hjudged =>
      rw [Attempt.concluded_of_built hbuilt, Attempt.fromRun, hrun, Except.map, hjudged]
  | notLocated hran hlocated =>
      rw [Attempt.concluded_of_ran hran, Attempt.judged_of_not_located hlocated]
  | comparePanicked hran hlocated hcompare =>
      rw [Attempt.concluded_of_ran hran, Attempt.judged_of_located hlocated, hcompare]
      rfl
  | compared hran hlocated hcompare =>
      rw [Attempt.concluded_of_ran hran, Attempt.judged_of_located hlocated, hcompare]
      rfl

theorem Passage.result_of_ran {attempt : Attempt ρ} {issues : List (Issue ρ)} {marks : List Event}
    {result : Except Panic (Except Failure Outcome)} (h : Passage attempt issues marks result)
    (hran : attempt.Ran) : result = attempt.judged :=
  h.result_eq.trans (Attempt.concluded_of_ran hran)

/-! ### The courses of the stages -/

section Stages

variable (submission : Submission) (runner : Runner ρ) (files : Files) (memory : ρ)

theorem course_clean (attempt : Attempt ρ) :
    (attempt.pipeline.clean attempt.submission).course attempt.runner attempt.files attempt.memory =
      ⟨[attempt.cleanIssue], [], attempt.cleanIssue.answer attempt.runner |>.map fun _ => (),
        attempt.cleanIssue.filesAfter attempt.runner,
        attempt.cleanIssue.memoryAfter attempt.runner⟩ := by
  have hissue : attempt.cleanIssue =
    ⟨attempt.pipeline.cleanCall attempt.submission, attempt.files, attempt.memory⟩ := rfl
  simp only [clean, Task.monadBind_eq_bind, Task.course_bind, Task.course_call, Course.andThen,
    ← hissue]
  cases attempt.cleanIssue.answer attempt.runner with
  | error panic => rfl
  | ok ending =>
      have hfailed := Event.isMark_append .warn "Clean step failed, ignored: " (by decide)
      cases ending with
      | exited status =>
          have hexited := Event.isMark_append .debug "Clean exited with " (by decide)
          by_cases hzero : status = 0
          · subst hzero
            rfl
          · simp [Except.map, String.append_assoc]
            exact hexited _
      | timedOut limit => simp [hfailed, Except.map]
      | notLaunched program detail => simp [hfailed, Except.map]

theorem course_build (attempt : Attempt ρ) :
    (attempt.pipeline.build attempt.submission).course attempt.runner attempt.files attempt.memory =
      match attempt.cleanIssue.answer attempt.runner, attempt.creation.1 with
      | .error panic, _ =>
        ⟨[attempt.cleanIssue], [], .error panic, attempt.cleanIssue.filesAfter attempt.runner,
          attempt.cleanIssue.memoryAfter attempt.runner⟩
      | .ok _, .error _ =>
        ⟨[attempt.cleanIssue], [],
          .ok (.ok (.settled (.compileFailure attempt.pipeline.recipe.build))), attempt.creation.2,
          attempt.cleanIssue.memoryAfter attempt.runner⟩
      | .ok _, .ok () =>
        ⟨[attempt.cleanIssue, attempt.buildIssue], [],
          attempt.buildIssue.answer attempt.runner |>.map attempt.pipeline.buildProgress,
          attempt.buildIssue.filesAfter attempt.runner,
          attempt.buildIssue.memoryAfter attempt.runner⟩ := by
  have hmade : (attempt.cleanIssue.filesAfter attempt.runner).ensureDirectory
      (attempt.cleanIssue.filesAfter attempt.runner).directory
      (attempt.pipeline.recipe.outputDirectory attempt.submission) = attempt.creation := rfl
  have hissue : attempt.buildIssue =
    ⟨attempt.pipeline.buildCall attempt.submission, attempt.creation.2,
      attempt.cleanIssue.memoryAfter attempt.runner⟩ := rfl
  simp only [build, Task.monadBind_eq_bind, Task.course_bind, course_clean, Course.andThen,
    Task.course_ensureDirectory]
  rcases attempt.cleanIssue.answer attempt.runner with panic | ending
  · rfl
  simp only [Except.map, hmade]
  rcases attempt.creation.1 with fault | ⟨⟩
  · have hrefused := Event.isMark_append .error "Cannot create " (by decide)
    simp [hrefused, Task.course_bind, Course.andThen, String.append_assoc]
  simp only [Task.course_bind, Task.course_call, Course.andThen, ← hissue]
  rcases attempt.buildIssue.answer attempt.runner with panic | ending
  · rfl
  cases ending with
  | exited status =>
      have hexited := Event.isMark_append .debug "Build exited with " (by decide)
      by_cases hzero : status = 0
      · subst hzero
        rfl
      · simp [hzero, buildProgress, Task.course_bind, Course.andThen]
        exact hexited _
  | timedOut limit => rfl
  | notLaunched program detail => rfl

theorem course_execute :
    (pipeline.execute submission).course runner files memory =
      let issue : Issue ρ := ⟨pipeline.runCall submission, files, memory⟩
      ⟨[issue], [], issue.answer runner |>.map pipeline.runProgress, issue.filesAfter runner,
        issue.memoryAfter runner⟩ := by
  simp only [execute, Task.monadBind_eq_bind, Task.course_bind, Task.course_call, Course.andThen]
  rcases (⟨pipeline.runCall submission, files, memory⟩ : Issue ρ).answer runner with
    panic | ending
  · rfl
  · cases ending with
    | exited status =>
        by_cases hzero : status = 0
        · subst hzero
          rfl
        · simp [hzero, Except.map, runProgress]
    | timedOut limit =>
        have hexceeded := Event.isMark_append .debug "Run exceeded " (by decide)
        simp [hexceeded, Except.map, runProgress, Task.course_bind, Course.andThen]
    | notLaunched program detail =>
        have hrefused := Event.isMark_append .debug "Executable did not start: " (by decide)
        simp [hrefused, Except.map, runProgress, Task.course_bind, Course.andThen]

theorem course_compare (comparator : Comparator) (artifact directory : Path) :
    (comparator.compare artifact directory).course runner files memory =
      let issue : Issue ρ := ⟨comparator.call artifact directory, files, memory⟩
      ⟨[issue], [], issue.answer runner |>.map fun
          | .exited status =>
            .ok (if status = 0 then .identical else .different (comparator.command artifact))
          | .timedOut _ => .ok (.timedOut (comparator.command artifact))
          | .notLaunched program detail => .error (.launch program detail),
        issue.filesAfter runner, issue.memoryAfter runner⟩ := by
  simp only [Comparator.compare, Task.monadBind_eq_bind, Task.course_bind, Task.course_call,
    Course.andThen]
  rcases (⟨comparator.call artifact directory, files, memory⟩ : Issue ρ).answer runner with
    panic | ending
  · rfl
  · cases ending with
    | exited status =>
        have hexited := Event.isMark_append .debug "Compare exited with " (by decide)
        by_cases hzero : status = 0
        · subst hzero
          rfl
        · simp [hzero, Except.map, Task.course_bind, Course.andThen]
          exact hexited _
    | timedOut limit => rfl
    | notLaunched program detail => rfl

theorem course_validate :
    (pipeline.validate submission).course runner files memory =
      let directory := pipeline.recipe.outputDirectory submission
      match Artifact.locate files directory pipeline.artifactSuffix with
      | .error problem =>
        ⟨[], [], .ok (.ok (.artifactPathError problem.directory problem.candidates)), files, memory⟩
      | .ok artifact =>
        let issue : Issue ρ := ⟨pipeline.comparator.call artifact directory, files, memory⟩
        ⟨[issue], [], issue.answer runner |>.map (pipeline.compareResult artifact),
          issue.filesAfter runner, issue.memoryAfter runner⟩ := by
  simp only [validate, Task.monadBind_eq_bind, Task.course_bind, Task.course_listFiles,
    Course.andThen, Artifact.locate]
  rcases Artifact.ofListing (pipeline.recipe.outputDirectory submission) pipeline.artifactSuffix
    (files.listFiles files.directory (pipeline.recipe.outputDirectory submission)) with
    problem | artifact
  · have hfailed := Event.isMark_append .debug "Artifact lookup failed: " (by decide)
    simp [hfailed, Task.course_bind, Course.andThen]
  · simp only [Task.course_bind, course_compare, Course.andThen]
    rcases (⟨pipeline.comparator.call artifact (pipeline.recipe.outputDirectory submission), files,
      memory⟩ : Issue ρ).answer runner with panic | ending
    · rfl
    · cases ending with
      | exited status =>
          by_cases hzero : status = 0 <;> simp [hzero, Except.map, compareResult]
      | timedOut limit => rfl
      | notLaunched program detail => rfl

theorem course_transition (source target : Stage) :
    (transition source target).course runner files memory =
      ⟨[], [changeMark source target], .ok (), files, memory⟩ := rfl

end Stages

/-! ### Putting the stages together

From the last stage to the first: what is still to come after a stage is taken as known where the
stage before it is looked at.
-/

section Passage

variable (attempt : Attempt ρ)

def afterRun : Task (Except Failure Outcome) := do
  match ← attempt.pipeline.validate attempt.submission with
  | .ok outcome => finish outcome
  | .error failure => return .error failure

def afterBuild : Task (Except Failure Outcome) := do
  transition .built .running
  match ← attempt.pipeline.execute attempt.submission with
  | .settled outcome => finish outcome
  | .onward =>
    transition .ran .validating
    afterRun attempt

theorem process_eq :
    attempt.pipeline.process attempt.submission = (do
      transition .pending .building
      match ← attempt.pipeline.build attempt.submission with
      | .error failure => return .error failure
      | .ok (.settled outcome) => finish outcome
      | .ok .onward => afterBuild attempt) := rfl

theorem passage_of_ran (hran : attempt.Ran) :
    let rest := (afterRun attempt).course attempt.runner
      (attempt.runIssue.filesAfter attempt.runner) (attempt.runIssue.memoryAfter attempt.runner)
    Passage attempt ([attempt.cleanIssue, attempt.buildIssue, attempt.runIssue] ++ rest.issues)
      ([changeMark .pending .building, changeMark .built .running,
        changeMark .ran .validating] ++ rest.marks) rest.result := by
  have hlocate : Artifact.locate (attempt.runIssue.filesAfter attempt.runner)
      (attempt.pipeline.recipe.outputDirectory attempt.submission)
      attempt.pipeline.artifactSuffix = attempt.located := rfl
  have hissue (artifact : Path) : attempt.compareIssue artifact =
    ⟨attempt.pipeline.comparator.call artifact
        (attempt.pipeline.recipe.outputDirectory attempt.submission),
      attempt.runIssue.filesAfter attempt.runner,
      attempt.runIssue.memoryAfter attempt.runner⟩ := rfl
  simp only [afterRun, Task.monadBind_eq_bind, Task.course_bind, course_validate, Course.andThen,
    hlocate, ← hissue]
  rcases hlocated : attempt.located with problem | artifact
  · exact .notLocated hran hlocated
  dsimp only
  rcases hanswer : (attempt.compareIssue artifact).answer attempt.runner with panic | ending
  · exact .comparePanicked hran hlocated hanswer
  have hpassage := Passage.compared hran hlocated hanswer
  simp only [Except.map]
  rcases hjudged : attempt.pipeline.compareResult artifact ending with failure | outcome <;>
    rw [hjudged] at hpassage <;> exact hpassage

theorem passage_of_built (hbuilt : attempt.Built) :
    let rest := (afterBuild attempt).course attempt.runner
      (attempt.buildIssue.filesAfter attempt.runner)
      (attempt.buildIssue.memoryAfter attempt.runner)
    Passage attempt ([attempt.cleanIssue, attempt.buildIssue] ++ rest.issues)
      ([changeMark .pending .building] ++ rest.marks) rest.result := by
  have hissue : attempt.runIssue =
    ⟨attempt.pipeline.runCall attempt.submission, attempt.buildIssue.filesAfter attempt.runner,
      attempt.buildIssue.memoryAfter attempt.runner⟩ := rfl
  simp only [afterBuild, Task.monadBind_eq_bind, Task.course_bind, course_transition,
    course_execute, Course.andThen, ← hissue]
  rcases hanswer : attempt.runIssue.answer attempt.runner with panic | ending
  · exact .runPanicked hbuilt hanswer
  rcases hjudged : attempt.pipeline.runProgress ending with onward | outcome
  · rw [runProgress_eq_onward_iff] at hjudged
    subst hjudged
    simp only [Except.map, attempt.pipeline.runProgress_eq_onward_iff.mpr rfl, Task.course_bind,
      course_transition, Course.andThen]
    have hpassage := passage_of_ran attempt ⟨hbuilt, hanswer⟩
    simp only [List.cons_append, List.nil_append] at hpassage ⊢
    exact hpassage
  · simp only [Except.map, hjudged]
    exact .runSettled hbuilt hanswer hjudged

/-- Every submission passes in one of the ways listed. -/
theorem passage_course :
    Passage attempt attempt.course.issues attempt.course.marks attempt.course.result := by
  simp only [Attempt.course, process_eq, Task.monadBind_eq_bind, Task.course_bind,
    course_transition, course_build, Course.andThen]
  rcases hclean : attempt.cleanIssue.answer attempt.runner with panic | ending
  · exact .cleanPanicked hclean
  rcases hmade : attempt.creation.1 with fault | ⟨⟩
  · exact .notMade hclean hmade
  have hprepared : attempt.Prepared := ⟨⟨ending, hclean⟩, hmade⟩
  rcases hbuild : attempt.buildIssue.answer attempt.runner with panic | ending
  · exact .buildPanicked hprepared hbuild
  rcases hjudged : attempt.pipeline.buildProgress ending with failure | onward | outcome
  · simp only [Except.map, hjudged]
    exact .buildRefused hprepared hbuild hjudged
  · rw [buildProgress_eq_onward_iff] at hjudged
    subst hjudged
    simp only [Except.map, attempt.pipeline.buildProgress_eq_onward_iff.mpr rfl]
    exact passage_of_built attempt ⟨hprepared, hbuild⟩
  · simp only [Except.map, hjudged]
    exact .buildSettled hprepared hbuild hjudged

end Passage

theorem passage_process (pipeline : Pipeline) (submission : Submission) (runner : Runner ρ) (world : World ρ) :
    Passage ⟨pipeline, submission, runner, world.files, world.memory⟩
      ((pipeline.process submission).issues runner world)
      (((pipeline.process submission).notes runner world).filter Event.isMark)
      ((pipeline.process submission).run runner world).1 := by
  have hpassage := passage_course ⟨pipeline, submission, runner, world.files, world.memory⟩
  rwa [Attempt.course, Task.course_eq] at hpassage

end Pipeline

end Assay
