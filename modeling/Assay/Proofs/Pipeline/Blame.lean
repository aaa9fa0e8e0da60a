import Assay.Proofs.Pipeline.Asks
import Assay.Proofs.Pipeline.Success

/-!
# Who is to blame

An outcome names a command, and somebody will look into it. So it has to be the command after which nothing went
on, and what is said of it has to be what it really came to. `Origin` lists how an outcome can come about, in terms
of the calls that were made for it and of how they ended; `Blame` says that every outcome has one of these origins
and that each origin has its outcome.
-/

namespace Assay

namespace Artifact

variable {files : Files} {directory : Path} {suffix : String}

/-- A scan that fails says how many candidates there were, which is never one. -/
theorem problem_of_locate {problem : Problem} (h : locate files directory suffix = .error problem) :
    problem.directory = directory ∧ problem.candidates = (candidates files directory suffix).length ∧
      problem.candidates ≠ 1 := by
  unfold locate at h
  unfold candidates
  generalize files.listFiles files.directory directory = listing at h ⊢
  cases listing with
  | error fault =>
      cases h
      exact ⟨rfl, rfl, Nat.zero_ne_one⟩
  | ok names =>
      simp only [ofListing, choose] at h ⊢
      generalize names.filter (hasSuffix suffix) = found at h ⊢
      rcases found with _ | ⟨first, _ | ⟨second, rest⟩⟩ <;> cases h
      · exact ⟨rfl, rfl, Nat.zero_ne_one⟩
      · exact ⟨rfl, rfl, by simp [Problem.candidates]⟩

theorem length_candidates_of_isOnly {name : RawText} (h : IsOnly files directory suffix name) :
    (candidates files directory suffix).length = 1 := by
  obtain ⟨names, hlisted, honly⟩ := h
  simp only [candidates, hlisted, honly, List.length_singleton]

end Artifact

namespace Pipeline

variable {ρ : Type}

/-! ### How endings are judged -/

section Judged

variable {pipeline : Pipeline} {artifact : Path} {ending : Ending} {outcome : Outcome}

theorem buildProgress_settled (h : pipeline.buildProgress ending = .ok (.settled outcome)) :
    (∃ status, status ≠ 0 ∧ ending = .exited status ∧
      outcome = .compileFailure pipeline.recipe.build) ∨
    (∃ limit, ending = .timedOut limit ∧ outcome = .timeout pipeline.recipe.build) := by
  cases ending with
  | exited status =>
      by_cases hzero : status = 0
      · simp [buildProgress, hzero] at h
      · simp only [buildProgress, if_neg hzero] at h
        cases h
        exact .inl ⟨status, hzero, rfl, rfl⟩
  | timedOut limit =>
      cases h
      exact .inr ⟨limit, rfl, rfl⟩
  | notLaunched program detail => cases h

theorem runProgress_settled (h : pipeline.runProgress ending = .settled outcome) :
    (∃ status, status ≠ 0 ∧ ending = .exited status ∧
      outcome = .executionFailure pipeline.recipe.run status) ∨
    (∃ limit, ending = .timedOut limit ∧ outcome = .timeout pipeline.recipe.run) ∨
    (∃ program detail, ending = .notLaunched program detail ∧
      outcome = .executionFailure pipeline.recipe.run none) := by
  cases ending with
  | exited status =>
      by_cases hzero : status = 0
      · simp [runProgress, hzero] at h
      · simp only [runProgress, if_neg hzero] at h
        cases h
        exact .inl ⟨status, hzero, rfl, rfl⟩
  | timedOut limit =>
      cases h
      exact .inr (.inl ⟨limit, rfl, rfl⟩)
  | notLaunched program detail =>
      cases h
      exact .inr (.inr ⟨program, detail, rfl, rfl⟩)

theorem compareResult_ok (h : pipeline.compareResult artifact ending = .ok outcome) :
    (ending = .exited 0 ∧ outcome = .success) ∨
    (∃ status, status ≠ 0 ∧ ending = .exited status ∧
      outcome = .artifactMismatch (pipeline.comparator.command artifact)) ∨
    (∃ limit, ending = .timedOut limit ∧ outcome = .timeout (pipeline.comparator.command artifact)) := by
  cases ending with
  | exited status =>
      by_cases hzero : status = 0
      · subst hzero
        cases h
        exact .inl ⟨rfl, rfl⟩
      · simp only [compareResult, if_neg hzero] at h
        cases h
        exact .inr (.inl ⟨status, hzero, rfl, rfl⟩)
  | timedOut limit =>
      cases h
      exact .inr (.inr ⟨limit, rfl, rfl⟩)
  | notLaunched program detail => cases h

end Judged

/-! ### The calls that were made -/

section Origin

variable (attempt : Attempt ρ) (issues : List (Issue ρ))

/-- The call with this number was made, and came to this end. -/
def Came (index : Nat) (call : Call) (ending : Ending) : Prop :=
  ∃ issue, issues[index]? = some issue ∧ issue.call = call ∧ issue.answer attempt.runner = .ok ending

/-- The same of the last call. -/
structure CameLast (index : Nat) (call : Call) (ending : Ending) : Prop where
  came : Came attempt issues index call ending
  last : issues.length = index + 1

/-- Nothing was called for but cleaning, because there is no directory for what a build would make. -/
def NotMade : Prop :=
  ∃ cleaned ending fault, issues = [cleaned] ∧ cleaned.answer attempt.runner = .ok ending ∧
    ((cleaned.filesAfter attempt.runner).ensureDirectory
      (cleaned.filesAfter attempt.runner).directory attempt.directory).1 = .error fault

/-- A run that went well left this many files that could be taken for the artifact. -/
def Leaves (count : Nat) : Prop :=
  ∃ ran, issues[2]? = some ran ∧ ran.call = attempt.pipeline.runCall attempt.submission ∧
    ran.answer attempt.runner = .ok (.exited 0) ∧
    count = (Artifact.candidates (ran.filesAfter attempt.runner) attempt.directory
      attempt.pipeline.artifactSuffix).length

/-- The only one of them, among the files that the comparison was made on. -/
def Located (artifact : Path) : Prop :=
  ∃ compared name, issues[3]? = some compared ∧
    Artifact.IsOnly compared.files attempt.directory attempt.pipeline.artifactSuffix name ∧
    artifact = attempt.directory.join ⟨name⟩

def compareCall (artifact : Path) : Call :=
  attempt.pipeline.comparator.call artifact attempt.directory

/-- The calls that can be held against somebody, with their numbers. Cleaning is not among them. -/
inductive Counts : Nat → Call → Prop
  | build : Counts 1 (attempt.pipeline.buildCall attempt.submission)
  | run : Counts 2 (attempt.pipeline.runCall attempt.submission)
  | compare (artifact : Path) : Counts 3 (compareCall attempt artifact)

/-- A call was made for a program that is no product of the submission, and was refused. -/
def Refusal (program detail : String) : Prop :=
  Came attempt issues 1 (attempt.pipeline.buildCall attempt.submission) (.notLaunched program detail) ∨
    ∃ artifact, Came attempt issues 3 (compareCall attempt artifact) (.notLaunched program detail)

/-- How an outcome can come about. -/
inductive Origin : Outcome → Prop
  | notMade (h : NotMade attempt issues) : Origin (.compileFailure attempt.pipeline.recipe.build)
  | build {status : Int} (hstatus : status ≠ 0)
      (h : CameLast attempt issues 1 (attempt.pipeline.buildCall attempt.submission) (.exited status)) :
      Origin (.compileFailure attempt.pipeline.recipe.build)
  | buildTimeout {limit : Duration}
      (h : CameLast attempt issues 1 (attempt.pipeline.buildCall attempt.submission) (.timedOut limit)) :
      Origin (.timeout attempt.pipeline.recipe.build)
  | run {status : Int} (hstatus : status ≠ 0)
      (h : CameLast attempt issues 2 (attempt.pipeline.runCall attempt.submission) (.exited status)) :
      Origin (.executionFailure attempt.pipeline.recipe.run status)
  | runTimeout {limit : Duration}
      (h : CameLast attempt issues 2 (attempt.pipeline.runCall attempt.submission) (.timedOut limit)) :
      Origin (.timeout attempt.pipeline.recipe.run)
  | runRefused {program detail : String}
      (h : CameLast attempt issues 2 (attempt.pipeline.runCall attempt.submission)
        (.notLaunched program detail)) :
      Origin (.executionFailure attempt.pipeline.recipe.run none)
  | scan {count : Nat} (hcount : count ≠ 1) (h : Leaves attempt issues count) :
      Origin (.artifactPathError attempt.directory count)
  | identical {artifact : Path} (hlocated : Located attempt issues artifact)
      (h : CameLast attempt issues 3 (compareCall attempt artifact) (.exited 0)) : Origin .success
  | compare {artifact : Path} {status : Int} (hlocated : Located attempt issues artifact)
      (hstatus : status ≠ 0)
      (h : CameLast attempt issues 3 (compareCall attempt artifact) (.exited status)) :
      Origin (.artifactMismatch (attempt.pipeline.comparator.command artifact))
  | compareTimeout {artifact : Path} {limit : Duration} (hlocated : Located attempt issues artifact)
      (h : CameLast attempt issues 3 (compareCall attempt artifact) (.timedOut limit)) :
      Origin (.timeout (attempt.pipeline.comparator.command artifact))

end Origin

variable {attempt : Attempt ρ} {issues : List (Issue ρ)} {marks changes : List Event}
  {result : Except Panic (Except Failure Outcome)}

theorem located_of_ran {artifact : Path} (hlocated : attempt.located = .ok artifact) :
    Located attempt
      [attempt.cleanIssue, attempt.buildIssue, attempt.runIssue, attempt.compareIssue artifact] artifact := by
  obtain ⟨name, honly, hartifact⟩ := located_eq_ok_iff.mp hlocated
  exact ⟨_, name, rfl, honly, hartifact⟩

theorem Passage.origin (h : Passage attempt issues marks result) {outcome : Outcome}
    (houtcome : result = .ok (.ok outcome)) : Origin attempt issues outcome := by
  cases h with
  | notMade hclean hmade =>
      cases houtcome
      exact .notMade ⟨_, _, _, rfl, hclean, hmade⟩
  | buildSettled hprepared hbuild hjudged =>
      cases houtcome
      rcases buildProgress_settled hjudged with ⟨status, hstatus, rfl, rfl⟩ | ⟨limit, rfl, rfl⟩
      · exact .build hstatus ⟨⟨_, rfl, rfl, hbuild⟩, rfl⟩
      · exact .buildTimeout ⟨⟨_, rfl, rfl, hbuild⟩, rfl⟩
  | runSettled hbuilt hrun hjudged =>
      cases houtcome
      rcases runProgress_settled hjudged with ⟨status, hstatus, rfl, rfl⟩ | ⟨limit, rfl, rfl⟩ |
        ⟨program, detail, rfl, rfl⟩
      · exact .run hstatus ⟨⟨_, rfl, rfl, hrun⟩, rfl⟩
      · exact .runTimeout ⟨⟨_, rfl, rfl, hrun⟩, rfl⟩
      · exact .runRefused ⟨⟨_, rfl, rfl, hrun⟩, rfl⟩
  | notLocated hran hlocated =>
      cases houtcome
      obtain ⟨hdirectory, hcount, hne⟩ := Artifact.problem_of_locate hlocated
      rw [hdirectory]
      exact .scan hne ⟨_, rfl, rfl, hran.ran, hcount⟩
  | compared hran hlocated hcompare =>
      have hsole := located_of_ran hlocated
      rcases compareResult_ok (Except.ok.inj houtcome) with ⟨rfl, rfl⟩ | ⟨status, hstatus, rfl, rfl⟩ |
        ⟨limit, rfl, rfl⟩
      · exact .identical hsole ⟨⟨_, rfl, rfl, hcompare⟩, rfl⟩
      · exact .compare hsole hstatus ⟨⟨_, rfl, rfl, hcompare⟩, rfl⟩
      · exact .compareTimeout hsole ⟨⟨_, rfl, rfl, hcompare⟩, rfl⟩
  | _ => cases houtcome

/-! ### What a call that was made says about the result -/

theorem Reach.prepared_of_getElem? (h : Reach attempt issues changes) {issue : Issue ρ}
    (hissue : issues[1]? = some issue) : attempt.Prepared ∧ issue = attempt.buildIssue := by
  cases h with
  | cleaning hstuck => simp at hissue
  | building hprepared hstuck => exact ⟨hprepared, (Option.some.inj hissue).symm⟩
  | running hbuilt hstuck => exact ⟨hbuilt.toPrepared, (Option.some.inj hissue).symm⟩
  | locating hran hstuck => exact ⟨hran.toPrepared, (Option.some.inj hissue).symm⟩
  | comparing hran hlocated => exact ⟨hran.toPrepared, (Option.some.inj hissue).symm⟩

theorem Reach.built_of_getElem? (h : Reach attempt issues changes) {issue : Issue ρ}
    (hissue : issues[2]? = some issue) : attempt.Built ∧ issue = attempt.runIssue := by
  cases h with
  | cleaning hstuck => simp at hissue
  | building hprepared hstuck => simp at hissue
  | running hbuilt hstuck => exact ⟨hbuilt, (Option.some.inj hissue).symm⟩
  | locating hran hstuck => exact ⟨hran.toBuilt, (Option.some.inj hissue).symm⟩
  | comparing hran hlocated => exact ⟨hran.toBuilt, (Option.some.inj hissue).symm⟩

theorem Reach.ran_of_getElem? (h : Reach attempt issues changes) {issue : Issue ρ}
    (hissue : issues[3]? = some issue) :
    ∃ artifact, attempt.Ran ∧ attempt.located = .ok artifact ∧ issue = attempt.compareIssue artifact := by
  cases h with
  | comparing hran hlocated => exact ⟨_, hran, hlocated, (Option.some.inj hissue).symm⟩
  | _ => simp at hissue

/-- Two artifacts that are shown alike are judged alike. -/
theorem compareResult_of_call_eq {left right : Path} (hcall : compareCall attempt left = compareCall attempt right)
    (ending : Ending) :
    attempt.pipeline.compareResult left ending = attempt.pipeline.compareResult right ending := by
  have hcommand : attempt.pipeline.comparator.command left = attempt.pipeline.comparator.command right :=
    congrArg Call.command hcall
  unfold compareResult
  rw [hcommand]

theorem Passage.result_of_notMade (h : Passage attempt issues marks result)
    (hnot : NotMade attempt issues) :
    result = .ok (.ok (.compileFailure attempt.pipeline.recipe.build)) := by
  obtain ⟨cleaned, ending, fault, rfl, hanswer, hmade⟩ := hnot
  obtain ⟨changes, hreach, -⟩ := h.reach
  obtain rfl : cleaned = attempt.cleanIssue := by
    cases hreach
    rfl
  have hrefused : attempt.creation.1 = .error fault := hmade
  rw [h.result_eq, Attempt.concluded, hanswer, hrefused]

theorem Passage.result_of_build (h : Passage attempt issues marks result) {ending : Ending}
    (hcame : Came attempt issues 1 (attempt.pipeline.buildCall attempt.submission) ending)
    {outcome : Outcome} (hjudged : attempt.pipeline.buildProgress ending = .ok (.settled outcome)) :
    result = .ok (.ok outcome) := by
  obtain ⟨issue, hissue, -, hanswer⟩ := hcame
  obtain ⟨changes, hreach, -⟩ := h.reach
  obtain ⟨hprepared, rfl⟩ := hreach.prepared_of_getElem? hissue
  rw [h.result_eq, Attempt.concluded_of_prepared hprepared, Attempt.fromBuild, hanswer, Except.map,
    hjudged]

theorem Passage.result_of_run (h : Passage attempt issues marks result) {ending : Ending}
    (hcame : Came attempt issues 2 (attempt.pipeline.runCall attempt.submission) ending)
    {outcome : Outcome} (hjudged : attempt.pipeline.runProgress ending = .settled outcome) :
    result = .ok (.ok outcome) := by
  obtain ⟨issue, hissue, -, hanswer⟩ := hcame
  obtain ⟨changes, hreach, -⟩ := h.reach
  obtain ⟨hbuilt, rfl⟩ := hreach.built_of_getElem? hissue
  rw [h.result_eq, Attempt.concluded_of_built hbuilt, Attempt.fromRun, hanswer, Except.map, hjudged]

theorem Passage.result_of_leaves (h : Passage attempt issues marks result) {count : Nat}
    (hleaves : Leaves attempt issues count) (hcount : count ≠ 1) :
    result = .ok (.ok (.artifactPathError attempt.directory count)) := by
  obtain ⟨ran, hissue, -, hzero, rfl⟩ := hleaves
  obtain ⟨changes, hreach, -⟩ := h.reach
  obtain ⟨hbuilt, rfl⟩ := hreach.built_of_getElem? hissue
  cases hlocated : attempt.located with
  | error problem =>
      obtain ⟨hdirectory, hcandidates, -⟩ := Artifact.problem_of_locate hlocated
      rw [h.result_of_ran ⟨hbuilt, hzero⟩, Attempt.judged_of_not_located hlocated, hdirectory, hcandidates]
  | ok artifact =>
      obtain ⟨name, honly, -⟩ := located_eq_ok_iff.mp hlocated
      exact absurd (Artifact.length_candidates_of_isOnly honly) hcount

theorem Passage.result_of_compare (h : Passage attempt issues marks result) {artifact : Path}
    {ending : Ending} (hcame : Came attempt issues 3 (compareCall attempt artifact) ending) :
    result = .ok (attempt.pipeline.compareResult artifact ending) := by
  obtain ⟨issue, hissue, hcall, hanswer⟩ := hcame
  obtain ⟨changes, hreach, -⟩ := h.reach
  obtain ⟨chosen, hran, hlocated, rfl⟩ := hreach.ran_of_getElem? hissue
  rw [h.result_of_ran hran, Attempt.judged_of_located hlocated, hanswer, ← compareResult_of_call_eq hcall]
  rfl

theorem Passage.refusal_iff (h : Passage attempt issues marks result) {failure : Failure} :
    result = .ok (.error failure) ↔
      ∃ program detail, failure = .launch program detail ∧ Refusal attempt issues program detail := by
  constructor
  · intro hfatal
    cases h with
    | buildRefused hprepared hanswer hjudged =>
        obtain ⟨program, detail, rfl, rfl⟩ := (buildProgress_eq_error_iff _).mp hjudged
        cases hfatal
        exact ⟨program, detail, rfl, .inl ⟨_, rfl, rfl, hanswer⟩⟩
    | compared hran hlocated hanswer =>
        obtain ⟨program, detail, rfl, rfl⟩ :=
          (compareResult_eq_error_iff _).mp (Except.ok.inj hfatal)
        exact ⟨program, detail, rfl, .inr ⟨_, _, rfl, rfl, hanswer⟩⟩
    | _ => cases hfatal
  · rintro ⟨program, detail, rfl, hbuild | ⟨artifact, hcompare⟩⟩
    · obtain ⟨issue, hissue, -, hanswer⟩ := hbuild
      obtain ⟨changes, hreach, -⟩ := h.reach
      obtain ⟨hprepared, rfl⟩ := hreach.prepared_of_getElem? hissue
      exact h.result_of_refused (.build hprepared hanswer)
    · exact h.result_of_compare hcompare

/-! ### Every constructor, both ways -/

/-- Who is blamed for what. The calls are numbered in the order of the stages, and cleaning has the number 0. -/
structure Blame (attempt : Attempt ρ) (issues : List (Issue ρ))
    (result : Except Panic (Except Failure Outcome)) : Prop where
  success_iff : result = .ok (.ok .success) ↔
    ∃ artifact, Came attempt issues 3 (compareCall attempt artifact) (.exited 0)
  compileFailure_iff : ∀ command, result = .ok (.ok (.compileFailure command)) ↔
    command = attempt.pipeline.recipe.build ∧
      (NotMade attempt issues ∨ ∃ status, status ≠ 0 ∧
        Came attempt issues 1 (attempt.pipeline.buildCall attempt.submission) (.exited status))
  executionFailure_iff : ∀ command status?, result = .ok (.ok (.executionFailure command status?)) ↔
    command = some attempt.pipeline.recipe.run ∧
      ((∃ status, status ≠ 0 ∧ status? = some status ∧
          Came attempt issues 2 (attempt.pipeline.runCall attempt.submission) (.exited status)) ∨
        ∃ program detail, status? = none ∧
          Came attempt issues 2 (attempt.pipeline.runCall attempt.submission)
            (.notLaunched program detail))
  /-- The last call is at fault, if it is not that of cleaning. -/
  timeout_iff : ∀ command, result = .ok (.ok (.timeout command)) ↔
    ∃ index call limit, Counts attempt index call ∧
      CameLast attempt issues index call (.timedOut limit) ∧ command = some call.command
  artifactPathError_iff : ∀ directory count,
    result = .ok (.ok (.artifactPathError directory count)) ↔
      directory = attempt.directory ∧ Leaves attempt issues count ∧ count ≠ 1
  artifactMismatch_iff : ∀ command, result = .ok (.ok (.artifactMismatch command)) ↔
    ∃ artifact status, status ≠ 0 ∧ Located attempt issues artifact ∧
      command = attempt.pipeline.comparator.command artifact ∧
      Came attempt issues 3 (compareCall attempt artifact) (.exited status)
  /-- Nothing else ends the batch. -/
  fatal_iff : ∀ failure, result = .ok (.error failure) ↔
    ∃ program detail, failure = .launch program detail ∧ Refusal attempt issues program detail
  /-- A command that is blamed was the last one, unless it was not even called for. -/
  last : ∀ outcome command, result = .ok (.ok outcome) → outcome.command? = some command →
    (∃ issue, 1 < issues.length ∧ issues.getLast? = some issue ∧ issue.call.command = command) ∨
      (NotMade attempt issues ∧ outcome = .compileFailure attempt.pipeline.recipe.build)

theorem CameLast.getLast {index : Nat} {call : Call} {ending : Ending}
    (h : CameLast attempt issues index call ending) (hindex : 0 < index) :
    ∃ issue, 1 < issues.length ∧ issues.getLast? = some issue ∧ issue.call.command = call.command := by
  obtain ⟨⟨issue, hissue, hcall, -⟩, hlast⟩ := h
  refine ⟨issue, by omega, ?_, by rw [hcall]⟩
  rw [List.getLast?_eq_getElem?, hlast]
  exact hissue

theorem Origin.last {outcome : Outcome} {command : Command} (h : Origin attempt issues outcome)
    (hcommand : outcome.command? = some command) :
    (∃ issue, 1 < issues.length ∧ issues.getLast? = some issue ∧ issue.call.command = command) ∨
      (NotMade attempt issues ∧ outcome = .compileFailure attempt.pipeline.recipe.build) := by
  cases h with
  | notMade hnot => exact .inr ⟨hnot, rfl⟩
  | scan hcount hleaves => cases hcommand
  | identical hlocated hcame => cases hcommand
  | build hstatus hcame | buildTimeout hcame | run hstatus hcame | runTimeout hcame
  | runRefused hcame | compare hlocated hstatus hcame | compareTimeout hlocated hcame =>
      cases hcommand
      exact .inl (hcame.getLast (by decide))

theorem Passage.timeout_iff (h : Passage attempt issues marks result) (command : Option Command) :
    result = .ok (.ok (.timeout command)) ↔
      ∃ index call limit, Counts attempt index call ∧
        CameLast attempt issues index call (.timedOut limit) ∧ command = some call.command := by
  constructor
  · intro hresult
    cases h.origin hresult with
    | buildTimeout hcame => exact ⟨_, _, _, .build, hcame, rfl⟩
    | runTimeout hcame => exact ⟨_, _, _, .run, hcame, rfl⟩
    | compareTimeout hlocated hcame => exact ⟨_, _, _, .compare _, hcame, rfl⟩
  · rintro ⟨index, call, limit, hcounts, hcame, rfl⟩
    cases hcounts with
    | build => exact h.result_of_build hcame.came rfl
    | run => exact h.result_of_run hcame.came rfl
    | compare artifact => exact h.result_of_compare hcame.came

theorem Passage.blame (h : Passage attempt issues marks result) : Blame attempt issues result where
  success_iff := by
    constructor
    · intro hresult
      cases h.origin hresult with
      | identical hlocated hcame => exact ⟨_, hcame.came⟩
    · rintro ⟨artifact, hcame⟩
      exact h.result_of_compare hcame
  compileFailure_iff command := by
    constructor
    · intro hresult
      cases h.origin hresult with
      | notMade hnot => exact ⟨rfl, .inl hnot⟩
      | build hstatus hcame => exact ⟨rfl, .inr ⟨_, hstatus, hcame.came⟩⟩
    · rintro ⟨rfl, hnot | ⟨status, hstatus, hcame⟩⟩
      · exact h.result_of_notMade hnot
      · exact h.result_of_build hcame (by rw [buildProgress, if_neg hstatus])
  executionFailure_iff command status? := by
    constructor
    · intro hresult
      cases h.origin hresult with
      | run hstatus hcame => exact ⟨rfl, .inl ⟨_, hstatus, rfl, hcame.came⟩⟩
      | runRefused hcame => exact ⟨rfl, .inr ⟨_, _, rfl, hcame.came⟩⟩
    · rintro ⟨rfl, ⟨status, hstatus, rfl, hcame⟩ | ⟨program, detail, rfl, hcame⟩⟩
      · exact h.result_of_run hcame (by rw [runProgress, if_neg hstatus])
      · exact h.result_of_run hcame rfl
  timeout_iff := h.timeout_iff
  artifactPathError_iff directory count := by
    constructor
    · intro hresult
      cases h.origin hresult with
      | scan hcount hleaves => exact ⟨rfl, hleaves, hcount⟩
    · rintro ⟨rfl, hleaves, hcount⟩
      exact h.result_of_leaves hleaves hcount
  artifactMismatch_iff command := by
    constructor
    · intro hresult
      cases h.origin hresult with
      | compare hlocated hstatus hcame => exact ⟨_, _, hstatus, hlocated, rfl, hcame.came⟩
    · rintro ⟨artifact, status, hstatus, -, rfl, hcame⟩
      rw [h.result_of_compare hcame, compareResult, if_neg hstatus]
  fatal_iff _ := h.refusal_iff
  last _ _ hresult hcommand := (h.origin hresult).last hcommand

/-- Whatever the runner does, the command that is blamed is the one at which it came to an end, and it is blamed for
what it did. -/
theorem blame_process (pipeline : Pipeline) (submission : Submission) (runner : Runner ρ)
    (world : World ρ) :
    Blame ⟨pipeline, submission, runner, world.files, world.memory⟩
      ((pipeline.process submission).issues runner world)
      ((pipeline.process submission).run runner world).1 :=
  (passage_process pipeline submission runner world).blame

end Pipeline

end Assay
