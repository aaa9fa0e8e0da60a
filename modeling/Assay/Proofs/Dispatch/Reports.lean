import Assay.Dispatch
import Assay.Proofs.Batch.Along
import Assay.Proofs.Batch.Beside
import Assay.Proofs.Pipeline.Asks
import Assay.Proofs.Table
import Assay.Proofs.Task.Course

/-!
# What is reported of a batch

What the reporter is told is kept by a reporter that remembers it. It is only ever told something when a result is
taken, and then it is told one thing. So what it is told in a run can be read off the moves of the run, whatever
reporter it is. What has been gathered at any time is what has been reported until then.
-/

namespace Assay

/-- Passes on what it is told, and remembers all of it. -/
def Reporter.recorded {ρ : Type} (reporter : Reporter ρ) : Reporter (ρ × List (Submission × Outcome)) :=
  fun submission outcome world =>
    let (told, after) := reporter submission outcome world.forget
    (told, after.withMemory (after.memory, world.memory.2 ++ [(submission, outcome)]))

namespace Dispatcher

variable {ρ : Type}

/-- The outcome that a result is reported as. A result that ends the batch is not reported. -/
def reported? : Except Panic (Except Failure Outcome) → Option Outcome
  | .ok (.ok outcome) => some outcome
  | .ok (.error _) => none
  | .error _ => some brokenDown

/-- What the reporter is told in a move. -/
def report? (entry : Batch Submission (Except Failure Outcome) ResultSet ρ × Move) :
    Option (Submission × Outcome) :=
  match entry.2 with
  | .collect index =>
    match entry.1.pool.workers[index]? with
    | some ⟨submission, .finished result⟩ =>
      (reported? result).map fun outcome => (submission, outcome)
    | _ => none
  | _ => none

def reportsOf (past : List (Batch Submission (Except Failure Outcome) ResultSet ρ × Move)) :
    List (Submission × Outcome) :=
  past.filterMap report?

section Run

variable (dispatcher : Dispatcher) (runner : Runner ρ) (reporter : Reporter ρ) (schedule : Schedule)
  (submissions : List Submission) (world : World ρ)

def workOf : List (Submission × Task (Except Failure Outcome)) :=
  submissions.map fun submission => (submission, dispatcher.work submission)

def history : List (Batch Submission (Except Failure Outcome) ResultSet ρ × Move) :=
  Batch.history runner (collect reporter) schedule dispatcher.jobs (dispatcher.workOf submissions)
    .empty world

/-- The same run with a reporter that remembers what it is told. -/
def recorded : Result (ρ × List (Submission × Outcome)) :=
  dispatcher.run runner.beside reporter.recorded schedule submissions
    (world.withMemory (world.memory, []))

/-- What the reporter is told, one call after the other. -/
def reports : List (Submission × Outcome) :=
  (dispatcher.recorded runner reporter schedule submissions world).batch.world.memory.2

def start : Batch Submission (Except Failure Outcome) ResultSet ρ :=
  Batch.start dispatcher.jobs (dispatcher.workOf submissions) .empty world

end Run

variable {dispatcher : Dispatcher} {runner : Runner ρ} {reporter : Reporter ρ} {schedule : Schedule}
  {submissions : List Submission} {world : World ρ}

theorem reportsOf_append
    (past later : List (Batch Submission (Except Failure Outcome) ResultSet ρ × Move)) :
    reportsOf (past ++ later) = reportsOf past ++ reportsOf later :=
  List.filterMap_append

theorem reportsOf_collect {batch : Batch Submission (Except Failure Outcome) ResultSet ρ} {index : Nat}
    {submission : Submission} {result : Except Panic (Except Failure Outcome)}
    (hworker : batch.pool.workers[index]? = some ⟨submission, .finished result⟩) :
    reportsOf [(batch, .collect index)] =
      ((reported? result).map fun outcome => (submission, outcome)).toList := by
  rcases hreported : reported? result with _ | outcome <;> simp [reportsOf, report?, hworker, hreported]

/-- Taking a result that is reported is telling the reporter. -/
theorem take_of_reported {result : Except Panic (Except Failure Outcome)} {outcome : Outcome}
    (h : reported? result = some outcome) (reporter : Reporter ρ) (submission : Submission)
    (results : ResultSet) (world : World ρ) :
    take reporter submission result results world =
      settle reporter submission outcome results world := by
  rcases result with panic | failure | value <;> cases h <;> rfl

theorem take_of_not_reported {result : Except Panic (Except Failure Outcome)}
    (h : reported? result = none) :
    ∃ failure, result = .ok (.error failure) ∧
      ∀ (reporter : Reporter ρ) (submission : Submission) (results : ResultSet) (world : World ρ),
        (take reporter submission result results world).1 = .error failure := by
  rcases result with panic | failure | value
  · cases h
  · exact ⟨failure, rfl, fun _ _ _ _ => rfl⟩
  · cases h

theorem settle_eq (reporter : Reporter ρ) (submission : Submission) (outcome : Outcome)
    (results : ResultSet) (world : World ρ) :
    (settle reporter submission outcome results world).1 =
        ((reporter submission outcome world).1.map fun _ =>
          results.put submission.label outcome) ∧
      (settle reporter submission outcome results world).2.SameState
        (reporter submission outcome world).2 := by
  unfold settle
  rcases reporter submission outcome world with ⟨failure | _, after⟩
  · exact ⟨rfl, rfl, rfl⟩
  · refine ⟨rfl, ?_⟩
    dsimp only
    split <;> exact ⟨rfl, rfl⟩

/-! ### A reporter that remembers -/

variable (runner reporter schedule submissions world) in
theorem trail_run (hjobs : Pool.permits dispatcher.jobs ≤ Pool.maxPermits) :
    ∃ past last final,
      Batch.Trail runner (collect reporter) (dispatcher.start submissions world) past last ∧
      Batch.Close runner (collect reporter) last final
        (dispatcher.run runner reporter schedule submissions world) ∧
      dispatcher.history runner reporter schedule submissions world = past ++ final :=
  Batch.trail_run hjobs schedule _ _ _

theorem settle_recorded (reporter : Reporter ρ) (submission : Submission) (outcome : Outcome)
    (results : ResultSet) (world : World (ρ × List (Submission × Outcome))) :
    (settle reporter.recorded submission outcome results world).1 =
        (settle reporter submission outcome results world.forget).1 ∧
      (settle reporter.recorded submission outcome results world).2.forget =
        (settle reporter submission outcome results world.forget).2 ∧
      (settle reporter.recorded submission outcome results world).2.memory.2 =
        world.memory.2 ++ [(submission, outcome)] := by
  unfold settle Reporter.recorded
  rcases reporter submission outcome world.forget with ⟨failure | _, after⟩
  · exact ⟨rfl, rfl, rfl⟩
  · dsimp only
    split <;> exact ⟨rfl, rfl, rfl⟩

theorem covers_collect (reporter : Reporter ρ) :
    (collect reporter.recorded).Covers (collect reporter) where
  lament := rfl
  value submission result results world := by
    rcases result with panic | failure | outcome
    · exact (settle_recorded reporter submission brokenDown results world).1
    · rfl
    · exact (settle_recorded reporter submission outcome results world).1
  world submission result results world := by
    rcases result with panic | failure | outcome
    · exact (settle_recorded reporter submission brokenDown results world).2.1
    · rfl
    · exact (settle_recorded reporter submission outcome results world).2.1

theorem memory_take (reporter : Reporter ρ) (submission : Submission)
    (result : Except Panic (Except Failure Outcome)) (results : ResultSet)
    (world : World (ρ × List (Submission × Outcome))) :
    (take reporter.recorded submission result results world).2.memory.2 =
      world.memory.2 ++ ((reported? result).map fun outcome => (submission, outcome)).toList := by
  rcases result with panic | failure | outcome
  · exact (settle_recorded reporter submission brokenDown results world).2.2
  · exact (List.append_nil _).symm
  · exact (settle_recorded reporter submission outcome results world).2.2

theorem memory_of_step
    {batch next : Batch Submission (Except Failure Outcome) ResultSet (ρ × List (Submission × Outcome))}
    {move : Move} (h : Batch.Step runner.beside (collect reporter.recorded) batch move next) :
    next.world.memory.2 = batch.world.memory.2 ++ reportsOf [(batch, move)] := by
  cases h with
  | entered hworker hfree => exact (List.append_nil _).symm
  | ended hworker => exact (List.append_nil _).symm
  | @advanced index submission effect rest reply world hworker hperform =>
      have hmemory := effect.memory_perform_beside runner batch.world
      rw [hperform] at hmemory
      exact hmemory.trans (List.append_nil _).symm
  | @panicked index submission effect rest panic world hworker hperform =>
      have hmemory := effect.memory_perform_beside runner batch.world
      rw [hperform] at hmemory
      exact hmemory.trans (List.append_nil _).symm
  | @collected index submission result gathered world hworker hcollect =>
      have hmemory := memory_take reporter submission result batch.gathered batch.world
      rw [← take_collect, hcollect] at hmemory
      rw [hmemory, reportsOf_collect hworker]

theorem memory_of_make_stopped
    {batch stopped : Batch Submission (Except Failure Outcome) ResultSet (ρ × List (Submission × Outcome))}
    {move : Move} {failure : Failure}
    (h : batch.make runner.beside (collect reporter.recorded) move = .stopped failure stopped) :
    stopped.world.memory.2 = batch.world.memory.2 ++ reportsOf [(batch, move)] := by
  obtain ⟨index, submission, result, rfl, hworker, hfails⟩ := Batch.collect_of_make_stopped h
  rw [Batch.make_collect_failed hworker hfails] at h
  cases h
  rw [reportsOf_collect hworker]
  exact memory_take reporter submission result batch.gathered batch.world

theorem memory_of_trail
    {first last : Batch Submission (Except Failure Outcome) ResultSet (ρ × List (Submission × Outcome))}
    {past : List (Batch Submission (Except Failure Outcome) ResultSet (ρ × List (Submission × Outcome)) × Move)}
    (h : Batch.Trail runner.beside (collect reporter.recorded) first past last) :
    last.world.memory.2 = first.world.memory.2 ++ reportsOf past := by
  refine h.invariant (fun past batch => batch.world.memory.2 = first.world.memory.2 ++ reportsOf past) []
    (List.append_nil _).symm fun past batch move next _ hpast hstep => ?_
  rw [memory_of_step hstep, hpast, reportsOf_append, List.append_assoc]

/-- What a run adds to what the reporter remembers is read off its moves. -/
theorem memory_run (schedule : Schedule) (submissions : List Submission)
    (world : World (ρ × List (Submission × Outcome))) :
    (dispatcher.run runner.beside reporter.recorded schedule submissions world).batch.world.memory.2 =
      world.memory.2 ++
        reportsOf (dispatcher.history runner.beside reporter.recorded schedule submissions world) := by
  by_cases hjobs : Pool.permits dispatcher.jobs ≤ Pool.maxPermits
  · obtain ⟨past, last, final, htrail, hclose, hhistory⟩ :=
      trail_run runner.beside reporter.recorded schedule submissions world hjobs
    have hpast : last.world.memory.2 = world.memory.2 ++ reportsOf past := memory_of_trail htrail
    rw [hhistory, reportsOf_append, ← List.append_assoc, ← hpast]
    generalize dispatcher.run runner.beside reporter.recorded schedule submissions world = result at hclose
    cases hclose with
    | exhausted hmoves => exact (List.append_nil _).symm
    | stopped hmove hmake => exact memory_of_make_stopped hmake
  · simp only [run, Batch.run, history, Batch.history, Pool.start, if_pos (Nat.not_le.mp hjobs)]
    exact (List.append_nil _).symm

variable (dispatcher runner reporter schedule submissions world) in
/-- That the reporter remembers what it is told makes no difference to the run. -/
theorem run_recorded :
    dispatcher.run runner reporter schedule submissions world =
        (dispatcher.recorded runner reporter schedule submissions world).forget ∧
      dispatcher.history runner reporter schedule submissions world =
        (dispatcher.history runner.beside reporter.recorded schedule submissions
          (world.withMemory (world.memory, []))).map Batch.forgetEntry :=
  Batch.run_forget (covers_collect reporter) schedule dispatcher.jobs
    (dispatcher.workOf submissions) .empty (world.withMemory (world.memory, []))

/-- What the reporter is told can be read off the moves of the run. -/
theorem reports_eq :
    dispatcher.reports runner reporter schedule submissions world =
      reportsOf (dispatcher.history runner reporter schedule submissions world) := by
  obtain ⟨_, hhistory⟩ := run_recorded dispatcher runner reporter schedule submissions world
  rw [reports, recorded, memory_run, hhistory, reportsOf, reportsOf, List.filterMap_map]
  rfl

/-- What happens where a result is taken and the batch goes on. -/
structure Taken (reporter : Reporter ρ)
    (batch next : Batch Submission (Except Failure Outcome) ResultSet ρ) (index : Nat)
    (submission : Submission) (result : Except Panic (Except Failure Outcome)) (outcome : Outcome) :
    Prop where
  worker : batch.pool.workers[index]? = some ⟨submission, .finished result⟩
  reported : reported? result = some outcome
  told : (reporter submission outcome batch.world).1 = .ok ()
  after : next.world.SameState (reporter submission outcome batch.world).2
  gathered : next.gathered = batch.gathered.put submission.label outcome
  pool : next.pool = batch.pool.setPhase index .collected

theorem taken_of_step {batch next : Batch Submission (Except Failure Outcome) ResultSet ρ}
    {index : Nat} (h : Batch.Step runner (collect reporter) batch (.collect index) next) :
    ∃ submission result outcome, Taken reporter batch next index submission result outcome := by
  cases h with
  | @collected _ submission result gathered after hworker hcollect =>
      have htake : take reporter submission result batch.gathered batch.world = (.ok gathered, after) :=
        hcollect
      cases hreported : reported? result with
      | none =>
          obtain ⟨failure, _, hfails⟩ := take_of_not_reported hreported
          have hfail := hfails reporter submission batch.gathered batch.world
          rw [htake] at hfail
          cases hfail
      | some outcome =>
          obtain ⟨hvalue, hafter⟩ := settle_eq reporter submission outcome batch.gathered batch.world
          rw [← take_of_reported hreported, htake] at hvalue hafter
          rcases htold : (reporter submission outcome batch.world).1 with failure | _ <;>
            rw [htold] at hvalue <;> cases hvalue
          exact ⟨submission, result, outcome,
            { worker := hworker, reported := hreported, told := htold, after := hafter
              gathered := rfl, pool := rfl }⟩

theorem Taken.report?_eq {batch next : Batch Submission (Except Failure Outcome) ResultSet ρ}
    {index : Nat} {submission : Submission} {result : Except Panic (Except Failure Outcome)}
    {outcome : Outcome} (h : Taken reporter batch next index submission result outcome) :
    report? (batch, .collect index) = some (submission, outcome) := by
  simp [report?, h.worker, h.reported]

/-- What has been gathered is what has been reported, the later outcome of a label in place of the
earlier one. -/
theorem gathered_eq {past : List (Batch Submission (Except Failure Outcome) ResultSet ρ × Move)}
    {last : Batch Submission (Except Failure Outcome) ResultSet ρ}
    (h : Batch.Trail runner (collect reporter) (dispatcher.start submissions world) past last) :
    last.gathered =
      Table.empty.putAll ((reportsOf past).map fun report => (report.1.label, report.2)) := by
  refine h.invariant (fun past batch => batch.gathered =
    Table.empty.putAll ((reportsOf past).map fun report => (report.1.label, report.2))) [] rfl ?_
  intro past batch move next _ hgathered hstep
  rw [reportsOf_append, List.map_append, Table.putAll_append, ← hgathered]
  cases move with
  | enter index =>
      cases hstep
      rfl
  | advance index =>
      have hsame : next.gathered = batch.gathered := by
        cases hstep <;> rfl
      rw [hsame]
      rfl
  | collect index =>
      obtain ⟨submission, result, outcome, htaken⟩ := taken_of_step hstep
      rw [htaken.gathered, reportsOf, List.filterMap_cons, htaken.report?_eq]
      rfl

theorem trail_of_stop_eq_none
    (h : (dispatcher.run runner reporter schedule submissions world).stop = none) :
    Batch.Trail runner (collect reporter) (dispatcher.start submissions world)
        (dispatcher.history runner reporter schedule submissions world)
        (dispatcher.run runner reporter schedule submissions world).batch ∧
      (dispatcher.run runner reporter schedule submissions world).batch.pool.moves = [] :=
  Batch.trail_of_run_stop_eq_none h

theorem trail_of_stop_eq_some (hjobs : Pool.permits dispatcher.jobs ≤ Pool.maxPermits)
    {stop : Batch.Stop}
    (h : (dispatcher.run runner reporter schedule submissions world).stop = some stop) :
    ∃ past last move failure,
      Batch.Trail runner (collect reporter) (dispatcher.start submissions world) past last ∧
      last.make runner (collect reporter) move =
        .stopped failure (dispatcher.run runner reporter schedule submissions world).batch ∧
      dispatcher.history runner reporter schedule submissions world = past ++ [(last, move)] ∧
      stop = .failed failure :=
  Batch.trail_of_run_stop_eq_some hjobs h

theorem along_start (dispatcher : Dispatcher) (submissions : List Submission) (world : World ρ)
    (named : Submission → RawText → Prop) :
    (dispatcher.start submissions world).pool.Along dispatcher.pipeline.Asks
      (fun submission => dispatcher.pipeline.Finds (named submission))
      fun submission result => ∀ outcome, result = .ok outcome →
        dispatcher.pipeline.Blames submission (named submission) outcome := by
  refine Batch.along_start fun submission task hmem => ?_
  obtain ⟨other, _, heq⟩ := List.mem_map.mp hmem
  cases heq
  exact Task.along_bind (Task.along_ask (.note _)) fun _ _ =>
    Pipeline.along_process dispatcher.pipeline submission (named submission)

theorem jobs_start (dispatcher : Dispatcher) (submissions : List Submission) (world : World ρ) :
    (dispatcher.start submissions world).pool.workers.map Worker.job = submissions := by
  simp [start, Batch.start, workOf, List.map_map, Function.comp_def]

theorem mem_of_mem_reportsOf
    {past : List (Batch Submission (Except Failure Outcome) ResultSet ρ × Move)}
    {first last : Batch Submission (Except Failure Outcome) ResultSet ρ}
    (h : Batch.Trail runner (collect reporter) first past last)
    {report : Submission × Outcome} (hmem : report ∈ reportsOf past) :
    report.1 ∈ first.pool.workers.map Worker.job := by
  obtain ⟨⟨batch, move⟩, hentry, hreport⟩ := List.mem_filterMap.mp hmem
  rw [← h.jobs_eq.2 _ hentry]
  unfold report? at hreport
  split at hreport
  · split at hreport
    · next hworker =>
      obtain ⟨outcome, _, rfl⟩ := Option.map_eq_some_iff.mp hreport
      exact List.mem_map.mpr ⟨_, List.mem_of_getElem? hworker, rfl⟩
    · cases hreport
  · cases hreport

/-- The names among which an artifact is chosen in this move, each with the submission it is chosen for. -/
def candidates (suffix : String)
    (entry : Batch Submission (Except Failure Outcome) ResultSet ρ × Move) :
    List (Submission × RawText) :=
  match entry.2 with
  | .advance index =>
    match entry.1.pool.workers[index]? with
    | some ⟨submission, .active (.perform (.listFiles directory) _)⟩ =>
      (Artifact.candidates entry.1.world.files directory suffix).map fun name => (submission, name)
    | _ => []
  | _ => []

theorem mem_of_mem_candidates
    {past : List (Batch Submission (Except Failure Outcome) ResultSet ρ × Move)}
    {first last : Batch Submission (Except Failure Outcome) ResultSet ρ}
    (h : Batch.Trail runner (collect reporter) first past last) {suffix : String} {name : RawText}
    {entry : Batch Submission (Except Failure Outcome) ResultSet ρ × Move} (hentry : entry ∈ past)
    {submission : Submission} (hmem : (submission, name) ∈ candidates suffix entry) :
    submission ∈ first.pool.workers.map Worker.job := by
  rw [← h.jobs_eq.2 _ hentry]
  unfold candidates at hmem
  split at hmem
  · split at hmem
    · next hworker =>
      obtain ⟨_, _, heq⟩ := List.mem_map.mp hmem
      cases heq
      exact List.mem_map.mpr ⟨_, List.mem_of_getElem? hworker, rfl⟩
    · cases hmem
  · cases hmem

theorem finds_of_candidates {named : Submission → RawText → Prop}
    {batch : Batch Submission (Except Failure Outcome) ResultSet ρ} {move : Move}
    (hfound : ∀ submission name,
      (submission, name) ∈ candidates dispatcher.pipeline.artifactSuffix (batch, move) →
        named submission name)
    {index : Nat} {submission : Submission} {effect : Effect}
    {rest : effect.Reply → Task (Except Failure Outcome)} {reply : effect.Reply}
    (hmove : move = .advance index)
    (hworker : batch.pool.workers[index]? = some ⟨submission, .active (.perform effect rest)⟩)
    (hreply : (effect.perform runner batch.world).1 = .ok reply) :
    dispatcher.pipeline.Finds (named submission) effect reply := by
  subst hmove
  cases effect with
  | listFiles directory =>
      cases reply with
      | error fault => trivial
      | ok names =>
          have hlisted : batch.world.files.listFiles batch.world.files.directory directory =
            .ok names := Except.ok.inj hreply
          intro name hname hsuffix
          apply hfound submission name
          simp only [candidates, hworker, Artifact.candidates, hlisted]
          exact List.mem_map.mpr ⟨name, List.mem_filter.mpr ⟨hname, hsuffix⟩, rfl⟩
  | _ => trivial

/-- What is reported blames a command of the configuration, or a comparison with a file that was found. -/
theorem blames_of_trail {named : Submission → RawText → Prop}
    {past : List (Batch Submission (Except Failure Outcome) ResultSet ρ × Move)}
    {last : Batch Submission (Except Failure Outcome) ResultSet ρ}
    (h : Batch.Trail runner (collect reporter) (dispatcher.start submissions world) past last)
    (hfound : ∀ entry ∈ past, ∀ submission name,
      (submission, name) ∈ candidates dispatcher.pipeline.artifactSuffix entry →
        named submission name) :
    ∀ report ∈ reportsOf past,
      dispatcher.pipeline.Blames report.1 (named report.1) report.2 := by
  have hend := h.invariant (fun past batch =>
    batch.pool.Along dispatcher.pipeline.Asks
      (fun submission => dispatcher.pipeline.Finds (named submission))
      (fun submission result => ∀ outcome, result = .ok outcome →
        dispatcher.pipeline.Blames submission (named submission) outcome) ∧
    ∀ report ∈ reportsOf past, dispatcher.pipeline.Blames report.1 (named report.1) report.2) []
    ⟨along_start dispatcher submissions world named, fun _ hmem => nomatch hmem⟩ ?_
  · exact hend.2
  rintro past batch move next hmem ⟨halong, hblames⟩ hstep
  refine ⟨hstep.along halong fun index submission effect rest reply hmove hworker hreply =>
    finds_of_candidates (hfound _ hmem) hmove hworker hreply, ?_⟩
  rw [reportsOf_append]
  intro report hreport
  rcases List.mem_append.mp hreport with hold | hnew
  · exact hblames report hold
  cases move with
  | enter index => cases hnew
  | advance index => cases hnew
  | collect index =>
      obtain ⟨submission, result, outcome, htaken⟩ := taken_of_step hstep
      rw [reportsOf, List.filterMap_cons, htaken.report?_eq] at hnew
      obtain rfl := List.mem_singleton.mp hnew
      have hyields := halong index submission _ htaken.worker
      have hreported := htaken.reported
      rcases result with panic | failure | value
      · cases hreported
        exact .nobody rfl
      · cases hreported
      · cases hreported
        exact hyields _ rfl _ rfl

end Dispatcher

end Assay
