import Assay.Proofs.Batch.OneByOne
import Assay.Proofs.Dispatch.Isolation
import Assay.Proofs.Pipeline.Launch
import Mathlib.Data.List.Perm.Subperm

/-!
# How a batch is aborted

Two things end a batch early: a submission that comes to a failure instead of an outcome, and a report that does not
go through. Where submissions are apart, it is known beforehand who comes to a failure, since everybody comes to the
same together as alone. Whatever has been reported by then was reported once and is right, and with one permit it is
known, too, with whose failure the batch ends.
-/

namespace Assay

namespace Dispatcher

variable {ρ : Type}

/-- What a failure to collect a result is due to: there is no outcome to report, or the reporter fails. -/
inductive Cause (reporter : Reporter ρ) (world : World ρ) (submission : Submission) :
    Except Panic (Except Failure Outcome) → Failure → Prop
  | fatal (failure : Failure) : Cause reporter world submission (.ok (.error failure)) failure
  | report {result : Except Panic (Except Failure Outcome)} {outcome : Outcome} {failure : Failure}
      (hreported : reported? result = some outcome)
      (hfails : (reporter submission outcome world).1 = .error failure) :
      Cause reporter world submission result failure

theorem take_eq_error_iff {reporter : Reporter ρ} {submission : Submission}
    {result : Except Panic (Except Failure Outcome)} {results : ResultSet} {world : World ρ}
    {failure : Failure} :
    (take reporter submission result results world).1 = .error failure ↔
      Cause reporter world submission result failure := by
  cases hreported : reported? result with
  | none =>
      obtain ⟨found, rfl, hfails⟩ := take_of_not_reported (ρ := ρ) hreported
      rw [hfails reporter submission results world]
      constructor
      · rintro ⟨⟩
        exact .fatal failure
      · rintro (_ | ⟨hsome, _⟩)
        · rfl
        · cases hsome
  | some outcome =>
      rw [take_of_reported hreported, (settle_eq reporter submission outcome results _).1]
      constructor
      · intro hfails
        apply Cause.report hreported
        rcases htold : (reporter submission outcome world).1 with found | _ <;>
          rw [htold] at hfails <;> cases hfails
        rfl
      · rintro (_ | ⟨hsome, hfails⟩)
        · cases hreported
        · obtain rfl := Option.some.inj (hreported.symm.trans hsome)
          rw [hfails]
          rfl

/-- In this move the reporter is told of the submission, and fails. -/
inductive ReportFails (reporter : Reporter ρ) :
    Batch Submission (Except Failure Outcome) ResultSet ρ × Move → Submission → Failure → Prop
  | intro {batch : Batch Submission (Except Failure Outcome) ResultSet ρ} {index : Nat}
      {submission : Submission} {result : Except Panic (Except Failure Outcome)} {outcome : Outcome}
      {failure : Failure}
      (hworker : batch.pool.workers[index]? = some ⟨submission, .finished result⟩)
      (hreported : reported? result = some outcome)
      (hfails : (reporter submission outcome batch.world).1 = .error failure) :
      ReportFails reporter (batch, .collect index) submission failure

section Abort

variable (dispatcher : Dispatcher) (runner : Runner ρ) (reporter : Reporter ρ) (schedule : Schedule)
  (submissions : List Submission) (world : World ρ)

/-- The failure is that of this submission, alone or in its report, and whoever comes before it was reported. -/
structure Foremost (failure : Failure) (before : List Submission) (submission : Submission) :
    Prop where
  sound : ∀ earlier ∈ before, ∀ other, dispatcher.alone runner world earlier ≠ .ok (.error other)
  blamed :
    (dispatcher.alone runner world submission = .ok (.error failure) ∧
      (dispatcher.reports runner reporter schedule submissions world).map Prod.fst = before) ∨
    ((∃ entry ∈ dispatcher.history runner reporter schedule submissions world,
        ReportFails reporter entry submission failure) ∧
      (dispatcher.reports runner reporter schedule submissions world).map Prod.fst =
        before ++ [submission])

/-- What is known of a batch that was aborted with this failure. -/
structure Aborted (failure : Failure) : Prop where
  blamed : (∃ submission ∈ submissions,
      dispatcher.alone runner world submission = .ok (.error failure)) ∨
    ∃ entry ∈ dispatcher.history runner reporter schedule submissions world, ∃ submission,
      ReportFails reporter entry submission failure
  last : ∃ past batch move,
    dispatcher.history runner reporter schedule submissions world = past ++ [(batch, move)] ∧
    batch.make runner (collect reporter) move =
      .stopped failure (dispatcher.run runner reporter schedule submissions world).batch
  once : ((dispatcher.reports runner reporter schedule submissions world).map Prod.fst).Subperm
    submissions
  own : ∀ report ∈ dispatcher.reports runner reporter schedule submissions world,
    reported? (dispatcher.alone runner world report.1) = some report.2
  unheard : ∀ submission failure, dispatcher.alone runner world submission = .ok (.error failure) →
    submission ∉ (dispatcher.reports runner reporter schedule submissions world).map Prod.fst
  foremost : dispatcher.jobs ≤ 1 →
    Batch.InTurn runner (dispatcher.history runner reporter schedule submissions world) →
    ∃ before submission after, submissions = before ++ submission :: after ∧
      Foremost dispatcher runner reporter schedule submissions world failure before submission

/-- The moves of a batch that fails: those that go through, and the one that does not. -/
structure Halt (past : List (Batch Submission (Except Failure Outcome) ResultSet ρ × Move))
    (last : Batch Submission (Except Failure Outcome) ResultSet ρ) (index : Nat)
    (submission : Submission) (result : Except Panic (Except Failure Outcome)) (failure : Failure) :
    Prop where
  trail : Batch.Trail runner (collect reporter) (dispatcher.start submissions world) past last
  worker : last.pool.workers[index]? = some ⟨submission, .finished result⟩
  cause : Cause reporter last.world submission result failure
  made : last.make runner (collect reporter) (.collect index) =
    .stopped failure (dispatcher.run runner reporter schedule submissions world).batch
  history : dispatcher.history runner reporter schedule submissions world =
    past ++ [(last, .collect index)]

end Abort

variable {layout : Layout} {dispatcher : Dispatcher} {runner : Runner ρ} {reporter : Reporter ρ}
  {schedule : Schedule} {submissions : List Submission} {world : World ρ}

theorem halt_of_stop (hjobs : Pool.permits dispatcher.jobs ≤ Pool.maxPermits) {stop : Batch.Stop}
    (h : (dispatcher.run runner reporter schedule submissions world).stop = some stop) :
    ∃ past last index submission result failure, stop = .failed failure ∧
      Halt dispatcher runner reporter schedule submissions world past last index submission result
        failure := by
  obtain ⟨past, last, move, failure, htrail, hmake, hhistory, hstop⟩ := trail_of_stop_eq_some hjobs h
  obtain ⟨index, submission, result, rfl, hworker, hfails⟩ := Batch.collect_of_make_stopped hmake
  exact ⟨past, last, index, submission, result, failure, hstop, htrail, hworker,
    take_eq_error_iff.mp hfails, hmake, hhistory⟩

/-- A report that fails is not followed by another move. -/
theorem not_reportFails_of_step {batch next : Batch Submission (Except Failure Outcome) ResultSet ρ}
    {move : Move} (hstep : Batch.Step runner (collect reporter) batch move next)
    (submission : Submission) (failure : Failure) :
    ¬ ReportFails reporter (batch, move) submission failure := by
  rintro ⟨hworker, hreported, hfails⟩
  cases hstep with
  | collected hother hcollect =>
      rw [hworker] at hother
      cases hother
      have herror : (take reporter submission _ batch.gathered batch.world).1 = .error failure :=
        take_eq_error_iff.mpr (.report hreported hfails)
      rw [← take_collect, hcollect] at herror
      cases herror

/-- Where a report that goes through is not seen by anybody, everybody follows their shadow up to the end. -/
theorem shadowed_of_history (h : Apart layout dispatcher runner submissions)
    (hstays : ∀ submission ∈ submissions, dispatcher.StaysHome layout runner world submission)
    (hunseen : ∀ entry ∈ dispatcher.history runner reporter schedule submissions world,
      (∀ submission failure, ¬ ReportFails reporter entry submission failure) →
        Unseen layout reporter submissions entry)
    {past : List (Batch Submission (Except Failure Outcome) ResultSet ρ × Move)}
    {last : Batch Submission (Except Failure Outcome) ResultSet ρ}
    (htrail : Batch.Trail runner (collect reporter) (dispatcher.start submissions world) past last)
    (hpast : ∀ entry ∈ past, entry ∈ dispatcher.history runner reporter schedule submissions world) :
    Shadowed layout dispatcher runner submissions world past last := by
  refine shadowed_of_trail h hstays htrail fun entry hentry => ?_
  obtain ⟨next, hstep⟩ := htrail.step_of_mem hentry
  exact hunseen entry (hpast entry hentry) (not_reportFails_of_step hstep)

/-- Whoever is reported, and as what they come to alone, comes to an outcome. -/
theorem not_mem_of_fatal {reports : List (Submission × Outcome)}
    (hown : ∀ report ∈ reports,
      reported? (dispatcher.alone runner world report.1) = some report.2)
    {submission : Submission} {failure : Failure}
    (hfatal : dispatcher.alone runner world submission = .ok (.error failure)) :
    submission ∉ reports.map Prod.fst := by
  intro hmem
  obtain ⟨report, hreport, rfl⟩ := List.mem_map.mp hmem
  have hreported := hown report hreport
  rw [hfatal] at hreported
  cases hreported

/-- What was reported by then is what was collected, in the same order. -/
theorem reports_eq_collected {past : List (Batch Submission (Except Failure Outcome) ResultSet ρ × Move)}
    {last : Batch Submission (Except Failure Outcome) ResultSet ρ}
    (h : Batch.Trail runner (collect reporter) (dispatcher.start submissions world) past last) :
    (reportsOf past).map Prod.fst =
      (past.filterMap Batch.collected?).filterMap fun index => submissions[index]? := by
  refine (h.invariant (fun past batch => batch.pool.workers.map Worker.job = submissions ∧
    (reportsOf past).map Prod.fst =
      (past.filterMap Batch.collected?).filterMap fun index => submissions[index]?) []
    ⟨jobs_start dispatcher submissions world, rfl⟩ ?_).2
  rintro past batch move next - ⟨hjobs, hreports⟩ hstep
  refine ⟨hstep.jobs_eq.trans hjobs, ?_⟩
  rw [reportsOf_append, List.map_append, hreports, List.filterMap_append, List.filterMap_append]
  apply congrArg
  cases move with
  | enter index => rfl
  | advance index => rfl
  | collect index =>
      obtain ⟨submission, result, outcome, htaken⟩ := taken_of_step hstep
      have hjob : submissions[index]? = some submission := by
        rw [← hjobs, List.getElem?_map, htaken.worker]
        rfl
      simp [reportsOf, htaken.report?_eq, Batch.collected?, hjob]

theorem filterMap_getElem?_range {α : Type} (list : List α) (count : Nat) :
    (List.range count).filterMap (fun index => list[index]?) = list.take count := by
  induction count with
  | zero => rfl
  | succ count ih =>
      rw [List.range_succ, List.filterMap_append, ih, List.take_add_one]
      apply congrArg
      rcases hvalue : list[count]? with _ | value <;> simp [hvalue]

section Halt

variable {past : List (Batch Submission (Except Failure Outcome) ResultSet ρ × Move)}
  {last : Batch Submission (Except Failure Outcome) ResultSet ρ} {index : Nat}
  {submission : Submission} {result : Except Panic (Except Failure Outcome)} {failure : Failure}
  (h : Halt dispatcher runner reporter schedule submissions world past last index submission result
    failure)

include h

theorem Halt.reports_eq :
    dispatcher.reports runner reporter schedule submissions world =
      reportsOf past ++ ((reported? result).map fun outcome => (submission, outcome)).toList := by
  rw [dispatcher.reports_eq, h.history, reportsOf_append, reportsOf_collect h.worker]

theorem Halt.jobs_eq : last.pool.workers.map Worker.job = submissions :=
  h.trail.jobs_eq.1.trans (jobs_start dispatcher submissions world)

theorem Halt.mem_history :
    (last, .collect index) ∈ dispatcher.history runner reporter schedule submissions world := by
  rw [h.history]
  exact List.mem_append_right _ (List.mem_singleton_self _)

theorem Halt.getElem?_eq : submissions[index]? = some submission := by
  rw [← h.jobs_eq, List.getElem?_map, h.worker]
  rfl

/-- The one whose result is taken last has not been reported yet. -/
theorem Halt.subperm : (submission :: (reportsOf past).map Prod.fst).Subperm submissions := by
  have htaken := Pool.collectedJobs_setPhase h.worker rfl .collected
  have hperm : (submission :: (reportsOf past).map Prod.fst).Perm
      (last.pool.setPhase index .collected).collectedJobs :=
    ((reports_perm_collectedJobs h.trail).cons submission).trans htaken.symm
  have hjobs : (last.pool.setPhase index .collected).workers.map Worker.job = submissions :=
    (Pool.jobs_setPhase _ _ _).trans h.jobs_eq
  rw [hperm.subperm_right, ← hjobs]
  exact (List.filter_sublist.map Worker.job).subperm

/-- Whose fault it is: that of the submission, which is fatal alone as well, or that of its report. -/
theorem Halt.blamed (hshadowed : Shadowed layout dispatcher runner submissions world past last) :
    (dispatcher.alone runner world submission = .ok (.error failure) ∧
      dispatcher.reports runner reporter schedule submissions world = reportsOf past) ∨
    ∃ outcome, reported? (dispatcher.alone runner world submission) = some outcome ∧
      (∃ entry ∈ dispatcher.history runner reporter schedule submissions world,
        ReportFails reporter entry submission failure) ∧
      dispatcher.reports runner reporter schedule submissions world =
        reportsOf past ++ [(submission, outcome)] := by
  have halone : dispatcher.alone runner world submission = result :=
    hshadowed.shadows index submission _ h.worker
  have hreports := h.reports_eq
  rw [halone]
  cases h.cause with
  | fatal =>
      rw [hreports]
      exact .inl ⟨rfl, List.append_nil _⟩
  | @report _ outcome _ hreported hfails =>
      rw [hreported] at hreports
      exact .inr ⟨outcome, hreported, ⟨_, h.mem_history, .intro h.worker hreported hfails⟩, hreports⟩

theorem Halt.own (hshadowed : Shadowed layout dispatcher runner submissions world past last) :
    ∀ report ∈ dispatcher.reports runner reporter schedule submissions world,
      reported? (dispatcher.alone runner world report.1) = some report.2 := by
  intro report hreport
  rcases h.blamed hshadowed with ⟨_, hreports⟩ | ⟨outcome, houtcome, _, hreports⟩ <;>
    rw [hreports] at hreport
  · exact hshadowed.reports report hreport
  · rcases List.mem_append.mp hreport with hearlier | hlast
    · exact hshadowed.reports report hearlier
    · rw [List.mem_singleton.mp hlast]
      exact houtcome

theorem Halt.foremost
    (hshadowed : Shadowed layout dispatcher runner submissions world past last)
    (hjobs : dispatcher.jobs ≤ 1)
    (hturn : Batch.InTurn runner (dispatcher.history runner reporter schedule submissions world)) :
    ∃ before submission after, submissions = before ++ submission :: after ∧
      Foremost dispatcher runner reporter schedule submissions world failure before submission := by
  rw [h.history] at hturn
  have hcollected := hturn.collected_eq_range h.trail (Nat.max_eq_right hjobs)
  -- Everybody before this one was reported, and nobody else.
  have hbefore : (reportsOf past).map Prod.fst = submissions.take index := by
    rw [reports_eq_collected h.trail, hcollected, filterMap_getElem?_range]
  obtain ⟨hlength, hsubmission⟩ := List.getElem?_eq_some_iff.mp h.getElem?_eq
  refine ⟨submissions.take index, submission, submissions.drop (index + 1), ?_, ?_, ?_⟩
  · rw [← hsubmission, ← List.drop_eq_getElem_cons hlength, List.take_append_drop]
  · intro earlier hearlier other hfatal
    rw [← hbefore] at hearlier
    exact not_mem_of_fatal hshadowed.reports hfatal hearlier
  · rcases h.blamed hshadowed with ⟨hfatal, hreports⟩ | ⟨outcome, _, hfails, hreports⟩ <;>
      rw [hreports]
    · exact .inl ⟨hfatal, hbefore⟩
    · rw [List.map_append, hbefore]
      exact .inr ⟨hfails, rfl⟩

theorem Halt.aborted (hshadowed : Shadowed layout dispatcher runner submissions world past last) :
    Aborted dispatcher runner reporter schedule submissions world failure where
  blamed := by
    rcases h.blamed hshadowed with ⟨hfatal, _⟩ | ⟨_, _, ⟨entry, hentry, hfails⟩, _⟩
    · exact .inl ⟨submission, hshadowed.mem h.worker, hfatal⟩
    · exact .inr ⟨entry, hentry, submission, hfails⟩
  last := ⟨past, last, .collect index, h.history, h.made⟩
  once := by
    rcases h.blamed hshadowed with ⟨_, hreports⟩ | ⟨_, _, _, hreports⟩ <;> rw [hreports]
    · exact (List.sublist_cons_self _ _).subperm.trans h.subperm
    · rw [List.map_append]
      exact (List.perm_append_singleton _ _).subperm.trans h.subperm
  own := h.own hshadowed
  unheard _ _ hfatal := not_mem_of_fatal (h.own hshadowed) hfatal
  foremost := h.foremost hshadowed

end Halt

/-- A batch that comes to its end has reported everybody, so nobody was fatal and no report failed. -/
theorem sound_of_stop_eq_none (h : Apart layout dispatcher runner submissions)
    (hstays : ∀ submission ∈ submissions, dispatcher.StaysHome layout runner world submission)
    (hunseen : ∀ entry ∈ dispatcher.history runner reporter schedule submissions world,
      (∀ submission failure, ¬ ReportFails reporter entry submission failure) →
        Unseen layout reporter submissions entry)
    (hstop : (dispatcher.run runner reporter schedule submissions world).stop = none) :
    (∀ submission ∈ submissions, ∀ failure,
      dispatcher.alone runner world submission ≠ .ok (.error failure)) ∧
    ∀ entry ∈ dispatcher.history runner reporter schedule submissions world,
      ∀ submission failure, ¬ ReportFails reporter entry submission failure := by
  obtain ⟨htrail, _⟩ := trail_of_stop_eq_none hstop
  have hshadowed := shadowed_of_history h hstays hunseen htrail fun _ hentry => hentry
  constructor
  · intro submission hmem failure hfatal
    rw [← (reports_perm hstop).mem_iff, reports_eq] at hmem
    exact not_mem_of_fatal hshadowed.reports hfatal hmem
  · intro entry hentry
    obtain ⟨next, hstep⟩ := htrail.step_of_mem hentry
    exact not_reportFails_of_step hstep

/-- Submissions that are apart fail together because one of them fails alone, or because a report does not go
through. Whoever is reported until then is reported once and with the outcome that they come to alone. -/
theorem fails_as_alone (h : Apart layout dispatcher runner submissions)
    (hstays : ∀ submission ∈ submissions, dispatcher.StaysHome layout runner world submission)
    (hunseen : ∀ entry ∈ dispatcher.history runner reporter schedule submissions world,
      (∀ submission failure, ¬ ReportFails reporter entry submission failure) →
        Unseen layout reporter submissions entry)
    (hjobs : Pool.permits dispatcher.jobs ≤ Pool.maxPermits) :
    let result := dispatcher.run runner reporter schedule submissions world
    (∀ submission failure,
      dispatcher.alone runner world submission = .ok (.error failure) ↔
        ∃ program detail, failure = .launch program detail ∧
          Pipeline.Attempt.Refused
            ⟨dispatcher.pipeline, submission, runner, world.files, world.memory⟩ program detail) ∧
      ((∃ stop, result.stop = some stop) ↔
        (∃ submission ∈ submissions, ∃ failure,
            dispatcher.alone runner world submission = .ok (.error failure)) ∨
          ∃ entry ∈ dispatcher.history runner reporter schedule submissions world,
            ∃ submission failure, ReportFails reporter entry submission failure) ∧
      ∀ stop, result.stop = some stop → ∃ failure, stop = .failed failure ∧
        Aborted dispatcher runner reporter schedule submissions world failure := by
  intro result
  have haborted : ∀ stop, result.stop = some stop → ∃ failure, stop = .failed failure ∧
      Aborted dispatcher runner reporter schedule submissions world failure := by
    intro stop hstop
    obtain ⟨past, last, index, submission, found, failure, hfailed, hhalt⟩ := halt_of_stop hjobs hstop
    have hshadowed := shadowed_of_history h hstays hunseen hhalt.trail fun entry hentry => by
      rw [hhalt.history]
      exact List.mem_append_left _ hentry
    exact ⟨failure, hfailed, hhalt.aborted hshadowed⟩
  refine ⟨fun submission => Pipeline.process_fatal_iff _ _ _ _, ⟨?_, ?_⟩, haborted⟩
  · rintro ⟨stop, hstop⟩
    obtain ⟨failure, _, hfailure⟩ := haborted stop hstop
    rcases hfailure.blamed with ⟨submission, hmem, hfatal⟩ | ⟨entry, hentry, submission, hfails⟩
    · exact .inl ⟨submission, hmem, failure, hfatal⟩
    · exact .inr ⟨entry, hentry, submission, failure, hfails⟩
  · intro hfails
    apply Option.ne_none_iff_exists'.mp
    intro hnone
    obtain ⟨hsound, hgood⟩ := sound_of_stop_eq_none h hstays hunseen hnone
    rcases hfails with ⟨submission, hmem, failure, hfatal⟩ | ⟨entry, hentry, submission, failure, hfail⟩
    · exact hsound submission hmem failure hfatal
    · exact hgood entry hentry submission failure hfail

/-! ### With and without a link -/

/-- One program cannot be launched in one directory. -/
def refusing (program : String) (directory : Path) : Runner Unit := fun call files memory =>
  if call.command.program = program ∧ call.directory = directory then
    (.ok (.notLaunched program "not found"), files, memory)
  else trioRunner call files memory

theorem keeps_refusing (program : String) (directory : Path) : ∀ submission ∈ trio, ∀ call,
    trioDispatcher.pipeline.Asks submission (.run call) →
      (refusing program directory).Keeps (trioLayout.own submission) trioLayout.shared call := by
  intro submission hmem call hasks
  have hkeeps := keeps_trio submission hmem call hasks
  by_cases hrefused : call.command.program = program ∧ call.directory = directory
  · exact .of_idle fun files memory => by rw [refusing, if_pos hrefused]
  · exact hkeeps.of_eq fun files memory => by rw [refusing, if_neg hrefused]

theorem apart_refusing (program : String) (directory : Path) :
    Apart trioLayout trioDispatcher (refusing program directory) trio :=
  { (separate_trio .directory (.inl rfl)).apart with keeps := keeps_refusing program directory }

/-- The first one is reported, the second one cannot be built, and the third one does not get its turn. -/
theorem fails_as_alone_trio :
    let runner := refusing "make" ⟨"/a"⟩
    let failure : Failure := .launch "make" "not found"
    let result := trioDispatcher.run runner trioLog.report .prompt trio (trioStart .directory)
    trioDispatcher.alone runner (trioStart .directory) (.ofRoot "a" ⟨"/a"⟩) = .ok (.error failure) ∧
      result.stop = some (.failed failure) ∧
      Aborted trioDispatcher runner trioLog.report .prompt trio (trioStart .directory) failure ∧
      ∃ before submission after, trio = before ++ submission :: after ∧
        Foremost trioDispatcher runner trioLog.report .prompt trio (trioStart .directory) failure
          before submission := by
  intro runner failure result
  have hrun : trioRun runner 60 .directory =
      some (some (.failed failure), true, [("b", .success)]) := by
    decide
  have hplain : ∀ submission ∈ trio,
      ∀ moment ∈ (trioDispatcher.pipeline.process submission).moments runner (trioStart .directory),
        ∀ entry ∈ moment.world.files.nodes.entries,
          entry.2.isLink = false ∧ ∀ name ∈ entry.1, Path.Proper name := by
    decide
  have hturns : (Dispatcher.runWithin 60 trioDispatcher runner trioLog.report .prompt trio
      (trioStart .directory)).map (fun run => (run.2.filterMap Batch.entered?,
        run.2.filterMap Batch.collected?, run.2.filterMap (Batch.finished? runner))) =
      some ([0, 1], [0, 1], [0, 1]) := by
    decide
  have hturn : Batch.InTurn runner
      (trioDispatcher.history runner trioLog.report .prompt trio (trioStart .directory)) := by
    obtain ⟨⟨found, past⟩, hwithin, heq⟩ := Option.map_eq_some_iff.mp hturns
    obtain ⟨hentered, heq⟩ := Prod.mk.inj heq
    obtain ⟨hcollected, hfinished⟩ := Prod.mk.inj heq
    rw [(Dispatcher.run_of_runWithin hwithin).2]
    exact ⟨⟨2, hentered⟩, (hcollected.trans hfinished.symm) ▸ List.prefix_rfl⟩
  obtain ⟨hunseen, hstop, _⟩ := of_trioRun hrun
  obtain ⟨_, _, hfails⟩ := fails_as_alone (apart_refusing "make" ⟨"/a"⟩)
    (staysHome_trio (keeps_refusing "make" ⟨"/a"⟩) hplain) (fun entry hentry _ => hunseen entry hentry)
    (by decide)
  obtain ⟨_, hfailed, haborted⟩ := hfails _ hstop
  cases hfailed
  exact ⟨by decide, hstop, haborted, haborted.foremost (by decide) hturn⟩

/-- The output of the second one is a link to that of the first one. Nobody fails alone, and no report fails, but
for the second one there is now something to compare, and no way to do it. -/
theorem link_fails_batch :
    let runner := refusing "diff" ⟨"/a/bin"⟩
    let world := trioStart (.link ⟨"/b/bin"⟩)
    Apart trioLayout trioDispatcher runner trio ∧
      (∀ entry ∈ trioDispatcher.history runner trioLog.report .prompt trio world,
        Unseen trioLayout trioLog.report trio entry) ∧
      Pool.permits trioDispatcher.jobs ≤ Pool.maxPermits ∧
      (∀ submission ∈ trio, ∀ failure,
        trioDispatcher.alone runner world submission ≠ .ok (.error failure)) ∧
      (∀ (submission : Submission) (outcome : Outcome) (world : World Unit),
        (trioLog.report submission outcome world).1 = .ok ()) ∧
      (trioDispatcher.run runner trioLog.report .prompt trio world).stop =
        some (.failed (.launch "diff" "not found")) := by
  intro runner world
  have hrun : trioRun runner 60 (.link ⟨"/b/bin"⟩) =
      some (some (.failed (.launch "diff" "not found")), true, [("b", .success)]) := by
    decide
  obtain ⟨hunseen, hstop, _⟩ := of_trioRun hrun
  refine ⟨apart_refusing "diff" ⟨"/a/bin"⟩, hunseen, by decide, ?_, fun _ _ _ => rfl, hstop⟩
  have hreported : ∀ submission ∈ trio,
      (reported? (trioDispatcher.alone runner world submission)).isSome = true := by
    decide
  intro submission hmem failure hfatal
  have hsome := hreported submission hmem
  rw [hfatal] at hsome
  cases hsome

end Dispatcher

end Assay
