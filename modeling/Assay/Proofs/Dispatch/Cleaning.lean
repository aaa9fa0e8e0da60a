import Assay.Proofs.Batch.Mirror
import Assay.Proofs.Dispatch.Isolation
import Assay.Proofs.ExecuteLog.Agreement

/-!
# Nothing depends on what comes of cleaning

Of the reply to the cleaning command a pipeline makes a note and nothing else, even where the same reply to the
next command would be the end of the batch. So of two runners that differ in this reply alone, nobody can tell
which one it was: neither from a submission that is taken through the pipeline alone, nor from a batch that takes
the same turns, nor from batches that take any turns at all, if the submissions keep apart.
-/

namespace Assay

variable {α ρ : Type}

namespace Pipeline

theorem quiet_clean_bind (pipeline : Pipeline) (submission : Submission) (next : Unit → Task α) :
    ((pipeline.clean submission).bind next).quiet =
      .perform (.run (pipeline.cleanCall submission)) fun _ => (next ()).quiet := by
  rw [clean, Task.monadBind_eq_bind, Task.bind_assoc, Task.quiet_call_bind]
  congr
  funext reply
  cases reply with
  | exited status => split <;> rfl
  | _ => rfl

theorem heedless_process (pipeline : Pipeline) (submission : Submission) :
    (pipeline.process submission).Heedless (pipeline.cleanCall submission) := by
  rw [Task.Heedless, process, Task.monadBind_eq_bind, transition, Task.quiet_note_bind,
    Task.monadBind_eq_bind, build, Task.monadBind_eq_bind, Task.bind_assoc, quiet_clean_bind]
  exact ⟨_, rfl⟩

end Pipeline

/-- What the reporter does has nothing to do with what was noted before. -/
def Reporter.Blind (reporter : Reporter ρ) : Prop :=
  ∀ (submission : Submission) (outcome : Outcome) (world other : World ρ), world.SameState other →
    (reporter submission outcome world).1 = (reporter submission outcome other).1 ∧
      (reporter submission outcome world).2.SameState (reporter submission outcome other).2

theorem ExecuteLog.blind_report (log : ExecuteLog) : (log.report : Reporter ρ).Blind := by
  intro submission outcome world other h
  refine ⟨rfl, ?_, h.memory⟩
  simp only [report, World.note, h.files]

namespace Dispatcher

open scoped List

theorem heedless_work (dispatcher : Dispatcher) (submission : Submission) :
    (dispatcher.work submission).Heedless (dispatcher.pipeline.cleanCall submission) :=
  dispatcher.pipeline.heedless_process submission

theorem blind_collect {reporter : Reporter ρ} (h : reporter.Blind) :
    Collector.Blind (collect reporter) := by
  intro submission result results world other hstate
  cases hreported : reported? result with
  | none =>
      rcases result with panic | failure | outcome
      · cases hreported
      · exact ⟨rfl, hstate.files, hstate.memory⟩
      · cases hreported
  | some outcome =>
      obtain ⟨htold, hafter⟩ := h submission outcome _ _ hstate
      obtain ⟨hvalue, hsettled⟩ := settle_eq reporter submission outcome results world
      obtain ⟨hvalue', hsettled'⟩ := settle_eq reporter submission outcome results other
      simp only [collect, take_of_reported hreported]
      exact ⟨by rw [hvalue, hvalue', htold], hsettled.trans (hafter.trans hsettled'.symm)⟩

/-- What is reported can be read off what is seen of a batch. -/
def reportOfSight? : Batch.Sight Submission (Except Failure Outcome) ρ → Option (Submission × Outcome)
  | .taken submission result => (reported? result).map fun outcome => (submission, outcome)
  | .called _ _ => none

theorem reportsOf_eq_seen (past : List (Batch Submission (Except Failure Outcome) ResultSet ρ × Move)) :
    reportsOf past = (Batch.seen past).filterMap reportOfSight? := by
  rw [reportsOf, Batch.seen, List.filterMap_filterMap]
  congr
  funext entry
  obtain ⟨batch, move⟩ := entry
  cases move with
  | enter index => rfl
  | advance index =>
      simp only [report?, Batch.seen?]
      split <;> rfl
  | collect index =>
      simp only [report?, Batch.seen?]
      rcases batch.pool.workers[index]? with _ | ⟨submission, phase⟩
      · rfl
      · cases phase <;> rfl

variable {layout : Layout} {dispatcher : Dispatcher} {left right runner : Runner ρ} {log : ExecuteLog}
  {schedule other : Schedule} {submissions : List Submission} {world : World ρ}

/-- The submissions keep apart in this run, and neither they nor the log touch each other. -/
structure Secluded (layout : Layout) (dispatcher : Dispatcher) (runner : Runner ρ) (log : ExecuteLog)
    (schedule : Schedule) (submissions : List Submission) (world : World ρ) : Prop where
  apart : Apart layout dispatcher runner submissions
  unseen : ∀ entry ∈ dispatcher.history runner log.report schedule submissions world,
    Unseen layout log.report submissions entry
  spared : ∀ entry ∈ dispatcher.history runner log.report schedule submissions world,
    log.Spares runner entry

/-- The batch came to its end, everybody was reported as what they come to alone, and the log says so. -/
theorem Secluded.reports_perm (h : Secluded layout dispatcher runner log schedule submissions world)
    (hstays : ∀ submission ∈ submissions, dispatcher.StaysHome layout runner world submission)
    (hsound : ∀ submission ∈ submissions, ∀ failure,
      dispatcher.alone runner world submission ≠ .ok (.error failure))
    (hjobs : Pool.permits dispatcher.jobs ≤ Pool.maxPermits) :
    (dispatcher.run runner log.report schedule submissions world).stop = none ∧
      (dispatcher.reports runner log.report schedule submissions world).Perm
        (submissions.filterMap fun submission =>
          (reported? (dispatcher.alone runner world submission)).map
            fun outcome => (submission, outcome)) := by
  have hstop := stop_eq_none_of_sound h.apart (fun _ _ _ => rfl) hsound hstays h.unseen hjobs
  refine ⟨hstop, ?_⟩
  let told (report : Submission × Option Outcome) : Option (Submission × Outcome) :=
    report.2.map fun outcome => (report.1, outcome)
  calc dispatcher.reports runner log.report schedule submissions world
    _ = ((dispatcher.reports runner log.report schedule submissions world).map
          fun report => (report.1, some report.2)).filterMap told := by
        rw [List.filterMap_map]
        exact List.filterMap_some.symm
    _ ~ (submissions.map fun submission =>
          (submission, reported? (dispatcher.alone runner world submission))).filterMap told :=
        (reports_perm_of_stop h.apart hstays h.unseen hstop).filterMap told
    _ = submissions.filterMap fun submission =>
          (reported? (dispatcher.alone runner world submission)).map
            fun outcome => (submission, outcome) :=
        List.filterMap_map

theorem Secluded.readText_eq (h : Secluded layout dispatcher runner log schedule submissions world)
    {prior : String} (hlog : log.Holds (Bytes.ofText prior) world.files)
    (hstop : (dispatcher.run runner log.report schedule submissions world).stop = none) :
    let files := (dispatcher.run runner log.report schedule submissions world).batch.world.files
    files.readText files.directory log.path =
      .ok (prior ++ Record.linesOf
        (ExecuteLog.recordsOf (dispatcher.reports runner log.report schedule submissions world))) := by
  intro files
  rw [reports_eq]
  exact (ExecuteLog.holds_of_trail (trail_of_stop_eq_none hstop).1 hlog h.spared).readText_eq

/-- Where the same is done under another runner, nobody leaves home who did not. -/
theorem StaysHome.of_agree {submission : Submission}
    (h : dispatcher.StaysHome layout left world submission)
    (hagree : Task.Agree left right (dispatcher.pipeline.process submission)
      (dispatcher.pipeline.process submission) world world) :
    dispatcher.StaysHome layout right world submission := by
  rintro ⟨effect, before⟩ hmoment
  cases hdeed : Moment.deed? ⟨effect, before⟩ with
  | none =>
      cases effect with
      | note event => trivial
      | _ => cases hdeed
  | some deed =>
      have hmem : deed ∈ (dispatcher.pipeline.process submission).deeds right world :=
        List.mem_filterMap.mpr ⟨_, hmoment, hdeed⟩
      rw [← hagree.deeds] at hmem
      obtain ⟨⟨effect', before'⟩, hmoment', hdeed'⟩ := List.mem_filterMap.mp hmem
      have hstays := h _ hmoment'
      obtain ⟨heffect, hfiles⟩ := Moment.eq_of_deed? hdeed' hdeed
      simp only at heffect hfiles hstays
      rw [← heffect, ← hfiles]
      exact hstays

/-- Where everybody does the same under two runners, two runs of them that are secluded both come to their end and
report the same, in some order. -/
theorem Secluded.agree (hleft : Secluded layout dispatcher left log schedule submissions world)
    (hright : Secluded layout dispatcher right log other submissions world)
    (hagree : ∀ submission ∈ submissions, Task.Agree left right (dispatcher.pipeline.process submission)
      (dispatcher.pipeline.process submission) world world)
    (hstays : ∀ submission ∈ submissions, dispatcher.StaysHome layout left world submission)
    (hsound : ∀ submission ∈ submissions, ∀ failure,
      dispatcher.alone left world submission ≠ .ok (.error failure))
    (hjobs : Pool.permits dispatcher.jobs ≤ Pool.maxPermits) :
    (dispatcher.run left log.report schedule submissions world).stop = none ∧
      (dispatcher.run right log.report other submissions world).stop = none ∧
      (dispatcher.reports left log.report schedule submissions world).Perm
        (dispatcher.reports right log.report other submissions world) := by
  have hresult : ∀ submission ∈ submissions,
      dispatcher.alone left world submission = dispatcher.alone right world submission :=
    fun submission hmem => (hagree submission hmem).result
  obtain ⟨hstop, hperm⟩ := hleft.reports_perm hstays hsound hjobs
  obtain ⟨hstop', hperm'⟩ := hright.reports_perm
    (fun submission hmem => (hstays submission hmem).of_agree (hagree submission hmem))
    (fun submission hmem failure => hresult submission hmem ▸ hsound submission hmem failure) hjobs
  have hsame : submissions.filterMap (fun submission =>
        (reported? (dispatcher.alone left world submission)).map fun outcome => (submission, outcome)) =
      submissions.filterMap fun submission =>
        (reported? (dispatcher.alone right world submission)).map fun outcome => (submission, outcome) :=
    List.filterMap_congr fun submission hmem => by rw [hresult submission hmem]
  rw [← hsame] at hperm'
  exact ⟨hstop, hstop', hperm.trans hperm'.symm⟩

/-- A pipeline starts with the cleaning command. If two runners differ in nothing but the reply to it, then
every submission is taken through the same calls to the same result and leaves the same files; for every run of a
batch under the one there is a run under the other in which the same calls are made and the same results are taken
in the same order; and if nobody comes to anything fatal and the submissions keep apart, then it does not even
matter who takes turns with whom. -/
theorem cleaning_ignored (dispatcher : Dispatcher) (left right : Runner ρ) (log : ExecuteLog)
    (world : World ρ) :
    (∀ submission, let process := dispatcher.pipeline.process submission
      (∃ later, process.issues left world =
        ⟨dispatcher.pipeline.cleanCall submission, world.files, world.memory⟩ :: later) ∧
      (SameButFirst left right (process.issues left world) →
        process.issues left world = process.issues right world ∧
        (process.run left world).1 = (process.run right world).1 ∧
        (process.run left world).2.SameState (process.run right world).2)) ∧
    (∀ (submissions : List Submission) (schedule : Schedule),
      let history := dispatcher.history left log.report schedule submissions world
      (∀ (index : Nat) (submission : Submission) (issue : Issue ρ) (later : List (Issue ρ)),
        submissions[index]? = some submission → Batch.issuesOf index history = issue :: later →
        issue.call = dispatcher.pipeline.cleanCall submission) ∧
      ((∀ index, SameButFirst left right (Batch.issuesOf index history)) →
        ∃ other,
          (dispatcher.run left log.report schedule submissions world).Agree
            (dispatcher.run right log.report other submissions world) ∧
          Batch.seen (dispatcher.history right log.report other submissions world) = Batch.seen history ∧
          dispatcher.reports right log.report other submissions world =
            dispatcher.reports left log.report schedule submissions world)) ∧
    ∀ (layout : Layout) (submissions : List Submission) (schedule other : Schedule) (prior : String),
      Secluded layout dispatcher left log schedule submissions world →
      Secluded layout dispatcher right log other submissions world →
      (∀ submission ∈ submissions, dispatcher.StaysHome layout left world submission ∧
        SameButFirst left right ((dispatcher.pipeline.process submission).issues left world) ∧
        ∀ failure, dispatcher.alone left world submission ≠ .ok (.error failure)) →
      Pool.permits dispatcher.jobs ≤ Pool.maxPermits →
      log.Holds (Bytes.ofText prior) world.files →
      let result := dispatcher.run left log.report schedule submissions world
      let result' := dispatcher.run right log.report other submissions world
      result.stop = none ∧ result'.stop = none ∧
        (dispatcher.reports left log.report schedule submissions world).Perm
          (dispatcher.reports right log.report other submissions world) ∧
        ((submissions.map Submission.label).Nodup →
          ∀ label, result.batch.gathered.find? label = result'.batch.gathered.find? label) ∧
        ∃ records records' : List Record, records.Perm records' ∧
          result.batch.world.files.readText result.batch.world.files.directory log.path =
            .ok (prior ++ Record.linesOf records) ∧
          result'.batch.world.files.readText result'.batch.world.files.directory log.path =
            .ok (prior ++ Record.linesOf records') := by
  refine ⟨fun submission => ?_, fun submissions schedule => ?_, ?_⟩
  · have hheedless := dispatcher.pipeline.heedless_process submission
    refine ⟨hheedless.issues_eq world, fun hsame => ?_⟩
    have hagree := hheedless.agree (.refl world) hsame
    exact ⟨hagree.issues, hagree.result, hagree.state⟩
  · have hheedless : ∀ submission ∈ submissions,
        (dispatcher.work submission).Heedless (dispatcher.pipeline.cleanCall submission) :=
      fun submission _ => dispatcher.heedless_work submission
    refine ⟨fun index submission issue later hsubmission hissues => ?_, fun hsame => ?_⟩
    · exact Batch.call_of_history hheedless hsubmission hissues
    · have hblind : Collector.Blind (collect (log.report : Reporter ρ)) :=
        blind_collect log.blind_report
      obtain ⟨other, hagree, hseen⟩ := Batch.exists_mirrored_run hblind hheedless schedule hsame
      refine ⟨other, hagree, hseen, ?_⟩
      have hreports := congrArg (List.filterMap reportOfSight?) hseen
      rw [← reportsOf_eq_seen, ← reportsOf_eq_seen] at hreports
      rw [reports_eq, reports_eq]
      exact hreports
  · intro layout submissions schedule other prior hleft hright halone hjobs hlog result result'
    have hagree : ∀ submission ∈ submissions, Task.Agree left right
        (dispatcher.pipeline.process submission) (dispatcher.pipeline.process submission) world world :=
      fun submission hmem => (dispatcher.pipeline.heedless_process submission).agree (.refl world)
        (halone submission hmem).2.1
    obtain ⟨hstop, hstop', hreports⟩ := hleft.agree hright hagree
      (fun submission hmem => (halone submission hmem).1)
      (fun submission hmem => (halone submission hmem).2.2) hjobs
    exact ⟨hstop, hstop', hreports, fun hlabels => find?_gathered_perm hstop hstop' hlabels hreports,
      _, _, hreports.map _, hleft.readText_eq hlog hstop, hright.readText_eq hlog hstop'⟩

/-! ### Three submissions -/

/-- The cleaning command comes to this, whatever else is the matter. -/
def cleaning (ending : Ending) : Runner Unit := fun call files memory =>
  if call.command.arguments = ["clean"] then (.ok ending, files, memory) else trioRunner call files memory

theorem keeps_cleaning (ending : Ending) : ∀ submission ∈ trio, ∀ call,
    trioDispatcher.pipeline.Asks submission (.run call) →
      (cleaning ending).Keeps (trioLayout.own submission) trioLayout.shared call := by
  intro submission hmem call hasks
  by_cases hclean : call.command.arguments = ["clean"]
  · exact .of_idle fun files memory => by rw [cleaning, if_pos hclean]
  · exact (keeps_trio submission hmem call hasks).of_eq fun files memory => by rw [cleaning, if_neg hclean]

def cleansFirst : List (Issue Unit) → Bool
  | [] => true
  | first :: later =>
    first.call.command.arguments = ["clean"] &&
      later.all fun issue => issue.call.command.arguments ≠ ["clean"]

theorem sameButFirst_cleaning {ending ending' : Ending} {issues : List (Issue Unit)}
    (h : cleansFirst issues = true) : SameButFirst (cleaning ending) (cleaning ending') issues := by
  cases issues with
  | nil => trivial
  | cons first later =>
      obtain ⟨hfirst, hlater⟩ := (Bool.and_eq_true _ _).mp h
      have hclean : first.call.command.arguments = ["clean"] := of_decide_eq_true hfirst
      refine ⟨?_, fun issue hissue => ?_⟩
      · have hissue (ending : Ending) : cleaning ending first.call first.files first.memory =
            (.ok ending, first.files, first.memory) := by
          rw [cleaning, if_pos hclean]
        refine ⟨⟨ending, ?_⟩, ⟨ending', ?_⟩, ?_, ?_⟩
        · rw [Issue.answer, hissue]
        · rw [Issue.answer, hissue]
        · rw [Issue.filesAfter, Issue.filesAfter, hissue, hissue]
        · rfl
      · have hother : issue.call.command.arguments ≠ ["clean"] :=
          of_decide_eq_true (List.all_eq_true.mp hlater issue hissue)
        rw [Issue.Same, cleaning, cleaning, if_neg hother, if_neg hother]

/-- In these moves nobody sees the log, no command touches it, and everybody cleans once, before anything else. -/
def orderly (runner : Runner Unit)
    (past : List (Batch Submission (Except Failure Outcome) ResultSet Unit × Move)) : Bool :=
  (past.all fun entry => logUnseen trioLayout trioLog trio entry &&
      (ExecuteLog.filesOfRun runner entry).all fun files => trioLog.Undisturbed files.1 files.2) &&
    (past.all fun entry => entry.1.pool.workers.length = 3) &&
    (List.range 3).all fun index => cleansFirst (Batch.issuesOf index past)

theorem secluded_of_orderly {runner : Runner Unit} (schedule : Schedule)
    (hkeeps : ∀ submission ∈ trio, ∀ call, trioDispatcher.pipeline.Asks submission (.run call) →
      runner.Keeps (trioLayout.own submission) trioLayout.shared call)
    (h : (runWithin 60 trioDispatcher runner trioLog.report schedule trio (trioStart .directory)).any
      fun run => orderly runner run.2) :
    Secluded trioLayout trioDispatcher runner trioLog schedule trio (trioStart .directory) ∧
      ∀ index, cleansFirst (Batch.issuesOf index
        (trioDispatcher.history runner trioLog.report schedule trio (trioStart .directory))) := by
  rcases hrun : runWithin 60 trioDispatcher runner trioLog.report schedule trio (trioStart .directory)
    with _ | ⟨result, past⟩ <;> rw [hrun] at h
  · cases h
  rw [(run_of_runWithin hrun).2]
  obtain ⟨hquiet, hissues⟩ := (Bool.and_eq_true _ _).mp h
  obtain ⟨hquiet, hcount⟩ := (Bool.and_eq_true _ _).mp hquiet
  have hentry : ∀ entry ∈ past, logUnseen trioLayout trioLog trio entry = true ∧
      ∀ files ∈ ExecuteLog.filesOfRun runner entry, trioLog.Undisturbed files.1 files.2 := by
    intro entry hentry
    obtain ⟨hunseen, hspared⟩ := (Bool.and_eq_true _ _).mp (List.all_eq_true.mp hquiet entry hentry)
    refine ⟨hunseen, fun files hfiles => ?_⟩
    rw [Option.mem_def.mp hfiles] at hspared
    exact of_decide_eq_true hspared
  refine ⟨⟨?_, fun entry hmem => ?_, fun entry hmem => ?_⟩, fun index => ?_⟩
  · exact { (separate_trio .directory (.inl rfl)).apart with keeps := hkeeps }
  · rw [(run_of_runWithin hrun).2] at hmem
    exact unseen_of_logUnseen (hentry entry hmem).1
  · rw [(run_of_runWithin hrun).2] at hmem
    exact ExecuteLog.spares_of_undisturbed (hentry entry hmem).2
  · by_cases hlt : index < 3
    · exact List.all_eq_true.mp hissues index (List.mem_range.mpr hlt)
    · rw [Batch.issuesOf_eq_nil fun entry hmem => ?_]
      · rfl
      · rw [of_decide_eq_true (List.all_eq_true.mp hcount entry hmem)]
        exact Nat.not_lt.mp hlt

theorem holds_trio : trioLog.Holds (Bytes.ofText "") (trioStart .directory).files := by
  have hnone : ∀ entry ∈ (trioFiles .directory).nodes.entries, ∀ id content executable,
      entry.2 ≠ .file id content executable := by
    intro entry hentry id content executable
    have hall : ∀ entry ∈ (trioFiles .directory).nodes.entries, entry.2 = .directory := by
      decide
    rw [hall entry hentry]
    exact Node.noConfusion
  have hnumbered : (trioFiles .directory).Numbered :=
    ⟨fun entry hentry _ _ _ hfile => absurd hfile (hnone entry hentry _ _ _),
      fun entry hentry _ _ _ _ _ _ _ hfile => absurd hfile (hnone entry hentry _ _ _)⟩
  exact ExecuteLog.holds_attach_of_readText hnumbered (Prod.ext (by decide) rfl) (by decide)

/-- Who is the last in the list goes first. -/
def backwards : Schedule := fun _ moves => moves.length - 1

/-- With the one runner cleaning works, with the other it cannot be launched, and the turns are the other way
round. -/
theorem cleaning_ignored_trio :
    let left := cleaning (.exited 0)
    let right := cleaning (.notLaunched "make" "not found")
    let world := trioStart .directory
    let result := trioDispatcher.run left trioLog.report .prompt trio world
    let result' := trioDispatcher.run right trioLog.report backwards trio world
    (∀ submission ∈ trio, let process := trioDispatcher.pipeline.process submission
      process.issues left world = process.issues right world ∧
        (process.run left world).1 = (process.run right world).1 ∧
        (process.run left world).2.SameState (process.run right world).2) ∧
      (∃ other, result.Agree (trioDispatcher.run right trioLog.report other trio world)) ∧
      result.stop = none ∧ result'.stop = none ∧
      (trioDispatcher.reports left trioLog.report .prompt trio world).Perm
        (trioDispatcher.reports right trioLog.report backwards trio world) ∧
      (∀ label, result.batch.gathered.find? label = result'.batch.gathered.find? label) ∧
      ∃ records records' : List Record, records.Perm records' ∧
        result.batch.world.files.readText result.batch.world.files.directory trioLog.path =
          .ok ("" ++ Record.linesOf records) ∧
        result'.batch.world.files.readText result'.batch.world.files.directory trioLog.path =
          .ok ("" ++ Record.linesOf records') := by
  intro left right world result result'
  have hkeeps := keeps_cleaning (.exited 0)
  have halone : ∀ submission ∈ trio,
      cleansFirst ((trioDispatcher.pipeline.process submission).issues left world) = true := by
    decide
  have hplain : ∀ submission ∈ trio,
      ∀ moment ∈ (trioDispatcher.pipeline.process submission).moments left world,
        ∀ entry ∈ moment.world.files.nodes.entries,
          entry.2.isLink = false ∧ ∀ name ∈ entry.1, Path.Proper name := by
    decide
  have hreported : ∀ submission ∈ trio,
      (reported? (trioDispatcher.alone left world submission)).isSome = true := by
    decide
  have hsound : ∀ submission ∈ trio, ∀ failure,
      trioDispatcher.alone left world submission ≠ .ok (.error failure) := by
    intro submission hmem failure hfatal
    have hsome := hreported submission hmem
    rw [hfatal] at hsome
    cases hsome
  obtain ⟨hleft, hcleans⟩ := secluded_of_orderly .prompt hkeeps (by decide)
  obtain ⟨hright, -⟩ := secluded_of_orderly backwards (keeps_cleaning (.notLaunched "make" "not found"))
    (by decide)
  obtain ⟨hprocess, hbatch, hapart⟩ := cleaning_ignored trioDispatcher left right trioLog world
  obtain ⟨hstop, hstop', hreports, hfound, hlines⟩ :=
    hapart trioLayout trio .prompt backwards "" hleft hright
      (fun submission hmem => ⟨staysHome_trio hkeeps hplain submission hmem,
        sameButFirst_cleaning (halone submission hmem), hsound submission hmem⟩) (by decide) holds_trio
  refine ⟨fun submission hmem => ?_, ?_, hstop, hstop', hreports, hfound (by decide), hlines⟩
  · exact (hprocess submission).2 (sameButFirst_cleaning (halone submission hmem))
  · obtain ⟨other, hagree, -, -⟩ :=
      (hbatch trio .prompt).2 fun index => sameButFirst_cleaning (hcleans index)
    exact ⟨other, hagree⟩

end Dispatcher

end Assay
