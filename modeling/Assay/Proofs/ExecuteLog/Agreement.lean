import Assay.Proofs.Batch.Evaluation
import Assay.Proofs.ExecuteLog.Attach
import Assay.Proofs.Record.RoundTrip

/-!
# The log and the results agree

A batch tells its outcomes twice: it keeps them, and it has them written to a log. What is kept is a table and
what is written is a text, to which other runs have added before. Both are functions of what was reported, and
this is how they are compared: the lines of the log are read back one by one as they were reported.
-/

namespace Assay

namespace ExecuteLog

variable {ρ : Type}

/-- If a command is run in this move, it does not touch the log. -/
def Spares (log : ExecuteLog) (runner : Runner ρ)
    (entry : Batch Submission (Except Failure Outcome) ResultSet ρ × Move) : Prop :=
  ∀ (index : Nat) (submission : Submission) (call : Call)
    (rest : Ending → Task (Except Failure Outcome)) (content : Bytes),
    entry.2 = .advance index →
    entry.1.pool.workers[index]? = some ⟨submission, .active (.perform (.run call) rest)⟩ →
    log.Holds content entry.1.world.files →
    log.Holds content (runner call entry.1.world.files entry.1.world.memory).2.1

def filesOfRun (runner : Runner ρ)
    (entry : Batch Submission (Except Failure Outcome) ResultSet ρ × Move) :
    Option (Files × Files) :=
  match entry.2 with
  | .advance index =>
    match entry.1.pool.workers[index]? with
    | some ⟨_, .active (.perform (.run call) _)⟩ =>
      some (entry.1.world.files, (runner call entry.1.world.files entry.1.world.memory).2.1)
    | _ => none
  | _ => none

theorem spares_of_undisturbed {log : ExecuteLog} {runner : Runner ρ}
    {entry : Batch Submission (Except Failure Outcome) ResultSet ρ × Move}
    (h : ∀ files ∈ filesOfRun runner entry, log.Undisturbed files.1 files.2) :
    Spares log runner entry := by
  intro index submission call rest content hmove hworker hholds
  have hrun : filesOfRun runner entry =
      some (entry.1.world.files, (runner call entry.1.world.files entry.1.world.memory).2.1) := by
    simp [filesOfRun, hmove, hworker]
  exact (h _ hrun).holds hholds

def recordsOf (reports : List (Submission × Outcome)) : List Record :=
  reports.map fun report => Record.ofOutcome report.1.label report.2

variable {log : ExecuteLog} {content : Bytes} {runner : Runner ρ} {dispatcher : Dispatcher}
  {schedule : Schedule} {submissions : List Submission} {world : World ρ} {prior : String}

theorem Holds.report (h : log.Holds content world.files) (submission : Submission)
    (outcome : Outcome) :
    log.Holds
      (content ++ Bytes.ofText ((Record.ofOutcome submission.label outcome).text ++ "\n"))
      (log.report submission outcome world).2.files :=
  h.write _

/-- The log holds what was in it before and the lines of what was reported. -/
structure Kept (log : ExecuteLog) (dispatcher : Dispatcher) (submissions : List Submission)
    (prior : String)
    (past : List (Batch Submission (Except Failure Outcome) ResultSet ρ × Move))
    (batch : Batch Submission (Except Failure Outcome) ResultSet ρ) : Prop where
  jobs : batch.pool.workers.map Worker.job = submissions
  along : batch.pool.Along dispatcher.pipeline.Asks
    (fun _ => dispatcher.pipeline.Finds fun _ => True)
    (fun submission result => ∀ outcome, result = .ok outcome →
      dispatcher.pipeline.Blames submission (fun _ => True) outcome)
  holds : log.Holds
    (Bytes.ofText (prior ++ Record.linesOf (recordsOf (Dispatcher.reportsOf past))))
    batch.world.files

theorem kept_start (hlog : log.Holds (Bytes.ofText prior) world.files) :
    Kept log dispatcher submissions prior [] (dispatcher.start submissions world) where
  jobs := Dispatcher.jobs_start dispatcher submissions world
  along := Dispatcher.along_start dispatcher submissions world fun _ _ => True
  holds := by
    have hnone : prior ++ Record.linesOf (recordsOf []) = prior := String.append_empty
    exact hnone.symm ▸ hlog

theorem Kept.holds_perform
    {past : List (Batch Submission (Except Failure Outcome) ResultSet ρ × Move)}
    {batch : Batch Submission (Except Failure Outcome) ResultSet ρ} {index : Nat}
    (h : Kept log dispatcher submissions prior past batch)
    (hspared : Spares log runner (batch, .advance index)) {submission : Submission}
    {effect : Effect} {rest : effect.Reply → Task (Except Failure Outcome)}
    {reply : Except Panic effect.Reply} {after : World ρ}
    (hworker : batch.pool.workers[index]? = some ⟨submission, .active (.perform effect rest)⟩)
    (hperform : effect.perform runner batch.world = (reply, after)) :
    log.Holds (Bytes.ofText (prior ++ Record.linesOf (recordsOf (Dispatcher.reportsOf past))))
      after.files := by
  have hasks := (h.along index submission _ hworker).1
  have hafter : after = (effect.perform runner batch.world).2 := by rw [hperform]
  rw [hafter]
  cases effect with
  | run call => exact hspared index submission call rest _ rfl hworker h.holds
  | ensureDirectory path => exact h.holds.ensureDirectory batch.world.files.directory path
  | listFiles path => exact h.holds
  | openStream path => nomatch hasks
  | note event => exact h.holds

theorem Kept.step
    {past : List (Batch Submission (Except Failure Outcome) ResultSet ρ × Move)}
    {batch next : Batch Submission (Except Failure Outcome) ResultSet ρ} {move : Move}
    (h : Kept log dispatcher submissions prior past batch)
    (hspared : Spares log runner (batch, move))
    (hstep : Batch.Step runner (Dispatcher.collect log.report) batch move next) :
    Kept log dispatcher submissions prior (past ++ [(batch, move)]) next where
  jobs := hstep.jobs_eq.trans h.jobs
  along := by
    refine hstep.along h.along ?_
    intro index submission effect rest reply _ _ _
    exact Pipeline.finds_anything _ effect reply
  holds := by
    rw [Dispatcher.reportsOf_append]
    cases move with
    | enter index =>
        have hnone : Dispatcher.reportsOf [(batch, Move.enter index)] = [] := rfl
        rw [hnone, List.append_nil]
        cases hstep
        exact h.holds
    | advance index =>
        have hnone : Dispatcher.reportsOf [(batch, Move.advance index)] = [] := rfl
        rw [hnone, List.append_nil]
        cases hstep with
        | advanced hworker hperform => exact h.holds_perform hspared hworker hperform
        | panicked hworker hperform =>
            have hafter := h.holds_perform hspared hworker hperform
            exact hafter
        | ended hworker => exact h.holds
    | collect index =>
        obtain ⟨submission, result, outcome, htaken⟩ := Dispatcher.taken_of_step hstep
        have hreport : Dispatcher.reportsOf [(batch, Move.collect index)] =
            [(submission, outcome)] := by
          rw [Dispatcher.reportsOf, List.filterMap_cons, htaken.report?_eq]
          rfl
        have hwritten := h.holds.report submission outcome
        rw [hreport, recordsOf, List.map_append, ← recordsOf, List.map_singleton,
          Record.linesOf_append, ← String.append_assoc, Bytes.ofText_append, htaken.after.files]
        exact hwritten

/-- Every report adds its line, and nothing else is added. -/
theorem holds_of_trail
    {past : List (Batch Submission (Except Failure Outcome) ResultSet ρ × Move)}
    {last : Batch Submission (Except Failure Outcome) ResultSet ρ}
    (h : Batch.Trail runner (Dispatcher.collect log.report) (dispatcher.start submissions world)
      past last)
    (hlog : log.Holds (Bytes.ofText prior) world.files)
    (hspared : ∀ entry ∈ past, Spares log runner entry) :
    log.Holds
      (Bytes.ofText (prior ++ Record.linesOf (recordsOf (Dispatcher.reportsOf past))))
      last.world.files :=
  (h.invariant (Kept log dispatcher submissions prior) [] (kept_start hlog)
    fun _ _ _ _ hmem hkept hstep => hkept.step (hspared _ hmem) hstep).holds

/-! ### Reading it back -/

/-- Every report can be read back from the log. -/
def Readable (reports : List (Submission × Outcome)) : Prop :=
  ∀ report ∈ reports, (Record.ofOutcome report.1.label report.2).IsLine

theorem readAll_reports {reports : List (Submission × Outcome)} (hprior : Text.IsClosed prior.toList)
    (hreadable : Readable reports) :
    Record.readAll (prior ++ Record.linesOf (recordsOf reports)) =
      Record.readAll prior ++ recordsOf reports := by
  have hlines : ∀ record ∈ recordsOf reports, record.IsLine := by
    intro record hmem
    obtain ⟨report, hreport, rfl⟩ := List.mem_map.mp hmem
    exact hreadable report hreport
  rw [Record.readAll_append hprior, Record.readAll_linesOf hlines]

theorem verdicts_reports {reports : List (Submission × Outcome)}
    (hprior : Text.IsClosed prior.toList) (hreadable : Readable reports) :
    Record.verdicts (prior ++ Record.linesOf (recordsOf reports)) =
      (Record.verdicts prior).putAll
        (reports.map fun report => (report.1.label, report.2.verdict)) := by
  rw [Record.verdicts, readAll_reports hprior hreadable, List.foldl_append, recordsOf,
    List.foldl_map, Table.putAll, List.foldl_map]
  rfl

/-- What the last line for a label says is what was reported of it last. -/
theorem getLast?_reports {reports : List (Submission × Outcome)} {label : String}
    {outcome : Outcome} (hprior : Text.IsClosed prior.toList) (hreadable : Readable reports)
    (hlast : (Table.empty.putAll (reports.map fun report => (report.1.label, report.2))).find? label =
      some outcome) :
    ((Record.readAll (prior ++ Record.linesOf (recordsOf reports))).filter
      fun record => record.label = label).getLast? = some (Record.ofOutcome label outcome) := by
  have hfind := Table.find?_putAll (Table.empty : ResultSet)
    (reports.map fun report => (report.1.label, report.2)) label
  rw [hlast, Table.find?_empty, Option.or_none, List.filter_map, List.getLast?_map,
    Option.map_map] at hfind
  obtain ⟨report, hreport, houtcome⟩ := Option.map_eq_some_iff.mp hfind.symm
  have hlabel : report.1.label = label := by
    have hmem := (List.mem_filter.mp (List.mem_of_getLast? hreport)).2
    simpa using hmem
  have hrecords : (recordsOf reports).filter (fun record => record.label = label) =
      recordsOf (reports.filter fun report => report.1.label = label) := by
    rw [recordsOf, List.filter_map]
    rfl
  have hlater : (recordsOf (reports.filter fun report => report.1.label = label)).getLast? =
      some (Record.ofOutcome label outcome) := by
    rw [recordsOf, List.getLast?_map]
    have hsame : (reports.filter fun report => report.1.label = label).getLast? = some report :=
      hreport
    rw [hsame, ← hlabel, ← houtcome]
    rfl
  rw [readAll_reports hprior hreadable, List.filter_append, hrecords, List.getLast?_append, hlater]
  rfl

theorem agrees_of_holds (hlog : log.Holds (Bytes.ofText prior) world.files)
    (hprior : prior = "" ∨ prior.toList.getLast? = some '\n')
    (hspared : ∀ entry ∈ dispatcher.history runner log.report schedule submissions world,
      Spares log runner entry)
    (hlabels : ∀ submission ∈ submissions,
      ']' ∉ submission.label.toList ∧ '\n' ∉ submission.label.toList)
    (hcommands : ∀ report ∈ dispatcher.reports runner log.report schedule submissions world,
      ∀ command, report.2.command? = some command → '\n' ∉ command.text.toList)
    (hstop : (dispatcher.run runner log.report schedule submissions world).stop = none) :
    let last := (dispatcher.run runner log.report schedule submissions world).batch
    ∃ text, last.world.files.readText last.world.files.directory log.path = .ok text ∧
      (verdicts log.path last.world).1 = .ok (Record.verdicts text) ∧
      Record.verdicts text = (Record.verdicts prior).putAll
        (last.gathered.entries.map fun entry => (entry.1, entry.2.verdict)) ∧
      ∀ label outcome, last.gathered.find? label = some outcome →
        ((Record.readAll text).filter fun record => record.label = label).getLast? =
          some (Record.ofOutcome label outcome) := by
  intro last
  obtain ⟨htrail, _⟩ := Dispatcher.trail_of_stop_eq_none hstop
  have hholds := holds_of_trail htrail hlog hspared
  have hgathered : last.gathered = Table.empty.putAll
      ((dispatcher.reports runner log.report schedule submissions world).map
        fun report => (report.1.label, report.2)) := by
    rw [Dispatcher.reports_eq]
    exact Dispatcher.gathered_eq htrail
  have hclosed : Text.IsClosed prior.toList := by
    rcases hprior with rfl | hprior
    · exact .inl rfl
    · exact .inr hprior
  have hreadable : Readable (dispatcher.reports runner log.report schedule submissions world) := by
    intro report hreport
    have hmem := Dispatcher.mem_of_mem_reportsOf htrail (Dispatcher.reports_eq ▸ hreport)
    rw [Dispatcher.jobs_start] at hmem
    obtain ⟨hbracket, hbreak⟩ := hlabels report.1 hmem
    refine ⟨hbracket, hbreak, fun text htext => ?_⟩
    obtain ⟨command, hcommand, rfl⟩ := Option.map_eq_some_iff.mp htext
    exact hcommands report hreport command hcommand
  have hread : last.world.files.readText last.world.files.directory log.path =
      .ok (prior ++ Record.linesOf
        (recordsOf (dispatcher.reports runner log.report schedule submissions world))) := by
    rw [Dispatcher.reports_eq]
    exact hholds.readText_eq
  refine ⟨_, hread, ?_, ?_, fun label outcome hfind => ?_⟩
  · rw [verdicts, hread]
  · rw [verdicts_reports hclosed hreadable, hgathered]
    have hput := Table.putAll_gathered (Record.verdicts prior) Outcome.verdict
      ((dispatcher.reports runner log.report schedule submissions world).map
        fun report => (report.1.label, report.2))
    rw [hput, List.map_map]
    rfl
  · rw [hgathered] at hfind
    exact getLast?_reports hclosed hreadable hfind

/-- The log of a batch tells the same as its results: where the batch has a result its verdict is in the log,
where it has none the log says what it said before, and the last line for a label is about the outcome that
was kept for it. -/
theorem log_agrees {directory : Path} {key : String} {before : World ρ}
    (hnumbered : before.files.Numbered)
    (hattach : attach directory key before = (.ok log, world))
    (hread : world.files.readText world.files.directory log.path = .ok prior)
    (hprior : prior = "" ∨ prior.toList.getLast? = some '\n')
    (hspared : ∀ entry ∈ dispatcher.history runner log.report schedule submissions world,
      Spares log runner entry)
    (hlabels : ∀ submission ∈ submissions,
      ']' ∉ submission.label.toList ∧ '\n' ∉ submission.label.toList)
    (hcommands : ∀ report ∈ dispatcher.reports runner log.report schedule submissions world,
      ∀ command, report.2.command? = some command → '\n' ∉ command.text.toList)
    (hstop : (dispatcher.run runner log.report schedule submissions world).stop = none) :
    let last := (dispatcher.run runner log.report schedule submissions world).batch
    ∃ text, last.world.files.readText last.world.files.directory log.path = .ok text ∧
      (verdicts log.path last.world).1 = .ok (Record.verdicts text) ∧
      Record.verdicts text = (Record.verdicts prior).putAll
        (last.gathered.entries.map fun entry => (entry.1, entry.2.verdict)) ∧
      ∀ label outcome, last.gathered.find? label = some outcome →
        ((Record.readAll text).filter fun record => record.label = label).getLast? =
          some (Record.ofOutcome label outcome) := by
  exact agrees_of_holds (holds_attach_of_readText hnumbered hattach hread) hprior hspared hlabels
    hcommands hstop

/-! ### Two submissions of one name -/

def namesakes : List Submission :=
  [.ofRoot "a \"[: b" ⟨"/work/one"⟩, .ofRoot "a \"[: b" ⟨"/work/two"⟩]

/-- The first of them does not compile, and the other one leaves no artifact. -/
def namesakeRunner : Runner Unit := fun call files memory =>
  (.ok (.exited (if call.directory.text = "/work/one" then 2 else 0)), files, memory)

def namesakeDispatcher : Dispatcher :=
  { pipeline :=
      { recipe :=
          { clean := ⟨"make", ["clean"]⟩
            build := ⟨"make", ["x] \"y"]⟩
            run := ⟨"./paster", []⟩
            outputSubdirectory := ⟨"bin"⟩
            runLimit := ⟨5⟩ }
        artifactSuffix := ".png"
        comparator := { program := "diff", reference := ⟨"/reference.png"⟩, limit := ⟨5⟩ } }
    jobs := 1 }

/-- There is a log of an earlier run, which knows of the name and of another one. -/
def namesakeStart : World Unit :=
  .start
    { Files.bare ["out"] with
      nodes := ⟨[(["out"], .directory), (["out", "execute_log_k.txt"],
        .file ⟨0⟩ (Bytes.ofText "Success: [old]\nTimeout: [a \"[: b]\n") false)]⟩
      nextFile := 1 } ()

def namesakeLog : ExecuteLog := ⟨⟨"/out/execute_log_k.txt"⟩, ⟨0⟩⟩

theorem attach_namesakes : (attach ⟨"/out"⟩ "k" namesakeStart).1 = .ok namesakeLog := by
  decide

theorem numbered_namesakes : namesakeStart.files.Numbered where
  below := by
    intro entry hentry id content executable hfile
    rcases List.mem_cons.mp hentry with rfl | hentry
    · cases hfile
    · obtain rfl := List.mem_singleton.mp hentry
      cases hfile
      decide
  same := by
    intro entry hentry other hother id content executable content' executable' hfile hfile'
    rcases List.mem_cons.mp hentry with rfl | hentry
    · cases hfile
    · obtain rfl := List.mem_singleton.mp hentry
      rcases List.mem_cons.mp hother with rfl | hother
      · cases hfile'
      · obtain rfl := List.mem_singleton.mp hother
        cases hfile
        cases hfile'
        rfl

theorem run_namesakes :
    (namesakeDispatcher.run namesakeRunner namesakeLog.report .prompt namesakes
        (attach ⟨"/out"⟩ "k" namesakeStart).2).stop = none ∧
      (namesakeDispatcher.reports namesakeRunner namesakeLog.report .prompt namesakes
        (attach ⟨"/out"⟩ "k" namesakeStart).2).map Prod.snd =
        [.compileFailure ⟨"make", ["x] \"y"]⟩, .artifactPathError ⟨"/work/two/bin"⟩ 0] := by
  have hrun : (Dispatcher.runWithin 40 namesakeDispatcher namesakeRunner namesakeLog.report .prompt
      namesakes (attach ⟨"/out"⟩ "k" namesakeStart).2).map
        (fun run => (run.1.stop, (Dispatcher.reportsOf run.2).map Prod.snd)) =
      some (none,
        [.compileFailure ⟨"make", ["x] \"y"]⟩, .artifactPathError ⟨"/work/two/bin"⟩ 0]) := by
    decide
  obtain ⟨⟨result, past⟩, hwithin, heq⟩ := Option.map_eq_some_iff.mp hrun
  obtain ⟨hresult, hpast⟩ := Dispatcher.run_of_runWithin hwithin
  obtain ⟨hstop, hreports⟩ := Prod.mk.inj heq
  rw [hresult, Dispatcher.reports_eq, hpast]
  exact ⟨hstop, hreports⟩

theorem log_agrees_namesakes :
    let world := (attach ⟨"/out"⟩ "k" namesakeStart).2
    let last := (namesakeDispatcher.run namesakeRunner namesakeLog.report .prompt namesakes
      world).batch
    attach ⟨"/out"⟩ "k" namesakeStart = (.ok namesakeLog, world) ∧
      ∃ text, last.world.files.readText last.world.files.directory namesakeLog.path = .ok text ∧
        (verdicts namesakeLog.path last.world).1 = .ok (Record.verdicts text) ∧
        Record.verdicts text =
          (Record.verdicts "Success: [old]\nTimeout: [a \"[: b]\n").putAll
            (last.gathered.entries.map fun entry => (entry.1, entry.2.verdict)) ∧
        ∀ label outcome, last.gathered.find? label = some outcome →
          ((Record.readAll text).filter fun record => record.label = label).getLast? =
            some (Record.ofOutcome label outcome) := by
  intro world last
  obtain ⟨hstop, hreports⟩ := run_namesakes
  have hattach : attach ⟨"/out"⟩ "k" namesakeStart = (.ok namesakeLog, world) :=
    Prod.ext attach_namesakes rfl
  have hread : world.files.readText world.files.directory namesakeLog.path =
      .ok "Success: [old]\nTimeout: [a \"[: b]\n" := by
    decide
  refine ⟨hattach, log_agrees numbered_namesakes hattach hread (.inr (by decide)) ?_ ?_ ?_
    hstop⟩
  · intro entry _ index submission call rest content _ _ hholds
    exact hholds
  · decide
  · intro report hreport command hcommand
    have houtcome : report.2 ∈ [Outcome.compileFailure ⟨"make", ["x] \"y"]⟩,
        .artifactPathError ⟨"/work/two/bin"⟩ 0] :=
      hreports ▸ List.mem_map_of_mem hreport
    rcases List.mem_pair.mp houtcome with heq | heq <;> rw [heq] at hcommand <;> cases hcommand
    decide

end ExecuteLog

end Assay
