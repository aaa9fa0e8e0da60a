import Assay.ExecuteLog
import Assay.Proofs.Batch.Evaluation
import Assay.Proofs.Dispatch.Home
import Assay.Proofs.ResultSet

/-!
# Submissions do not get in each other's way

A submission comes to the same outcome as if it were alone, however many others there are and in whatever order
they take turns, provided that nobody leaves home. That commands do not is not enough: the pipeline follows
links, and one link out of a home is enough to have two submissions share an artifact.
-/

namespace Assay

namespace Dispatcher

open scoped List

variable {ρ : Type} {layout : Layout} {dispatcher : Dispatcher} {runner : Runner ρ}
  {reporter : Reporter ρ} {schedule : Schedule} {submissions : List Submission} {world : World ρ}

theorem reported_of_sound {result : Except Panic (Except Failure Outcome)}
    (h : ∀ failure, result ≠ .ok (.error failure)) : ∃ outcome, reported? result = some outcome := by
  rcases result with panic | failure | outcome
  · exact ⟨brokenDown, rfl⟩
  · exact absurd rfl (h failure)
  · exact ⟨outcome, rfl⟩

theorem Separate.reported_isSome
    (h : Separate layout dispatcher runner reporter submissions world) {submission : Submission}
    (hmem : submission ∈ submissions) :
    ∃ outcome, reported? (dispatcher.alone runner world submission) = some outcome :=
  reported_of_sound (h.sound submission hmem)

/-- Where nothing fatal comes of anybody alone, nothing fatal comes of anybody. -/
theorem stop_eq_none_of_sound (h : Apart layout dispatcher runner submissions)
    (htold : ∀ (submission : Submission) (outcome : Outcome) (world : World ρ),
      (reporter submission outcome world).1 = .ok ())
    (hsound : ∀ submission ∈ submissions, ∀ failure,
      dispatcher.alone runner world submission ≠ .ok (.error failure))
    (hstays : ∀ submission ∈ submissions, dispatcher.StaysHome layout runner world submission)
    (hunseen : ∀ entry ∈ dispatcher.history runner reporter schedule submissions world,
      Unseen layout reporter submissions entry)
    (hjobs : Pool.permits dispatcher.jobs ≤ Pool.maxPermits) :
    (dispatcher.run runner reporter schedule submissions world).stop = none := by
  refine stop_eq_none_of_reported hjobs htold fun past last htrail hpast index submission found
    hworker => ?_
  have hshadowed := shadowed_of_trail h hstays htrail fun entry hentry =>
    hunseen entry (hpast entry hentry)
  have hresult : dispatcher.alone runner world submission = found :=
    hshadowed.shadows index submission _ hworker
  rw [← hresult]
  exact reported_of_sound (hsound submission (hshadowed.mem hworker))

theorem reports_perm_of_stop (h : Apart layout dispatcher runner submissions)
    (hstays : ∀ submission ∈ submissions, dispatcher.StaysHome layout runner world submission)
    (hunseen : ∀ entry ∈ dispatcher.history runner reporter schedule submissions world,
      Unseen layout reporter submissions entry)
    (hstop : (dispatcher.run runner reporter schedule submissions world).stop = none) :
    ((dispatcher.reports runner reporter schedule submissions world).map
        fun report => (report.1, some report.2)).Perm
      (submissions.map fun submission =>
        (submission, reported? (dispatcher.alone runner world submission))) := by
  obtain ⟨htrail, _⟩ := trail_of_stop_eq_none hstop
  have hreports := (shadowed_of_trail h hstays htrail hunseen).reports
  calc (dispatcher.reports runner reporter schedule submissions world).map
        fun report => (report.1, some report.2)
    _ = ((dispatcher.reports runner reporter schedule submissions world).map Prod.fst).map
          fun submission => (submission, reported? (dispatcher.alone runner world submission)) := by
        rw [List.map_map]
        apply List.map_congr_left
        intro report hreport
        exact congrArg _ (hreports report (reports_eq ▸ hreport)).symm
    _ ~ submissions.map fun submission =>
          (submission, reported? (dispatcher.alone runner world submission)) :=
        (reports_perm hstop).map _

/-- Submissions that are apart come to what they come to alone, in any schedule and with any number of jobs:
each of them is reported once, and has its own result. -/
theorem outcomes_alone (h : Separate layout dispatcher runner reporter submissions world)
    (hstays : ∀ submission ∈ submissions, dispatcher.StaysHome layout runner world submission)
    (hunseen : ∀ entry ∈ dispatcher.history runner reporter schedule submissions world,
      Unseen layout reporter submissions entry)
    (hjobs : Pool.permits dispatcher.jobs ≤ Pool.maxPermits) :
    let result := dispatcher.run runner reporter schedule submissions world
    result.stop = none ∧
      ((dispatcher.reports runner reporter schedule submissions world).map
          fun report => (report.1, some report.2)).Perm
        (submissions.map fun submission =>
          (submission, reported? (dispatcher.alone runner world submission))) ∧
      result.batch.gathered.keys.Perm (submissions.map Submission.label) ∧
      result.batch.gathered.size = submissions.length ∧
      (result.batch.gathered.tally.map Prod.snd).sum = submissions.length ∧
      ∀ submission ∈ submissions, ∃ outcome,
        reported? (dispatcher.alone runner world submission) = some outcome ∧
        result.batch.gathered.find? submission.label = some outcome := by
  intro result
  have hstop : result.stop = none :=
    stop_eq_none_of_sound h.apart h.told h.sound hstays hunseen hjobs
  have hperm := reports_perm_of_stop h.apart hstays hunseen hstop
  have hkeys : result.batch.gathered.keys.Perm (submissions.map Submission.label) :=
    keys_gathered_perm hstop h.labels
  have hsize : result.batch.gathered.size = submissions.length := by
    rw [← List.length_map Submission.label, ← hkeys.length_eq, Table.keys, List.length_map,
      Table.size]
  refine ⟨hstop, hperm, hkeys, hsize, by rw [ResultSet.sum_tally, hsize], ?_⟩
  intro submission hmem
  obtain ⟨outcome, houtcome⟩ := h.reported_isSome hmem
  have hreported : (submission, some outcome) ∈
      (dispatcher.reports runner reporter schedule submissions world).map
        fun report => (report.1, some report.2) := by
    rw [hperm.mem_iff, ← houtcome]
    exact List.mem_map_of_mem hmem
  obtain ⟨⟨reported, value⟩, hreport, heq⟩ := List.mem_map.mp hreported
  obtain ⟨rfl, hvalue⟩ := Prod.mk.inj heq
  obtain rfl := Option.some.inj hvalue
  exact ⟨value, houtcome, find?_gathered_of_mem hstop h.labels hreport⟩

/-! ### With and without a link -/

def trio : List Submission := [.ofRoot "b" ⟨"/b"⟩, .ofRoot "a" ⟨"/a"⟩, .ofRoot "c" ⟨"/c"⟩]

def trioDispatcher : Dispatcher :=
  { pipeline :=
      { recipe :=
          { clean := ⟨"make", ["clean"]⟩
            build := ⟨"make", ["bin/paster"]⟩
            run := ⟨"./paster", []⟩
            outputSubdirectory := ⟨"bin"⟩
            runLimit := ⟨5⟩ }
        artifactSuffix := ".png"
        comparator := { program := "diff", reference := ⟨"/reference.png"⟩, limit := ⟨5⟩ } }
    jobs := 1 }

def trioLayout : Layout :=
  { home := fun submission => [(submission.label : RawText)]
    shared := fun location => location = [] ∨ location = (["reference.png"] : Location) }

/-- Only the first one leaves an artifact, in its own place, and the last one breaks the worker. -/
def trioRunner : Runner Unit := fun call files memory =>
  if call.directory = ⟨"/b/bin"⟩ then
    (.ok (.exited 0),
      { files.put ["b", "bin", "output.png"] (.file ⟨files.nextFile⟩ .empty false) with
        nextFile := files.nextFile + 1 },
      memory)
  else if call.directory = ⟨"/c"⟩ then (.error ⟨"out of memory"⟩, files, memory)
  else (.ok (.exited 0), files, memory)

/-- Where the second one has its output. -/
def trioFiles (output : Node) : Files :=
  { nodes := ⟨[(["a"], .directory), (["a", "bin"], output), (["b"], .directory),
      (["b", "bin"], .directory), (["c"], .directory)]⟩
    streams := []
    nextFile := 0
    directory := [] }

def trioStart (output : Node) : World Unit :=
  (ExecuteLog.attach ⟨"/out"⟩ "k" (.start (trioFiles output) ())).2

def trioLog : ExecuteLog := ⟨⟨"/out/execute_log_k.txt"⟩, ⟨0⟩⟩

def logUnseen (layout : Layout) (log : ExecuteLog) (submissions : List Submission)
    (entry : Batch Submission (Except Failure Outcome) ResultSet ρ × Move) : Bool :=
  (report? entry).all fun report =>
    submissions.all fun other =>
      entry.1.world.files.SameOn (layout.reach other)
        (log.report report.1 report.2 entry.1.world).2.files

theorem unseen_of_logUnseen {layout : Layout} {log : ExecuteLog} {submissions : List Submission}
    {entry : Batch Submission (Except Failure Outcome) ResultSet ρ × Move}
    (h : logUnseen layout log submissions entry = true) :
    Unseen layout log.report submissions entry := by
  intro submission outcome hreport other hother
  rw [logUnseen, hreport] at h
  have hsame := of_decide_eq_true (List.all_eq_true.mp h other hother)
  exact hsame

/-- What comes of the three together, if it takes fewer moves than given. -/
def trioRun (runner : Runner Unit) (bound : Nat) (output : Node) :
    Option (Option Batch.Stop × Bool × List (String × Outcome)) :=
  (Dispatcher.runWithin bound trioDispatcher runner trioLog.report .prompt trio
      (trioStart output)).map fun (result, past) =>
    (result.stop, past.all (logUnseen trioLayout trioLog trio), result.batch.gathered.entries)

theorem of_trioRun {runner : Runner Unit} {bound : Nat} {output : Node} {stop : Option Batch.Stop}
    {entries : List (String × Outcome)}
    (h : trioRun runner bound output = some (stop, true, entries)) :
    let result := trioDispatcher.run runner trioLog.report .prompt trio (trioStart output)
    (∀ entry ∈ trioDispatcher.history runner trioLog.report .prompt trio (trioStart output),
        Unseen trioLayout trioLog.report trio entry) ∧
      result.stop = stop ∧ result.batch.gathered.entries = entries := by
  intro result
  obtain ⟨⟨found, past⟩, hwithin, heq⟩ := Option.map_eq_some_iff.mp h
  obtain ⟨hresult, hpast⟩ := Dispatcher.run_of_runWithin hwithin
  obtain ⟨hstop, heq⟩ := Prod.mk.inj heq
  obtain ⟨hunseen, hentries⟩ := Prod.mk.inj heq
  have hfound : result = found := hresult
  refine ⟨fun entry hentry => ?_, by rw [hfound, hstop], by rw [hfound, hentries]⟩
  rw [hpast] at hentry
  exact unseen_of_logUnseen (List.all_eq_true.mp hunseen entry hentry)

theorem keeps_trio : ∀ submission ∈ trio, ∀ call,
    trioDispatcher.pipeline.Asks submission (.run call) →
      trioRunner.Keeps (trioLayout.own submission) trioLayout.shared call := by
  intro submission hmem call hasks
  by_cases hwrites : call.directory = ⟨"/b/bin"⟩
  · have hwhere : ∀ submission ∈ trio, submission.root = ⟨"/b/bin"⟩ ∨
        trioDispatcher.pipeline.recipe.outputDirectory submission = ⟨"/b/bin"⟩ →
        submission.label = "b" := by
      decide
    have hlabel : submission.label = "b" := by
      apply hwhere submission hmem
      rw [← hwrites]
      exact (Pipeline.directory_of_asks _ _ hasks).imp Eq.symm Eq.symm
    have hhome : trioLayout.home submission = ["b"] := congrArg (fun label => [RawText.ofText label]) hlabel
    have hown : trioLayout.own submission ["b", "bin", "output.png"] = true := by
      rw [Layout.own, hhome]
      decide
    refine ⟨fun files memory => ?_, fun files other memory memory' h => ?_⟩
    · rw [trioRunner, if_pos hwrites]
      have hput : Files.SameOn (trioLayout.own submission).outside files
          (files.put ["b", "bin", "output.png"] (.file ⟨files.nextFile⟩ .empty false)) :=
        Files.sameOn_put_of_not_mem (by rw [Region.outside, hown]; rfl) files _
      exact ⟨hput.directory, hput.view⟩
    · rw [trioRunner, trioRunner, if_pos hwrites, if_pos hwrites]
      have hsame : Node.SameContent (.file ⟨files.nextFile⟩ .empty false)
          (.file ⟨other.nextFile⟩ .empty false) := rfl
      have hput := h.put hsame ["b", "bin", "output.png"]
      exact ⟨rfl, hput.directory, hput.view⟩
  · refine ⟨fun files memory => ?_, fun files other memory memory' h => ?_⟩
    · rw [trioRunner, if_neg hwrites]
      split <;> exact .refl _ _
    · rw [trioRunner, trioRunner, if_neg hwrites, if_neg hwrites]
      split <;> exact ⟨rfl, h⟩

theorem alone_trio (output : Node) (h : output = .directory ∨ output = .link ⟨"/b/bin"⟩) :
    trio.map (fun submission => reported? (trioDispatcher.alone trioRunner (trioStart output) submission)) =
      [some .success, some (.artifactPathError ⟨"/a/bin"⟩ 0), some brokenDown] := by
  rcases h with rfl | rfl <;> decide

theorem separate_trio (output : Node) (h : output = .directory ∨ output = .link ⟨"/b/bin"⟩) :
    Separate trioLayout trioDispatcher trioRunner trioLog.report trio (trioStart output) where
  labels := by decide
  homes := by decide
  shared := by
    intro submission hmem location hshared
    rcases of_decide_eq_true hshared with rfl | rfl
    · revert submission
      decide
    · revert submission
      decide
  keeps := keeps_trio
  told := fun _ _ _ => rfl
  sound := by
    intro submission hmem failure hfatal
    have hreported : reported? (trioDispatcher.alone trioRunner (trioStart output) submission) ∈
        [some .success, some (.artifactPathError ⟨"/a/bin"⟩ 0), some brokenDown] :=
      alone_trio output h ▸ List.mem_map_of_mem hmem
    rw [hfatal] at hreported
    simp [reported?] at hreported

/-- With directories of their own, the three do not leave home unless a command makes a link. -/
theorem staysHome_trio {runner : Runner Unit}
    (hkeeps : ∀ submission ∈ trio, ∀ call, trioDispatcher.pipeline.Asks submission (.run call) →
      runner.Keeps (trioLayout.own submission) trioLayout.shared call)
    (hplain : ∀ submission ∈ trio,
      ∀ moment ∈ (trioDispatcher.pipeline.process submission).moments runner (trioStart .directory),
        ∀ entry ∈ moment.world.files.nodes.entries,
          entry.2.isLink = false ∧ ∀ name ∈ entry.1, Path.Proper name) :
    ∀ submission ∈ trio,
      trioDispatcher.StaysHome trioLayout runner (trioStart .directory) submission := by
  intro submission hmem
  have hpaths : ∀ submission ∈ trio, (".." : RawText) ∉ submission.root.segments ∧
      trioLayout.home submission = Files.destination [] submission.root := by
    decide
  refine staysHome_of_plain (hkeeps submission hmem) (hpaths submission hmem).1 (by decide)
    (by decide) (hpaths submission hmem).2 ?_ fun moment hmoment =>
      Files.plain_of_entries (hplain submission hmem moment hmoment)
  intro above habove hne
  have hlabel : trioLayout.home submission = [submission.label] := rfl
  rw [hlabel] at habove hne
  rcases List.prefix_cons_iff.mp habove with rfl | ⟨rest, rfl, hrest⟩
  · exact ⟨rfl, by simp [Files.node?]⟩
  · rw [List.prefix_nil.mp hrest] at hne
    exact absurd rfl hne

/-- With directories of their own, the three come to what they come to alone. -/
theorem outcomes_alone_trio :
    let result := trioDispatcher.run trioRunner trioLog.report .prompt trio (trioStart .directory)
    result.stop = none ∧
      ((trioDispatcher.reports trioRunner trioLog.report .prompt trio (trioStart .directory)).map
          fun report => (report.1, some report.2)).Perm
        (trio.map fun submission =>
          (submission, reported? (trioDispatcher.alone trioRunner (trioStart .directory) submission))) ∧
      result.batch.gathered.keys.Perm (trio.map Submission.label) ∧
      result.batch.gathered.size = trio.length ∧
      (result.batch.gathered.tally.map Prod.snd).sum = trio.length ∧
      ∀ submission ∈ trio, ∃ outcome,
        reported? (trioDispatcher.alone trioRunner (trioStart .directory) submission) =
          some outcome ∧
        result.batch.gathered.find? submission.label = some outcome := by
  have hrun : trioRun trioRunner 60 .directory = some (none, true,
      [("b", .success), ("a", .artifactPathError ⟨"/a/bin"⟩ 0), ("c", brokenDown)]) := by
    decide
  have hplain : ∀ submission ∈ trio,
      ∀ moment ∈ (trioDispatcher.pipeline.process submission).moments trioRunner (trioStart .directory),
        ∀ entry ∈ moment.world.files.nodes.entries,
          entry.2.isLink = false ∧ ∀ name ∈ entry.1, Path.Proper name := by
    decide
  exact outcomes_alone (separate_trio .directory (.inl rfl)) (staysHome_trio keeps_trio hplain)
    (of_trioRun hrun).1 (by decide)

/-- The output of the second one is a link to that of the first one. Everybody keeps to their own home, but the
second one has the artifact of the first one taken for its own. -/
theorem link_shares_artifact :
    let result := trioDispatcher.run trioRunner trioLog.report .prompt trio
      (trioStart (.link ⟨"/b/bin"⟩))
    Separate trioLayout trioDispatcher trioRunner trioLog.report trio
        (trioStart (.link ⟨"/b/bin"⟩)) ∧
      (∀ entry ∈ trioDispatcher.history trioRunner trioLog.report .prompt trio
          (trioStart (.link ⟨"/b/bin"⟩)),
        Unseen trioLayout trioLog.report trio entry) ∧
      Pool.permits trioDispatcher.jobs ≤ Pool.maxPermits ∧
      result.stop = none ∧
      reported? (trioDispatcher.alone trioRunner (trioStart (.link ⟨"/b/bin"⟩))
          (.ofRoot "a" ⟨"/a"⟩)) = some (.artifactPathError ⟨"/a/bin"⟩ 0) ∧
      result.batch.gathered.find? "a" = some .success := by
  intro result
  have hrun : trioRun trioRunner 60 (.link ⟨"/b/bin"⟩) =
      some (none, true, [("b", .success), ("a", .success), ("c", brokenDown)]) := by
    decide
  obtain ⟨hunseen, hstop, hentries⟩ := of_trioRun hrun
  refine ⟨separate_trio _ (.inr rfl), hunseen, by decide, hstop, by decide, ?_⟩
  rw [Table.find?, hentries]
  decide

end Dispatcher

end Assay
