import Assay.Proofs.ExecuteLog.Agreement

/-!
# A batch and its log

A batch that is run to its end with a log of its own is an occasion. Where the log is empty at first, the tags
that it holds in the end are those of the lines of what was reported, and of nothing else.
-/

namespace Assay

namespace ExecuteLog

variable {ρ : Type}

/-- A batch that is run to its end with a log of its own. -/
structure Occasion (ρ : Type) where
  dispatcher : Dispatcher
  runner : Runner ρ
  schedule : Schedule
  submissions : List Submission
  log : ExecuteLog
  world : World ρ

namespace Occasion

variable (occasion : Occasion ρ)

def result : Dispatcher.Result ρ :=
  occasion.dispatcher.run occasion.runner occasion.log.report occasion.schedule occasion.submissions
    occasion.world

def history : List (Batch Submission (Except Failure Outcome) ResultSet ρ × Move) :=
  occasion.dispatcher.history occasion.runner occasion.log.report occasion.schedule
    occasion.submissions occasion.world

def reports : List (Submission × Outcome) :=
  occasion.dispatcher.reports occasion.runner occasion.log.report occasion.schedule
    occasion.submissions occasion.world

/-- What the log says in the end. -/
def tags : Except Failure (Table String Verdict) :=
  (verdicts occasion.log.path occasion.result.batch.world).1

/-- The log is empty at first, no command touches it, and the batch comes to its end. -/
structure Fresh : Prop where
  holds : occasion.log.Holds (Bytes.ofText "") occasion.world.files
  spared : ∀ entry ∈ occasion.history, Spares occasion.log occasion.runner entry
  ended : occasion.result.stop = none

variable {occasion}

theorem reports_eq : occasion.reports = Dispatcher.reportsOf occasion.history :=
  Dispatcher.reports_eq

theorem Fresh.tags_eq (h : occasion.Fresh) :
    occasion.tags = .ok (Record.verdicts (Record.linesOf (recordsOf occasion.reports))) := by
  obtain ⟨htrail, _⟩ := Dispatcher.trail_of_stop_eq_none h.ended
  have hholds := holds_of_trail htrail h.holds h.spared
  rw [String.empty_append] at hholds
  have hread : occasion.result.batch.world.files.readText
      occasion.result.batch.world.files.directory occasion.log.path =
        .ok (Record.linesOf (recordsOf occasion.reports)) := by
    rw [reports_eq]
    exact hholds.readText_eq
  rw [tags, verdicts, hread]

end Occasion

/-- What can be told of a batch by working it out. -/
structure Digest where
  stop : Option Batch.Stop
  spared : Bool
  reports : List (Submission × Outcome)
  names : List (Submission × RawText)
deriving DecidableEq

def Occasion.digest (occasion : Occasion ρ) (bound : Nat) : Option Digest :=
  (Dispatcher.runWithin bound occasion.dispatcher occasion.runner occasion.log.report
      occasion.schedule occasion.submissions occasion.world).map fun (result, past) =>
    { stop := result.stop
      spared := past.all fun entry => (filesOfRun occasion.runner entry).all fun files =>
        occasion.log.Undisturbed files.1 files.2
      reports := Dispatcher.reportsOf past
      names := past.flatMap
        (Dispatcher.candidates occasion.dispatcher.pipeline.artifactSuffix) }

theorem Occasion.of_digest {occasion : Occasion ρ} {bound : Nat} {digest : Digest}
    (h : occasion.digest bound = some digest) (hspared : digest.spared = true) :
    occasion.result.stop = digest.stop ∧
      (∀ entry ∈ occasion.history, Spares occasion.log occasion.runner entry) ∧
      occasion.reports = digest.reports ∧
      occasion.history.flatMap
        (Dispatcher.candidates occasion.dispatcher.pipeline.artifactSuffix) = digest.names := by
  obtain ⟨⟨result, past⟩, hwithin, rfl⟩ := Option.map_eq_some_iff.mp h
  obtain ⟨hresult, hpast⟩ := Dispatcher.run_of_runWithin hwithin
  have hhistory : occasion.history = past := hpast
  refine ⟨?_, ?_, ?_, ?_⟩
  · rw [Occasion.result, hresult]
  · rw [hhistory]
    intro entry hentry
    apply spares_of_undisturbed
    intro files hfiles
    have hall := List.all_eq_true.mp hspared entry hentry
    rw [Option.mem_def.mp hfiles] at hall
    exact of_decide_eq_true hall
  · rw [Occasion.reports_eq, hhistory]
  · rw [hhistory]

end ExecuteLog

end Assay
