import Assay.Proofs.Batch.Evaluation
import Assay.Proofs.Program.Preliminaries
import Assay.Proofs.Scoring.Script
import Assay.Proofs.Scoring.Streams

/-!
# When the analyzer cannot be launched

A group stops at the first of its calls that is not launched: it makes none after that, its stream holds what the
calls before have written, and what it comes to is this failure, however often something went wrong before. For the
scoring as a whole this is an end without reports, wherever the other groups are.
-/

namespace Assay

variable {ρ : Type}

namespace Scorer

variable {scorer : Scorer} {references students : List Submission} {reference : Submission} {runner : Runner ρ}
  {moments : List (Moment ρ)} {issue : Issue ρ} {program detail : String}

/-! ### One group -/

theorem Standing.launched_of_perform {effect : Effect} {next : effect.Reply → Task (Except Failure GroupReport)}
    (h : scorer.Standing students reference runner moments (.perform effect next)) :
    ∀ issue ∈ moments.filterMap Moment.issue?, issue.Launched runner := by
  generalize hrest : Task.perform effect next = rest at h
  cases h with
  | waiting => exact fun _ hissue => nomatch hissue
  | unopened => cases hrest
  | begun hstream hfollowed =>
      generalize moments.filterMap Moment.issue? = issues at hfollowed
      cases hfollowed with
      | on _ hlaunched _ => exact hlaunched
      | refused => cases hrest

/-- A group that has its report has made all of its calls. -/
theorem Standing.all_of_report {report : GroupReport}
    (h : scorer.Standing students reference runner moments (.done (.ok report))) :
    (∀ issue ∈ moments.filterMap Moment.issue?, issue.Launched runner) ∧
      ∃ stream, moments.findSome? Moment.stream? = some stream ∧
        (moments.filterMap Moment.issue?).map Issue.call = scorer.callsOf stream reference students := by
  generalize hrest : (Task.done (.ok report) : Task (Except Failure GroupReport)) = rest at h
  cases h with
  | waiting =>
      rw [scoreGroup_eq] at hrest
      cases hrest
  | unopened => cases hrest
  | begun hstream hfollowed =>
      generalize moments.filterMap Moment.issue? = issues at hfollowed
      subst hrest
      cases hfollowed with
      | on hcalls hlaunched hrest =>
          cases hrest
          exact ⟨hlaunched, _, hstream, by rw [hcalls, List.append_nil]⟩

/-- A group one of whose calls was not launched has come to its end with it. -/
structure Refused (scorer : Scorer) (students : List Submission) (reference : Submission) (runner : Runner ρ)
    (moments : List (Moment ρ)) (before : List (Issue ρ)) (issue : Issue ρ) (program detail : String) : Prop where
  issues : moments.filterMap Moment.issue? = before ++ [issue]
  launched : ∀ earlier ∈ before, earlier.Launched runner
  calls : ∃ stream, moments.findSome? Moment.stream? = some stream ∧
    before.length < (scorer.callsOf stream reference students).length ∧
    (before ++ [issue]).map Issue.call = (scorer.callsOf stream reference students).take (before.length + 1)
  leads : (scorer.scoreGroup students reference).Leads runner moments (.done (.error (.launch program detail)))

theorem refused_of_leads {rest : Task (Except Failure GroupReport)} {before after : List (Issue ρ)}
    (h : (scorer.scoreGroup students reference).Leads runner moments rest)
    (hissues : moments.filterMap Moment.issue? = before ++ issue :: after)
    (hanswer : issue.answer runner = .ok (.notLaunched program detail)) :
    after = [] ∧ scorer.Refused students reference runner moments before issue program detail := by
  have hissue : issue ∈ moments.filterMap Moment.issue? := by
    rw [hissues]
    exact List.mem_append_right _ (.head _)
  -- It is not among those that were launched, so it is the last one.
  have hnot {issues : List (Issue ρ)} (hlaunched : ∀ earlier ∈ issues, earlier.Launched runner) :
      issue ∉ issues := fun hmem => hlaunched issue hmem program detail hanswer
  cases standing_of_leads h with
  | waiting => cases hissue
  | unopened => cases hissue
  | @begun _ _ stream hstream hfollowed =>
      generalize hall : moments.filterMap Moment.issue? = issues at hfollowed hissues hissue
      cases hfollowed with
      | on hcalls hlaunched hrest => exact absurd hissue (hnot hlaunched)
      | @refused first last left program' detail' hcalls hlaunched hlast =>
          obtain rfl : issue = last := by
            rcases List.mem_append.mp hissue with hmem | hmem
            · exact absurd hmem (hnot hlaunched)
            · exact List.mem_singleton.mp hmem
          cases hanswer.symm.trans hlast
          obtain ⟨rfl, -, rfl⟩ := (List.append_cons_inj_of_notMem (hnot hlaunched) List.not_mem_nil).mp hissues
          refine ⟨rfl, hall, hlaunched, ⟨stream, hstream, ?_, ?_⟩, h⟩
          · rw [hcalls]
            simp
          · rw [hcalls, List.take_append_of_le_length (by simp), List.take_of_length_le (by simp)]

/-! ### All groups -/

section Batch

variable {past final : List (Batch Submission (Except Failure GroupReport) (List GroupReport) ρ × Move)}
  {last : Batch Submission (Except Failure GroupReport) (List GroupReport) ρ} {world : World ρ} {index : Nat}

theorem refused_of_trail {before after : List (Issue ρ)}
    (h : Batch.Trail runner (scorer.collect students.length) (scorer.start references students world) past last)
    (hreference : references[index]? = some reference)
    (hissues : Batch.issuesOf index past = before ++ issue :: after)
    (hanswer : issue.answer runner = .ok (.notLaunched program detail)) :
    after = [] ∧
      scorer.Refused students reference runner (Batch.doings index past) before issue program detail := by
  -- Everything before the last thing that the worker did was launched, so the last thing is the call.
  obtain ⟨first, moment, hdoings⟩ : ∃ first moment, Batch.doings index past = first ++ [moment] := by
    refine List.eq_nil_or_concat' _ |>.resolve_left fun hnone => ?_
    rw [Batch.issuesOf, hnone] at hissues
    cases (List.append_eq_nil_iff.mp hissues.symm).2
  obtain ⟨rest, hleads⟩ := Batch.leads_of_doings h hreference hdoings
  have hlaunched := (standing_of_leads hleads).launched_of_perform
  have hlast : moment.issue? = some issue := by
    have hmem : issue ∈ (first ++ [moment]).filterMap Moment.issue? := by
      rw [← hdoings, ← Batch.issuesOf, hissues]
      exact List.mem_append_right _ (.head _)
    rw [List.filterMap_append, List.mem_append] at hmem
    rcases hmem with hearlier | hnow
    · exact absurd hanswer (hlaunched issue hearlier program detail)
    · simpa using hnow
  obtain ⟨effect, found⟩ := moment
  cases effect with
  | run call =>
      cases hlast
      have hdone := hleads.concat hanswer
      rw [← hdoings] at hdone
      exact refused_of_leads hdone hissues hanswer
  | _ => cases hlast

theorem all_of_collected
    (h : Batch.Trail runner (scorer.collect students.length) (scorer.start references students world) past last)
    (hworker : last.pool.workers[index]? = some ⟨reference, .collected⟩) :
    ∃ report, (scorer.scoreGroup students reference).Leads runner (Batch.doings index past)
      (.done (.ok report)) := by
  obtain ⟨result, before, world', gathered, htaken, hled⟩ := Batch.collected_of_trail h hworker
  rcases result with panic | failure | report
  · cases htaken
  · cases htaken
  · exact ⟨report, hled⟩

theorem stop_of_close {result : Result ρ}
    (h : Batch.Close runner (scorer.collect students.length) last final result) :
    (∃ failure, result.stop = some (.failed failure)) ∨ last.pool.moves = [] ∧ result.stop = none := by
  cases h with
  | exhausted hmoves => exact .inr ⟨hmoves, rfl⟩
  | stopped _ _ => exact .inl ⟨_, rfl⟩

/-- A failure changes nothing. -/
theorem files_of_close {result : Result ρ}
    (h : Batch.Close runner (scorer.collect students.length) last final result) :
    result.batch.world.files = last.world.files := by
  cases h with
  | exhausted hmoves => rfl
  | stopped hmove hmake =>
      obtain ⟨index, job, result, rfl, hworker, hfails⟩ := Batch.collect_of_make_stopped hmake
      rw [Batch.make_collect_failed hworker hfails] at hmake
      cases hmake
      rcases result with panic | failure | report
      · rfl
      · rfl
      · cases hfails

end Batch

/-- The streams of the references are files of their own, which nobody but the analyzer writes to, and an analyzer
that was not launched has not written anything. -/
structure Streaming (scorer : Scorer) (references students : List Submission) (runner : Runner ρ)
    (schedule : Schedule) (world : World ρ) (wrote : Issue ρ → Bytes) : Prop where
  labels : (references.map Submission.label).Nodup
  slashless : ∀ reference ∈ references, '/' ∉ reference.label.toList
  fresh : world.files.Fresh
  awaits : ∀ reference ∈ references, ∃ location,
    (world.files.ensureDirectory world.files.directory scorer.outputDirectory).2.Awaits
      (scorer.streamPath reference) location
  writes : ∀ index, ∀ issue ∈ Batch.issuesOf index (scorer.history references students runner schedule world),
    scorer.WritesOnly references runner wrote issue
  silent : ∀ index, ∀ issue ∈ Batch.issuesOf index (scorer.history references students runner schedule world),
    ∀ program detail, issue.answer runner = .ok (.notLaunched program detail) → wrote issue = ByteArray.empty

section Run

variable {schedule : Schedule} {world : World ρ} {index : Nat}

theorem complete_of_stop_eq_none (hstop : (scorer.run runner schedule references students world).stop = none)
    (hreference : references[index]? = some reference) :
    ∃ stream report,
      (scorer.scoreGroup students reference).Leads runner
        (Batch.doings index (scorer.history references students runner schedule world)) (.done (.ok report)) ∧
      (Batch.issuesOf index (scorer.history references students runner schedule world)).map Issue.call =
        scorer.callsOf stream reference students ∧
      ∀ issue ∈ Batch.issuesOf index (scorer.history references students runner schedule world),
        issue.Launched runner := by
  rcases trail_run scorer references students runner schedule world with ⟨hnot, -⟩ |
    ⟨made, past, last, final, -, htrail, hclose, hhistory⟩
  · exact absurd hstop hnot
  rcases stop_of_close hclose with ⟨failure, hfailed⟩ | ⟨hmoves, -⟩
  · cases hstop.symm.trans hfailed
  have hworker := Pool.worker_of_collectedJobs (Batch.collectedJobs_of_trail htrail hmoves)
    (Batch.jobs_of_trail htrail) hreference
  obtain ⟨report, hleads⟩ := all_of_collected htrail hworker
  obtain ⟨hlaunched, stream, -, hcalls⟩ := (standing_of_leads hleads).all_of_report
  rw [Batch.issuesOf, hhistory, Batch.doings_append_close hclose]
  exact ⟨stream, report, hleads, hcalls, hlaunched⟩

theorem refused_of_history {before after : List (Issue ρ)} (hreference : references[index]? = some reference)
    (hissues : Batch.issuesOf index (scorer.history references students runner schedule world) =
      before ++ issue :: after)
    (hanswer : issue.answer runner = .ok (.notLaunched program detail)) :
    after = [] ∧ scorer.Refused students reference runner
        (Batch.doings index (scorer.history references students runner schedule world)) before issue
        program detail ∧
      ∃ failure, (scorer.run runner schedule references students world).stop = some (.failed failure) := by
  have hissue : issue ∈ Batch.issuesOf index (scorer.history references students runner schedule world) := by
    rw [hissues]
    exact List.mem_append_right _ (.head _)
  have hstop : (scorer.run runner schedule references students world).stop ≠ none := by
    intro hstop
    obtain ⟨-, -, -, -, hlaunched⟩ := complete_of_stop_eq_none hstop hreference
    exact hlaunched issue hissue program detail hanswer
  rcases trail_run scorer references students runner schedule world with ⟨-, hnone⟩ |
    ⟨made, past, last, final, -, htrail, hclose, hhistory⟩
  · rw [hnone] at hissue
    cases hissue
  rw [Batch.issuesOf, hhistory, Batch.doings_append_close hclose] at hissues
  rw [hhistory, Batch.doings_append_close hclose]
  obtain ⟨hafter, hrefused⟩ := refused_of_trail htrail hreference hissues hanswer
  rcases stop_of_close hclose with hfailed | ⟨-, hnone⟩
  · exact ⟨hafter, hrefused, hfailed⟩
  · exact absurd hnone hstop

/-- The stream of a group that has begun holds what its calls have written, whatever has come of them. -/
theorem Streaming.read_eq {wrote : Issue ρ → Bytes}
    (h : scorer.Streaming references students runner schedule world wrote)
    (hreference : references[index]? = some reference)
    (hbegan : Batch.issuesOf index (scorer.history references students runner schedule world) ≠ []) :
    (scorer.run runner schedule references students world).batch.world.files.read
        (scorer.run runner schedule references students world).batch.world.files.directory
        (scorer.streamPath reference) =
      .ok (written wrote
        (Batch.issuesOf index (scorer.history references students runner schedule world))) := by
  have hwrites := h.writes
  obtain ⟨place, hapart, hawaits⟩ := exists_apart h.labels h.slashless h.awaits
  have hfresh := h.fresh.ensureDirectory world.files.directory scorer.outputDirectory
  rcases trail_run scorer references students runner schedule world with ⟨-, hnone⟩ |
    ⟨made, past, last, final, hmade, htrail, hclose, hhistory⟩
  · rw [hnone] at hbegan
    exact absurd rfl hbegan
  have hissues (index : Nat) : Batch.issuesOf index (scorer.history references students runner schedule world) =
      Batch.issuesOf index past := by
    rw [Batch.issuesOf, hhistory, Batch.doings_append_close hclose, Batch.issuesOf]
  simp only [hissues] at hwrites hbegan ⊢
  rw [hmade] at hfresh hawaits
  have hafloat := afloat_of_trail hapart hfresh hawaits htrail hwrites
  rw [files_of_close hclose]
  refine hafloat.flowing.read_eq hreference fun hnone => hbegan ?_
  rw [Batch.issuesOf, hnone]
  rfl

end Run

/-- Under every schedule, a group one of whose calls is not launched has made its calls up to this one and no more,
has come to this failure and left what the calls before have written, and the scoring fails. If it does not fail,
all groups have made all of their calls. -/
theorem launch_failure_stops (scorer : Scorer) (runner : Runner ρ) (schedule : Schedule)
    (references students : List Submission) (world : World ρ) :
    let result := scorer.run runner schedule references students world
    let history := scorer.history references students runner schedule world
    (∀ (index : Nat) (reference : Submission) (before after : List (Issue ρ)) (issue : Issue ρ)
        (program detail : String), references[index]? = some reference →
      Batch.issuesOf index history = before ++ issue :: after →
      issue.answer runner = .ok (.notLaunched program detail) →
        after = [] ∧
        scorer.Refused students reference runner (Batch.doings index history) before issue program detail ∧
        (∀ wrote, scorer.Streaming references students runner schedule world wrote →
          result.batch.world.files.read result.batch.world.files.directory (scorer.streamPath reference) =
            .ok (written wrote before)) ∧
        ∃ failure, result.stop = some (.failed failure) ∧
          (Program.outcome (Program.gather (scorer.run runner schedule references students)) world).1 =
            .error (.failed failure)) ∧
      (result.stop = none → ∀ (index : Nat) (reference : Submission), references[index]? = some reference →
        ∃ stream report,
          (scorer.scoreGroup students reference).Leads runner (Batch.doings index history)
            (.done (.ok report)) ∧
          (Batch.issuesOf index history).map Issue.call = scorer.callsOf stream reference students ∧
          ∀ issue ∈ Batch.issuesOf index history, issue.Launched runner) := by
  intro result history
  refine ⟨fun index reference before after issue program detail hreference hissues hanswer => ?_,
    fun hstop index reference => complete_of_stop_eq_none hstop⟩
  obtain ⟨rfl, hrefused, failure, hfailed⟩ := refused_of_history hreference hissues hanswer
  refine ⟨rfl, hrefused, fun wrote hstreaming => ?_, failure, hfailed, by rw [Program.outcome_gather, hfailed]⟩
  have hbegan : Batch.issuesOf index history ≠ [] := by
    rw [hissues]
    exact List.append_ne_nil_of_right_ne_nil _ (List.cons_ne_nil _ _)
  have hsilent : wrote issue = ByteArray.empty :=
    hstreaming.silent index issue (by rw [hissues]; exact List.mem_append_right _ (.head _)) program detail hanswer
  have hread := hstreaming.read_eq hreference hbegan
  rw [hissues, written_concat, hsilent, ByteArray.append_empty] at hread
  exact hread

/-- The first run of the analyzer goes wrong, the fourth takes too long, and the seventh does not come about. -/
def fadingEnding : Nat → Ending
  | 0 => .exited 3
  | 3 => .timedOut ⟨5⟩
  | 6 => .notLaunched "analyzer" "not found"
  | _ => .exited 0

/-- An analyzer that is launched says which file it was run on. -/
def murmured (issue : Issue Nat) : Bytes :=
  match fadingEnding issue.memory with
  | .notLaunched _ _ => ByteArray.empty
  | _ => said issue.call

def fading : Runner Nat := fun call files runs =>
  let files := match call.stdout with
    | .stream stream => files.write stream (murmured ⟨call, files, runs⟩)
    | _ => files
  (.ok (fadingEnding runs), files, runs + 1)

theorem writesOnly_fading (scorer : Scorer) (references : List Submission) (issue : Issue Nat) :
    scorer.WritesOnly references fading murmured issue := by
  intro stream hstream
  simp only [Issue.filesAfter, fading, hstream]
  exact Files.Confined.refl _ _

theorem silent_fading {issue : Issue Nat} {program detail : String}
    (h : issue.answer fading = .ok (.notLaunched program detail)) : murmured issue = ByteArray.empty := by
  have hending : fadingEnding issue.memory = .notLaunched program detail := Except.ok.inj h
  rw [murmured, hending]

def pairReferences : List Submission :=
  [.ofRoot "first" ⟨"/a"⟩, .ofRoot "second" ⟨"/b"⟩]

def pairStudents : List Submission :=
  [.ofRoot "s" ⟨"/s"⟩, .ofRoot "s" ⟨"/t"⟩]

/-- Both groups are at work when the first one fails, after two runs of which none went well. -/
theorem launch_failure_stops_fading :
    let world : World Nat := .start scoredBefore 0
    let result := pairScorer.run fading .prompt pairReferences pairStudents world
    let history := pairScorer.history pairReferences pairStudents fading .prompt world
    ∃ before issue, Batch.issuesOf 0 history = before ++ [issue] ∧
      before.map (Issue.answer fading) = [.ok (.exited 3), .ok (.timedOut ⟨5⟩)] ∧
      issue.answer fading = .ok (.notLaunched "analyzer" "not found") ∧
      pairScorer.Refused pairStudents (.ofRoot "first" ⟨"/a"⟩) fading (Batch.doings 0 history) before issue
        "analyzer" "not found" ∧
      result.batch.world.files.read result.batch.world.files.directory
          (pairScorer.streamPath (.ofRoot "first" ⟨"/a"⟩)) = .ok (Bytes.ofText "/s/src/p.c/s/src/q.c") ∧
      ∃ failure, result.stop = some (.failed failure) := by
  intro world result history
  have hrun : (Batch.runWithin fading (pairScorer.collect pairStudents.length) .prompt 40 0
      (pairScorer.start pairReferences pairStudents world)).map (fun run =>
        (Batch.issuesOf 0 run.2).map fun issue => (issue.answer fading, murmured issue)) =
      some [(.ok (.exited 3), Bytes.ofText "/s/src/p.c"), (.ok (.timedOut ⟨5⟩), Bytes.ofText "/s/src/q.c"),
        (.ok (.notLaunched "analyzer" "not found"), ByteArray.empty)] := by
    decide
  obtain ⟨⟨found, past⟩, hwithin, hanswers⟩ := Option.map_eq_some_iff.mp hrun
  have hpast : history = past :=
    (history_eq made_pair (by decide) Schedule.prompt).trans (Batch.runFrom_of_runWithin hwithin).2
  obtain ⟨first, second, last, hissues, hfirst, hsecond, hlast⟩ : ∃ first second last,
      Batch.issuesOf 0 history = [first, second] ++ last :: [] ∧
        (first.answer fading, murmured first) = (.ok (.exited 3), Bytes.ofText "/s/src/p.c") ∧
        (second.answer fading, murmured second) = (.ok (.timedOut ⟨5⟩), Bytes.ofText "/s/src/q.c") ∧
        (last.answer fading, murmured last) =
          (.ok (.notLaunched "analyzer" "not found"), ByteArray.empty) := by
    rw [hpast]
    rcases hall : Batch.issuesOf 0 past with _ | ⟨first, _ | ⟨second, _ | ⟨last, _ | _⟩⟩⟩ <;>
      simp_all
  have hstreaming : pairScorer.Streaming pairReferences pairStudents fading .prompt world murmured :=
    { labels := by decide
      slashless := by decide
      fresh := by decide
      awaits := fun reference hreference =>
        awaits_pair reference (List.mem_pair.mpr (List.mem_pair.mp hreference).symm)
      writes := fun _ issue _ => writesOnly_fading pairScorer pairReferences issue
      silent := fun _ _ _ _ _ hanswer => silent_fading hanswer }
  obtain ⟨-, hrefused, hread, failure, hstop, -⟩ :=
    (launch_failure_stops pairScorer fading .prompt pairReferences pairStudents world).1 0 (.ofRoot "first" ⟨"/a"⟩)
      [first, second] [] last "analyzer" "not found" rfl hissues (Prod.mk.inj hlast).1
  have hwritten : written murmured [first, second] = Bytes.ofText "/s/src/p.c/s/src/q.c" := by
    rw [written, List.map_cons, List.map_cons, (Prod.mk.inj hfirst).2, (Prod.mk.inj hsecond).2]
    decide
  refine ⟨[first, second], last, hissues, ?_, (Prod.mk.inj hlast).1, hrefused, ?_, failure, hstop⟩
  · rw [List.map_cons, List.map_cons, (Prod.mk.inj hfirst).1, (Prod.mk.inj hsecond).1]
    rfl
  · exact (hread murmured hstreaming).trans (congrArg _ hwritten)

end Scorer

end Assay
