import Assay.Proofs.Batch.Permits
import Assay.Proofs.Dispatch.Reports

/-!
# Everybody is reported once

A batch that is not stopped reports each of its submissions, none of them twice, in some order. Whoever has
been reported is whoever has been collected, and at the end that is everybody, since there was always a permit
for the next one.
-/

namespace Assay

namespace Phase

variable {α : Type}

def isAborted : Phase α → Bool
  | aborted => true
  | _ => false

end Phase

namespace Batch

variable {ι α γ ρ : Type} {runner : Runner ρ} {collector : Collector ι α γ ρ}

/-- Only a batch that is stopped aborts its workers. -/
theorem Step.not_aborted {batch next : Batch ι α γ ρ} {move : Move}
    (h : Step runner collector batch move next)
    (hbatch : ∀ worker ∈ batch.pool.workers, worker.phase.isAborted = false) :
    ∀ worker ∈ next.pool.workers, worker.phase.isAborted = false := by
  have hset : ∀ (index : Nat) (new : Phase α), new.isAborted = false →
      ∀ worker ∈ (batch.pool.setPhase index new).workers, worker.phase.isAborted = false := by
    intro index new hnew worker hworker
    obtain ⟨other, hother⟩ := List.mem_iff_getElem?.mp hworker
    rcases Pool.of_getElem?_setPhase hother with ⟨_, hphase, _⟩ | ⟨_, hold⟩
    · rw [hphase]
      exact hnew
    · exact hbatch _ (List.mem_of_getElem? hold)
  cases h with
  | entered hworker hfree => exact hset _ _ rfl
  | advanced hworker hperform => exact hset _ _ rfl
  | panicked hworker hperform => exact hset _ _ rfl
  | ended hworker => exact hset _ _ rfl
  | collected hworker hcollect => exact hset _ _ rfl

theorem collectedJobs_start (jobs : Nat) (work : List (ι × Task α)) (gathered : γ) (world : World ρ) :
    (start jobs work gathered world).pool.collectedJobs = [] := by
  rw [Pool.collectedJobs, List.map_eq_nil_iff, List.filter_eq_nil_iff]
  intro worker hworker
  obtain ⟨⟨job, task⟩, _, rfl⟩ := List.mem_map.mp hworker
  exact Bool.false_ne_true

theorem collectedJobs_of_trail {jobs : Nat} {work : List (ι × Task α)} {gathered : γ}
    {world : World ρ} {past : List (Batch ι α γ ρ × Move)} {last : Batch ι α γ ρ}
    (h : Trail runner collector (start jobs work gathered world) past last)
    (hmoves : last.pool.moves = []) :
    last.pool.collectedJobs = last.pool.workers.map Worker.job := by
  have hsettled := isSettled_of_trail h hmoves
  have hkept := h.invariant
    (fun _ batch => ∀ worker ∈ batch.pool.workers, worker.phase.isAborted = false) [] (by
      intro worker hworker
      obtain ⟨⟨job, task⟩, _, rfl⟩ := List.mem_map.mp hworker
      rfl) fun _ _ _ _ _ hbatch hstep => hstep.not_aborted hbatch
  have hall : last.pool.workers.filter (fun worker => worker.phase.isCollected) =
      last.pool.workers := by
    rw [List.filter_eq_self]
    intro worker hworker
    have hdone := hsettled worker hworker
    have hnot := hkept worker hworker
    rcases hphase : worker.phase with _ | _ | _ | _ | _ <;> rw [hphase] at hdone hnot
    · cases hdone
    · cases hdone
    · cases hdone
    · rfl
    · cases hnot
  rw [Pool.collectedJobs, hall]

end Batch

namespace Dispatcher

open scoped List

variable {ρ : Type} {dispatcher : Dispatcher} {runner : Runner ρ} {reporter : Reporter ρ}
  {schedule : Schedule} {submissions : List Submission} {world : World ρ}

theorem collectedJobs_of_step {batch next : Batch Submission (Except Failure Outcome) ResultSet ρ}
    {move : Move} (hstep : Batch.Step runner (collect reporter) batch move next) :
    next.pool.collectedJobs.Perm
      (((reportsOf [(batch, move)]).map Prod.fst) ++ batch.pool.collectedJobs) := by
  cases move with
  | enter index =>
      cases hstep with
      | entered hworker hfree => exact Pool.collectedJobs_setPhase hworker rfl _
  | advance index =>
      cases hstep with
      | advanced hworker hperform => exact Pool.collectedJobs_setPhase hworker rfl _
      | panicked hworker hperform => exact Pool.collectedJobs_setPhase hworker rfl _
      | ended hworker => exact Pool.collectedJobs_setPhase hworker rfl _
  | collect index =>
      obtain ⟨submission, result, outcome, htaken⟩ := taken_of_step hstep
      have hreport : reportsOf [(batch, Move.collect index)] = [(submission, outcome)] := by
        rw [reportsOf, List.filterMap_cons, htaken.report?_eq]
        rfl
      rw [hreport, htaken.pool]
      exact Pool.collectedJobs_setPhase htaken.worker rfl .collected

theorem reports_perm_collectedJobs
    {past : List (Batch Submission (Except Failure Outcome) ResultSet ρ × Move)}
    {last : Batch Submission (Except Failure Outcome) ResultSet ρ}
    (h : Batch.Trail runner (collect reporter) (dispatcher.start submissions world) past last) :
    ((reportsOf past).map Prod.fst).Perm last.pool.collectedJobs := by
  refine h.invariant (fun past batch =>
    ((reportsOf past).map Prod.fst).Perm batch.pool.collectedJobs) [] ?_ ?_
  · have hnone : (dispatcher.start submissions world).pool.collectedJobs = [] :=
      Batch.collectedJobs_start ..
    rw [hnone]
    exact .refl []
  · intro past batch move next _ hpast hstep
    rw [reportsOf_append, List.map_append]
    calc (reportsOf past).map Prod.fst ++ (reportsOf [(batch, move)]).map Prod.fst
      _ ~ (reportsOf [(batch, move)]).map Prod.fst ++ (reportsOf past).map Prod.fst :=
          List.perm_append_comm
      _ ~ (reportsOf [(batch, move)]).map Prod.fst ++ batch.pool.collectedJobs :=
          hpast.append_left _
      _ ~ next.pool.collectedJobs := (collectedJobs_of_step hstep).symm

/-- Every submission is reported exactly once, and nobody else is. -/
theorem reports_perm
    (h : (dispatcher.run runner reporter schedule submissions world).stop = none) :
    ((dispatcher.reports runner reporter schedule submissions world).map Prod.fst).Perm
      submissions := by
  obtain ⟨htrail, hmoves⟩ := trail_of_stop_eq_none h
  have hjobs := htrail.invariant
    (fun _ batch => batch.pool.workers.map Worker.job = submissions) []
    (jobs_start dispatcher submissions world)
    fun _ _ _ _ _ hbatch hstep => hstep.jobs_eq.trans hbatch
  have hcollected := Batch.collectedJobs_of_trail htrail hmoves
  have hperm := reports_perm_collectedJobs htrail
  rw [hcollected, hjobs] at hperm
  rw [reports_eq]
  exact hperm

theorem labels_perm
    (h : (dispatcher.run runner reporter schedule submissions world).stop = none) :
    ((dispatcher.reports runner reporter schedule submissions world).map
        fun report => report.1.label).Perm (submissions.map Submission.label) := by
  have hperm := (reports_perm h).map Submission.label
  rw [List.map_map] at hperm
  exact hperm

/-! What a batch that came to its end has gathered are its reports, by label. -/

theorem gathered_of_stop_eq_none
    (h : (dispatcher.run runner reporter schedule submissions world).stop = none) :
    (dispatcher.run runner reporter schedule submissions world).batch.gathered =
      Table.empty.putAll ((dispatcher.reports runner reporter schedule submissions world).map
        fun report => (report.1.label, report.2)) := by
  rw [reports_eq]
  exact gathered_eq (trail_of_stop_eq_none h).1

theorem entries_gathered
    (h : (dispatcher.run runner reporter schedule submissions world).stop = none)
    (hlabels : (submissions.map Submission.label).Nodup) :
    (dispatcher.run runner reporter schedule submissions world).batch.gathered.entries =
      (dispatcher.reports runner reporter schedule submissions world).map
        fun report => (report.1.label, report.2) := by
  rw [gathered_of_stop_eq_none h, Table.entries_putAll_empty]
  rw [List.map_map]
  exact (labels_perm h).nodup_iff.mpr hlabels

theorem keys_gathered_perm
    (h : (dispatcher.run runner reporter schedule submissions world).stop = none)
    (hlabels : (submissions.map Submission.label).Nodup) :
    (dispatcher.run runner reporter schedule submissions world).batch.gathered.keys.Perm
      (submissions.map Submission.label) := by
  rw [Table.keys, entries_gathered h hlabels, List.map_map]
  exact labels_perm h

theorem find?_gathered_of_mem
    (h : (dispatcher.run runner reporter schedule submissions world).stop = none)
    (hlabels : (submissions.map Submission.label).Nodup) {submission : Submission} {outcome : Outcome}
    (hmem : (submission, outcome) ∈ dispatcher.reports runner reporter schedule submissions world) :
    (dispatcher.run runner reporter schedule submissions world).batch.gathered.find? submission.label =
      some outcome := by
  apply Table.find?_eq_some_of_mem
  · exact (keys_gathered_perm h hlabels).nodup_iff.mpr hlabels
  · rw [entries_gathered h hlabels]
    exact List.mem_map_of_mem hmem

theorem find?_gathered_perm {runner' : Runner ρ} {reporter' : Reporter ρ} {schedule' : Schedule}
    (h : (dispatcher.run runner reporter schedule submissions world).stop = none)
    (h' : (dispatcher.run runner' reporter' schedule' submissions world).stop = none)
    (hlabels : (submissions.map Submission.label).Nodup)
    (hperm : (dispatcher.reports runner reporter schedule submissions world).Perm
      (dispatcher.reports runner' reporter' schedule' submissions world)) (label : String) :
    (dispatcher.run runner reporter schedule submissions world).batch.gathered.find? label =
      (dispatcher.run runner' reporter' schedule' submissions world).batch.gathered.find? label := by
  rw [gathered_of_stop_eq_none h, gathered_of_stop_eq_none h']
  apply Table.find?_putAll_perm (hperm.map _)
  rw [List.map_map]
  exact (labels_perm h).nodup_iff.mpr hlabels

/-- A batch is only stopped by a result that is not reported, or by the reporter. -/
theorem stop_eq_none_of_reported (hjobs : Pool.permits dispatcher.jobs ≤ Pool.maxPermits)
    (htold : ∀ (submission : Submission) (outcome : Outcome) (world : World ρ),
      (reporter submission outcome world).1 = .ok ())
    (hreported : ∀ past last,
      Batch.Trail runner (collect reporter) (dispatcher.start submissions world) past last →
      (∀ entry ∈ past, entry ∈ dispatcher.history runner reporter schedule submissions world) →
      ∀ (index : Nat) (submission : Submission) (result : Except Panic (Except Failure Outcome)),
        last.pool.workers[index]? = some ⟨submission, .finished result⟩ →
        ∃ outcome, reported? result = some outcome) :
    (dispatcher.run runner reporter schedule submissions world).stop = none := by
  obtain ⟨past, last, final, htrail, hclose, hhistory⟩ :=
    trail_run runner reporter schedule submissions world hjobs
  generalize dispatcher.run runner reporter schedule submissions world = result at hclose
  cases hclose with
  | exhausted hmoves => rfl
  | stopped hmove hmake =>
      obtain ⟨index, submission, found, _, hworker, hfails⟩ := Batch.collect_of_make_stopped hmake
      obtain ⟨outcome, houtcome⟩ := hreported past last htrail
        (fun entry hentry => hhistory ▸ List.mem_append_left _ hentry) index submission found hworker
      have hsettle := (settle_eq reporter submission outcome last.gathered last.world).1
      rw [take_collect, take_of_reported houtcome, hsettle, htold] at hfails
      cases hfails

end Dispatcher

end Assay
