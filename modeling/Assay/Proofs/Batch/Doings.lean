import Assay.Proofs.Batch.Trail
import Assay.Proofs.Task.Leads
import Mathlib.Data.List.Perm.Basic

/-!
# What each worker of a batch has done

The moves of a run belong to different workers. Those of one of them, taken by themselves, are moments of its task,
each in the world that all of them have made by then.
-/

namespace Assay

variable {ι α γ ρ : Type}

namespace Batch

/-- What the worker does in this move. -/
def doing? (index : Nat) : Batch ι α γ ρ × Move → Option (Moment ρ)
  | (batch, .advance other) =>
    match batch.pool.workers[other]? with
    | some ⟨_, .active (.perform effect _)⟩ =>
      if other = index then some ⟨effect, batch.world⟩ else none
    | _ => none
  | _ => none

def doings (index : Nat) (past : List (Batch ι α γ ρ × Move)) : List (Moment ρ) :=
  past.filterMap (doing? index)

def issuesOf (index : Nat) (past : List (Batch ι α γ ρ × Move)) : List (Issue ρ) :=
  (doings index past).filterMap Moment.issue?

/-- The call that is made in this move, whoever makes it. -/
def issued? : Batch ι α γ ρ × Move → Option (Issue ρ)
  | (batch, .advance index) => (doing? index (batch, .advance index)).bind Moment.issue?
  | _ => none

def issued (past : List (Batch ι α γ ρ × Move)) : List (Issue ρ) :=
  past.filterMap issued?

theorem doings_concat (index : Nat) (past : List (Batch ι α γ ρ × Move))
    (entry : Batch ι α γ ρ × Move) :
    doings index (past ++ [entry]) = doings index past ++ (doing? index entry).toList := by
  rw [doings, List.filterMap_append, ← doings, List.filterMap_cons]
  rcases doing? index entry with _ | moment <;> rfl

theorem issuesOf_append (index : Nat) (past later : List (Batch ι α γ ρ × Move)) :
    issuesOf index (past ++ later) = issuesOf index past ++ issuesOf index later := by
  rw [issuesOf, doings, List.filterMap_append, List.filterMap_append]
  rfl

theorem mem_issuesOf {index : Nat} {past : List (Batch ι α γ ρ × Move)}
    {entry : Batch ι α γ ρ × Move} (hentry : entry ∈ past) {moment : Moment ρ}
    (hmoment : doing? index entry = some moment) {issue : Issue ρ}
    (hissue : moment.issue? = some issue) : issue ∈ issuesOf index past :=
  List.mem_filterMap.mpr ⟨moment, List.mem_filterMap.mpr ⟨entry, hentry, hmoment⟩, hissue⟩

section Doing

variable {batch : Batch ι α γ ρ} {index : Nat} {job : ι}

theorem doing?_of_ne {other : Nat} (hne : other ≠ index) :
    doing? index (batch, .advance other) = none := by
  simp only [doing?, if_neg hne]
  split <;> rfl

theorem worker_of_doing? {move : Move} {moment : Moment ρ} (h : doing? index (batch, move) = some moment) :
    ∃ job rest, batch.pool.workers[index]? = some ⟨job, .active (.perform moment.effect rest)⟩ ∧
      move = .advance index ∧ moment.world = batch.world := by
  cases move with
  | advance other =>
      simp only [doing?] at h
      split at h
      · next job effect rest hworker =>
        obtain ⟨rfl, heq⟩ := Option.ite_none_right_eq_some.mp h
        obtain rfl := Option.some.inj heq
        exact ⟨job, rest, hworker, rfl, rfl⟩
      · cases h
  | _ => cases h

theorem lt_length_of_doing? {moment : Moment ρ}
    (h : doing? index (batch, .advance index) = some moment) : index < batch.pool.workers.length := by
  by_contra hnot
  have hnone := List.getElem?_eq_none_iff.mpr (Nat.not_lt.mp hnot)
  simp only [doing?, hnone] at h
  cases h

theorem issuesOf_eq_nil {past : List (Batch ι α γ ρ × Move)}
    (h : ∀ entry ∈ past, entry.1.pool.workers.length ≤ index) : issuesOf index past = [] := by
  have hnone : doings index past = [] := by
    rw [doings, List.filterMap_eq_nil_iff]
    rintro ⟨batch, move⟩ hentry
    cases hdoing : doing? index (batch, move) with
    | none => rfl
    | some moment =>
        obtain ⟨job, rest, hworker, -⟩ := worker_of_doing? hdoing
        exact absurd (h _ hentry) (Nat.not_le.mpr (List.getElem?_eq_some_iff.mp hworker).1)
  rw [issuesOf, hnone]
  rfl

theorem doing?_perform {effect : Effect} {rest : effect.Reply → Task α}
    (hworker : batch.pool.workers[index]? = some ⟨job, .active (.perform effect rest)⟩) (other : Nat) :
    doing? other (batch, .advance index) =
      if index = other then some ⟨effect, batch.world⟩ else none := by
  simp only [doing?, hworker]

theorem doing?_done {value : α}
    (hworker : batch.pool.workers[index]? = some ⟨job, .active (.done value)⟩) (other : Nat) :
    doing? other (batch, .advance index) = none := by
  simp only [doing?, hworker]

theorem doing?_of_collected (hworker : batch.pool.workers[index]? = some ⟨job, .collected⟩)
    (move : Move) : doing? index (batch, move) = none := by
  cases move with
  | advance other =>
      by_cases hsame : other = index
      · subst hsame
        simp only [doing?, hworker]
      · exact doing?_of_ne hsame
  | _ => rfl

theorem doings_of_collected (hworker : batch.pool.workers[index]? = some ⟨job, .collected⟩)
    (past : List (Batch ι α γ ρ × Move)) (move : Move) :
    doings index (past ++ [(batch, move)]) = doings index past := by
  rw [doings_concat, doing?_of_collected hworker, Option.toList_none, List.append_nil]

end Doing

/-! ### All together -/

theorem issuesOf_cons (index : Nat) (entry : Batch ι α γ ρ × Move) (past : List (Batch ι α γ ρ × Move)) :
    issuesOf index (entry :: past) =
      ((doing? index entry).bind Moment.issue?).toList ++ issuesOf index past := by
  rw [issuesOf, issuesOf, doings, doings, List.filterMap_cons]
  cases doing? index entry with
  | none => rfl
  | some moment =>
      rw [List.filterMap_cons, Option.bind_some]
      rcases moment.issue? with _ | issue <;> rfl

theorem flatMap_eq_of_forall_ne {β : Type} {indices : List Nat} {owner : Nat} {calls : Nat → List β}
    (hnodup : indices.Nodup) (howner : owner ∈ indices)
    (hothers : ∀ index, index ≠ owner → calls index = []) : indices.flatMap calls = calls owner := by
  obtain ⟨before, after, rfl⟩ := List.append_of_mem howner
  obtain ⟨hbefore, hafter⟩ : owner ∉ before ∧ owner ∉ after := by
    have hdisjoint := List.nodup_append.mp hnodup
    exact ⟨fun hmem => hdisjoint.2.2 owner hmem owner (List.mem_cons_self ..) rfl,
      (List.nodup_cons.mp hdisjoint.2.1).1⟩
  have hnone {some : List Nat} (hnot : owner ∉ some) : some.flatMap calls = [] :=
    List.flatMap_eq_nil_iff.mpr fun index hindex => hothers index fun hsame => hnot (hsame ▸ hindex)
  rw [List.flatMap_append, List.flatMap_cons, hnone hbefore, hnone hafter, List.nil_append,
    List.append_nil]

theorem toList_issued? (batch : Batch ι α γ ρ) (move : Move) :
    (issued? (batch, move)).toList = (List.range batch.pool.workers.length).flatMap fun index =>
      ((doing? index (batch, move)).bind Moment.issue?).toList := by
  have hnone (h : ∀ index, doing? index (batch, move) = none) :
      [] = (List.range batch.pool.workers.length).flatMap fun index =>
        ((doing? index (batch, move)).bind Moment.issue?).toList := by
    symm
    rw [List.flatMap_eq_nil_iff]
    intro index _
    rw [h index]
    rfl
  cases move with
  | enter index => exact hnone fun _ => rfl
  | collect index => exact hnone fun _ => rfl
  | advance other =>
      cases hdoing : doing? other (batch, .advance other) with
      | none =>
          rw [issued?, hdoing]
          refine hnone fun index => ?_
          by_cases hsame : other = index
          · exact hsame ▸ hdoing
          · exact doing?_of_ne hsame
      | some moment =>
          rw [flatMap_eq_of_forall_ne List.nodup_range (List.mem_range.mpr (lt_length_of_doing? hdoing))]
          · rfl
          · intro index hne
            rw [doing?_of_ne (Ne.symm hne)]
            rfl

/-- The calls of a batch are the calls of its workers. -/
theorem issued_perm {count : Nat} {past : List (Batch ι α γ ρ × Move)}
    (h : ∀ entry ∈ past, entry.1.pool.workers.length = count) :
    (issued past).Perm ((List.range count).flatMap fun index => issuesOf index past) := by
  induction past with
  | nil =>
      have hnone : ((List.range count).flatMap fun index =>
          issuesOf index ([] : List (Batch ι α γ ρ × Move))) = [] :=
        List.flatMap_eq_nil_iff.mpr fun index _ => rfl
      rw [hnone]
      exact .refl []
  | cons entry past ih =>
      obtain ⟨hlength, hpast⟩ := List.forall_mem_cons.mp h
      have hfirst := toList_issued? entry.1 entry.2
      rw [hlength] at hfirst
      -- One move adds to what one worker has done, which is the same as adding to each its part of the move.
      have hcons : issued (entry :: past) = (issued? entry).toList ++ issued past := by
        rw [issued, issued, List.filterMap_cons]
        rcases issued? entry with _ | issue <;> rfl
      simp only [issuesOf_cons]
      rw [hcons, hfirst]
      exact ((ih hpast).append_left _).trans (List.flatMap_append_perm _ _ _)

end Batch

/-- The worker has got this far with its task by these moments. -/
def Phase.Led (runner : Runner ρ) (task : Task α) (moments : List (Moment ρ)) : Phase α → Prop
  | waiting rest => rest = task ∧ moments = []
  | active rest => task.Leads runner moments rest
  | finished (.ok value) => task.Leads runner moments (.done value)
  | finished (.error panic) =>
    ∃ moment ∈ moments, (moment.effect.perform runner moment.world).1 = .error panic
  | collected | aborted => True

/-- Every worker has got as far as it has by what it has done. -/
def Pool.Led (runner : Runner ρ) (tasks : ι → Task α) (past : List (Batch ι α γ ρ × Move))
    (pool : Pool ι α) : Prop :=
  ∀ (index : Nat) (job : ι) (phase : Phase α), pool.workers[index]? = some ⟨job, phase⟩ →
    phase.Led runner (tasks job) (Batch.doings index past)

namespace Batch

variable {runner : Runner ρ} {collector : Collector ι α γ ρ} {tasks : ι → Task α}

theorem led_start (jobs : Nat) (work : List ι) (gathered : γ) (world : World ρ) :
    (start jobs (work.map fun job => (job, tasks job)) gathered world).pool.Led runner tasks
      ([] : List (Batch ι α γ ρ × Move)) := by
  intro index job phase hworker
  obtain ⟨entry, hentry, heq⟩ := List.mem_map.mp (List.mem_of_getElem? hworker)
  obtain ⟨other, _, rfl⟩ := List.mem_map.mp hentry
  cases heq
  exact ⟨rfl, rfl⟩

theorem led_setPhase {batch : Batch ι α γ ρ} {past : List (Batch ι α γ ρ × Move)} {move : Move}
    {index : Nat} {job : ι} {old new : Phase α} (h : batch.pool.Led runner tasks past)
    (hworker : batch.pool.workers[index]? = some ⟨job, old⟩)
    (hothers : ∀ other, index ≠ other → doing? other (batch, move) = none)
    (hnew : new.Led runner (tasks job)
      (doings index past ++ (doing? index (batch, move)).toList)) :
    (batch.pool.setPhase index new).Led runner tasks (past ++ [(batch, move)]) := by
  intro other otherJob phase hother
  rw [doings_concat]
  rcases Pool.of_getElem?_setPhase hother with ⟨rfl, rfl, before, hbefore⟩ | ⟨hne, hbefore⟩
  · rw [hworker] at hbefore
    cases hbefore
    exact hnew
  · rw [hothers other hne, Option.toList_none, List.append_nil]
    exact h other otherJob phase hbefore

theorem Step.led {batch next : Batch ι α γ ρ} {move : Move} {past : List (Batch ι α γ ρ × Move)}
    (h : Step runner collector batch move next) (hled : batch.pool.Led runner tasks past) :
    next.pool.Led runner tasks (past ++ [(batch, move)]) := by
  cases h with
  | @entered index job task hworker hfree =>
      obtain ⟨htask, hnone⟩ := hled index job _ hworker
      refine led_setPhase hled hworker (fun _ _ => rfl) ?_
      rw [hnone, htask]
      exact .rest _
  | @advanced index job effect rest reply world hworker hperform =>
      have hleads := hled index job _ hworker
      refine led_setPhase hled hworker (fun other hne => ?_) ?_
      · rw [doing?_perform hworker, if_neg hne]
      · rw [doing?_perform hworker, if_pos rfl]
        exact hleads.concat (by rw [hperform])
  | @panicked index job effect rest panic world hworker hperform =>
      refine led_setPhase hled hworker (fun other hne => ?_) ?_
      · rw [doing?_perform hworker, if_neg hne]
      · rw [doing?_perform hworker, if_pos rfl]
        exact ⟨_, List.mem_append_right _ (List.mem_singleton_self _), by rw [hperform]⟩
  | @ended index job value hworker =>
      have hleads := hled index job _ hworker
      refine led_setPhase hled hworker (fun other _ => doing?_done hworker other) ?_
      rw [doing?_done hworker, Option.toList_none, List.append_nil]
      exact hleads
  | collected hworker hcollect => exact led_setPhase hled hworker (fun _ _ => rfl) trivial

/-! ### Along a run -/

section Run

variable {jobs : Nat} {work : List ι} {gathered : γ} {world : World ρ}
  {past final : List (Batch ι α γ ρ × Move)} {batch last : Batch ι α γ ρ} {index : Nat} {job : ι}

theorem led_of_trail
    (h : Trail runner collector (start jobs (work.map fun job => (job, tasks job)) gathered world) past last) :
    last.pool.Led runner tasks past :=
  h.invariant (fun past batch => batch.pool.Led runner tasks past) [] (led_start jobs work gathered world)
    fun _ _ _ _ _ hbatch hstep => hstep.led hbatch

theorem jobs_of_trail
    (h : Trail runner collector (start jobs (work.map fun job => (job, tasks job)) gathered world) past last) :
    last.pool.workers.map Worker.job = work := by
  rw [h.jobs_eq.1]
  simp [start, List.map_map, Function.comp_def]

/-- A worker is led from its task by what it has done. -/
theorem leads_of_trail
    (h : Trail runner collector (start jobs (work.map fun job => (job, tasks job)) gathered world) past last)
    {task : Task α} (hworker : last.pool.workers[index]? = some ⟨job, .active task⟩) :
    work[index]? = some job ∧ (tasks job).Leads runner (doings index past) task := by
  refine ⟨?_, led_of_trail h index job _ hworker⟩
  rw [← jobs_of_trail h, List.getElem?_map, hworker]
  rfl

/-- When a worker did the last thing that it has done, it was led there by everything before. -/
theorem leads_of_doings
    (h : Trail runner collector (start jobs (work.map fun job => (job, tasks job)) gathered world) past last)
    (hjob : work[index]? = some job) {before : List (Moment ρ)} {moment : Moment ρ}
    (hdoings : doings index past = before ++ [moment]) :
    ∃ rest, (tasks job).Leads runner before (.perform moment.effect rest) := by
  obtain ⟨first, second, rfl, hfirst, hsecond⟩ := List.filterMap_eq_append_iff.mp hdoings
  obtain ⟨idle, ⟨batch, move⟩, later, rfl, hnone, hmoment, -⟩ := List.filterMap_eq_cons_iff.mp hsecond
  rw [← List.append_assoc] at h
  obtain ⟨next, hearlier, -, -⟩ := h.split
  obtain ⟨owner, rest, hworker, -, -⟩ := worker_of_doing? hmoment
  obtain ⟨howner, hleads⟩ := leads_of_trail hearlier hworker
  obtain rfl : job = owner := Option.some.inj (hjob.symm.trans howner)
  have hidle : doings index idle = [] := List.filterMap_eq_nil_iff.mpr hnone
  rw [doings, List.filterMap_append, hfirst, ← doings, hidle, List.append_nil] at hleads
  exact ⟨rest, hleads⟩

/-- Whoever is collected has come to a result, and the collector has taken it. -/
theorem collected_of_trail
    (h : Trail runner collector (start jobs (work.map fun job => (job, tasks job)) gathered world) past last)
    (hworker : last.pool.workers[index]? = some ⟨job, .collected⟩) :
    ∃ result before world gathered, (collector.take job result before world).1 = .ok gathered ∧
      (Phase.finished result).Led runner (tasks job) (doings index past) := by
  refine (h.invariant (fun past batch => batch.pool.Led runner tasks past ∧
    ∀ index job, batch.pool.workers[index]? = some ⟨job, .collected⟩ →
      ∃ result before world gathered, (collector.take job result before world).1 = .ok gathered ∧
        (Phase.finished result).Led runner (tasks job) (doings index past)) []
    ⟨led_start jobs work gathered world, fun index job hworker => ?_⟩ ?_).2 index job hworker
  · obtain ⟨entry, -, heq⟩ := List.mem_map.mp (List.mem_of_getElem? hworker)
    cases heq
  rintro past batch move next - ⟨hled, hbefore⟩ hstep
  refine ⟨hstep.led hled, ?_⟩
  have hkeep {changed : Nat} {new : Phase α} (hnew : new ≠ .collected) (index : Nat) (job : ι)
      (hworker : (batch.pool.setPhase changed new).workers[index]? = some ⟨job, .collected⟩) :
      ∃ result before world gathered, (collector.take job result before world).1 = .ok gathered ∧
        (Phase.finished result).Led runner (tasks job) (doings index (past ++ [(batch, move)])) := by
    rcases Pool.of_getElem?_setPhase hworker with ⟨-, hphase, -⟩ | ⟨-, hworker⟩
    · exact absurd hphase.symm hnew
    · rw [doings_of_collected hworker]
      exact hbefore index job hworker
  cases hstep with
  | entered hworker hfree => exact hkeep nofun
  | advanced hworker hperform => exact hkeep nofun
  | panicked hworker hperform => exact hkeep nofun
  | ended hworker => exact hkeep nofun
  | @collected index job result gathered world hworker hcollect =>
      intro other otherJob hother
      rcases Pool.of_getElem?_setPhase hother with ⟨rfl, -, old, hold⟩ | ⟨-, hother⟩
      · rw [hworker] at hold
        cases hold
        refine ⟨result, batch.gathered, batch.world, gathered, by rw [hcollect], ?_⟩
        rw [doings_concat]
        simpa [doing?] using hled index job _ hworker
      · rw [doings_of_collected hother]
        exact hbefore other otherJob hother

theorem doings_close {result : Result ι α γ ρ} (hclose : Close runner collector last final result)
    (index : Nat) : doings index final = [] := by
  cases hclose with
  | exhausted hmoves => rfl
  | stopped hmove hmake =>
      obtain ⟨other, job, found, rfl, -, -⟩ := collect_of_make_stopped hmake
      rfl

theorem doings_append_close {result : Result ι α γ ρ} (hclose : Close runner collector last final result) :
    doings index (past ++ final) = doings index past := by
  rw [doings, List.filterMap_append, ← doings, ← doings, doings_close hclose, List.append_nil]

theorem issuesOf_close {result : Result ι α γ ρ} (hclose : Close runner collector last final result)
    (index : Nat) : issuesOf index final = [] := by
  rw [issuesOf, doings_close hclose]
  rfl

end Run

end Batch

end Assay
