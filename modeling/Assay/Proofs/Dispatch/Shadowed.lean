import Assay.Proofs.Dispatch.Once
import Assay.Proofs.Task.Shadow
import Mathlib.Data.List.Nodup

/-!
# Workers and their shadows

Every submission has a place of its own, and its commands keep to that. What its pipeline does besides running
commands, it does with paths, and a path can lead anywhere. As long as it does not lead out of the place, or
only to what nobody changes, the worker of a submission follows what the submission would do alone, whoever
else takes turns with it.
-/

namespace Assay

namespace Dispatcher

/-- Where the submissions are, and what is there for all of them. -/
structure Layout where
  home : Submission → Location
  shared : Region

namespace Layout

def own (layout : Layout) (submission : Submission) : Region := .below (layout.home submission)

def reach (layout : Layout) (submission : Submission) : Region :=
  (layout.own submission).union layout.shared

end Layout

variable {ρ : Type}

/-- What becomes of a submission that is taken through the pipeline alone. -/
def alone (dispatcher : Dispatcher) (runner : Runner ρ) (world : World ρ) (submission : Submission) :
    Except Panic (Except Failure Outcome) :=
  ((dispatcher.pipeline.process submission).run runner world).1

/-- The homes of the submissions are apart, and their commands keep to them. The reporter never fails, and
nothing that is wrong with the batch as a whole is found with any of them. -/
structure Separate (layout : Layout) (dispatcher : Dispatcher) (runner : Runner ρ)
    (reporter : Reporter ρ) (submissions : List Submission) (world : World ρ) : Prop where
  labels : (submissions.map Submission.label).Nodup
  homes : ∀ submission ∈ submissions, ∀ other ∈ submissions, submission ≠ other →
    ¬ layout.home submission <+: layout.home other
  shared : ∀ submission ∈ submissions, layout.shared.Disjoint (layout.own submission)
  keeps : ∀ submission ∈ submissions, ∀ call, dispatcher.pipeline.Asks submission (.run call) →
    runner.Keeps (layout.own submission) layout.shared call
  told : ∀ (submission : Submission) (outcome : Outcome) (world : World ρ),
    (reporter submission outcome world).1 = .ok ()
  sound : ∀ submission ∈ submissions, ∀ failure,
    dispatcher.alone runner world submission ≠ .ok (.error failure)

/-- The homes of the submissions are apart, and their commands keep to them. This is all that is asked for of
what may also fail. -/
structure Apart (layout : Layout) (dispatcher : Dispatcher) (runner : Runner ρ)
    (submissions : List Submission) : Prop where
  distinct : submissions.Nodup
  homes : ∀ submission ∈ submissions, ∀ other ∈ submissions, submission ≠ other →
    ¬ layout.home submission <+: layout.home other
  shared : ∀ submission ∈ submissions, layout.shared.Disjoint (layout.own submission)
  keeps : ∀ submission ∈ submissions, ∀ call, dispatcher.pipeline.Asks submission (.run call) →
    runner.Keeps (layout.own submission) layout.shared call

/-- Alone, the pipeline of the submission does not get out of its home by any path. -/
def StaysHome (layout : Layout) (dispatcher : Dispatcher) (runner : Runner ρ) (world : World ρ)
    (submission : Submission) : Prop :=
  ∀ moment ∈ (dispatcher.pipeline.process submission).moments runner world,
    moment.effect.StaysWithin (layout.own submission) layout.shared moment.world.files

/-- What the reporter does in this move, if it is told something, is not seen by any submission. -/
def Unseen (layout : Layout) (reporter : Reporter ρ) (submissions : List Submission)
    (entry : Batch Submission (Except Failure Outcome) ResultSet ρ × Move) : Prop :=
  ∀ (submission : Submission) (outcome : Outcome), report? entry = some (submission, outcome) →
    ∀ other ∈ submissions, entry.1.world.files.SameOn (layout.reach other)
      (reporter submission outcome entry.1.world).2.files

end Dispatcher

/-- The worker follows its shadow, or has come to the same result. -/
def Phase.Shadow {α ρ : Type} (runner : Runner ρ) (own shared : Region) (result : Except Panic α)
    (files : Files) : Phase α → Prop
  | waiting task | active task => task.Shadow runner own shared result files
  | finished found => result = found
  | collected | aborted => True

theorem Phase.Shadow.of_sameOn {α ρ : Type} {runner : Runner ρ} {own shared : Region}
    {result : Except Panic α} {files other : Files} {phase : Phase α}
    (h : phase.Shadow runner own shared result files) (hsame : files.SameOn (own.union shared) other) :
    phase.Shadow runner own shared result other := by
  cases phase with
  | waiting task => exact Task.Shadow.of_sameOn h hsame
  | active task => exact Task.Shadow.of_sameOn h hsame
  | finished found => exact h
  | collected => trivial
  | aborted => trivial

namespace Dispatcher

variable {ρ : Type} {layout : Layout} {dispatcher : Dispatcher} {runner : Runner ρ}
  {reporter : Reporter ρ} {schedule : Schedule} {submissions : List Submission} {world : World ρ}

theorem Separate.apart (h : Separate layout dispatcher runner reporter submissions world) :
    Apart layout dispatcher runner submissions :=
  ⟨.of_map _ h.labels, h.homes, h.shared, h.keeps⟩

theorem Apart.reach_within (h : Apart layout dispatcher runner submissions)
    {submission other : Submission} (hmem : submission ∈ submissions) (hother : other ∈ submissions)
    (hne : submission ≠ other) :
    (layout.reach other).Within (layout.own submission).outside := by
  apply Region.Disjoint.within_outside
  apply Region.Disjoint.union
  · exact Region.disjoint_below (h.homes other hother submission hmem (Ne.symm hne))
      (h.homes submission hmem other hother hne)
  · exact h.shared submission hmem

/-- Every worker has a shadow, and whatever was reported is what the shadow came to. -/
structure Shadowed (layout : Layout) (dispatcher : Dispatcher) (runner : Runner ρ)
    (submissions : List Submission) (world : World ρ)
    (past : List (Batch Submission (Except Failure Outcome) ResultSet ρ × Move))
    (batch : Batch Submission (Except Failure Outcome) ResultSet ρ) : Prop where
  jobs : batch.pool.workers.map Worker.job = submissions
  asks : batch.pool.Along dispatcher.pipeline.Asks
    (fun _ => dispatcher.pipeline.Finds fun _ => True)
    (fun submission result => ∀ outcome, result = .ok outcome →
      dispatcher.pipeline.Blames submission (fun _ => True) outcome)
  shadows : ∀ (index : Nat) (submission : Submission) (phase : Phase (Except Failure Outcome)),
    batch.pool.workers[index]? = some ⟨submission, phase⟩ →
    phase.Shadow runner (layout.own submission) layout.shared
      (dispatcher.alone runner world submission) batch.world.files
  reports : ∀ report ∈ reportsOf past,
    reported? (dispatcher.alone runner world report.1) = some report.2

theorem shadow_work {submission : Submission}
    (hstays : dispatcher.StaysHome layout runner world submission) :
    (dispatcher.work submission).Shadow runner (layout.own submission) layout.shared
      (dispatcher.alone runner world submission) world.files := by
  let noted := world.note { level := .info, message := "Processing: " ++ submission.label }
  have hstate : world.SameState noted := ⟨rfl, rfl⟩
  refine ⟨world, .refl _ _, ?_, fun moment hmoment => ?_⟩
  · exact (Task.sameState_run runner hstate (dispatcher.pipeline.process submission)).2.2.1.symm
  · have hwork : (dispatcher.work submission).moments runner world =
        ⟨.note { level := .info, message := "Processing: " ++ submission.label }, world⟩ ::
          (dispatcher.pipeline.process submission).moments runner noted := rfl
    rw [hwork] at hmoment
    rcases List.mem_cons.mp hmoment with rfl | hlater
    · trivial
    · have hpair : (moment.effect, moment.world.files) ∈
          ((dispatcher.pipeline.process submission).moments runner noted).map
            fun moment => (moment.effect, moment.world.files) :=
        List.mem_map_of_mem hlater
      rw [← Task.moments_sameState hstate] at hpair
      obtain ⟨first, hfirst, heq⟩ := List.mem_map.mp hpair
      obtain ⟨heffect, hfiles⟩ := Prod.mk.inj heq
      rw [← heffect, ← hfiles]
      exact hstays first hfirst

theorem shadowed_start
    (hstays : ∀ submission ∈ submissions, dispatcher.StaysHome layout runner world submission) :
    Shadowed layout dispatcher runner submissions world [] (dispatcher.start submissions world) where
  jobs := jobs_start dispatcher submissions world
  asks := along_start dispatcher submissions world fun _ _ => True
  shadows := by
    intro index submission phase hworker
    obtain ⟨pair, hpair, heq⟩ := List.mem_map.mp (List.mem_of_getElem? hworker)
    obtain ⟨other, hother, rfl⟩ := List.mem_map.mp hpair
    cases heq
    exact shadow_work (hstays _ hother)
  reports := fun _ hreport => nomatch hreport

theorem Shadowed.mem {past : List (Batch Submission (Except Failure Outcome) ResultSet ρ × Move)}
    {batch : Batch Submission (Except Failure Outcome) ResultSet ρ} {index : Nat}
    {submission : Submission} {phase : Phase (Except Failure Outcome)}
    (h : Shadowed layout dispatcher runner submissions world past batch)
    (hworker : batch.pool.workers[index]? = some ⟨submission, phase⟩) : submission ∈ submissions := by
  rw [← h.jobs]
  exact List.mem_map_of_mem (List.mem_of_getElem? hworker)

theorem Shadowed.ne {past : List (Batch Submission (Except Failure Outcome) ResultSet ρ × Move)}
    {batch : Batch Submission (Except Failure Outcome) ResultSet ρ} {index other : Nat}
    {submission another : Submission} {phase phase' : Phase (Except Failure Outcome)}
    (h : Shadowed layout dispatcher runner submissions world past batch)
    (hdistinct : submissions.Nodup) (hne : index ≠ other)
    (hworker : batch.pool.workers[index]? = some ⟨submission, phase⟩)
    (hother : batch.pool.workers[other]? = some ⟨another, phase'⟩) : submission ≠ another := by
  rintro rfl
  have hjob : ∀ (at_ : Nat) (phase : Phase (Except Failure Outcome)),
      batch.pool.workers[at_]? = some ⟨submission, phase⟩ → submissions[at_]? = some submission := by
    intro at_ phase hat
    rw [← h.jobs, List.getElem?_map, hat]
    rfl
  have hfirst := hjob index phase hworker
  have hlength : index < submissions.length := (List.getElem?_eq_some_iff.mp hfirst).1
  apply hne
  exact (List.getElem?_inj hlength hdistinct).mp
    (hfirst.trans (hjob other phase' hother).symm)

/-- What one worker does in its own place leaves the shadows of all the others where they are. -/
theorem Shadowed.shadows_setPhase
    {past : List (Batch Submission (Except Failure Outcome) ResultSet ρ × Move)}
    {batch : Batch Submission (Except Failure Outcome) ResultSet ρ} {index : Nat}
    {submission : Submission} {old new : Phase (Except Failure Outcome)} {files : Files}
    (h : Shadowed layout dispatcher runner submissions world past batch)
    (hapart : Apart layout dispatcher runner submissions)
    (hworker : batch.pool.workers[index]? = some ⟨submission, old⟩)
    (hconfined : batch.world.files.SameOn (layout.own submission).outside files)
    (hnew : new.Shadow runner (layout.own submission) layout.shared
      (dispatcher.alone runner world submission) files) :
    ∀ (other : Nat) (another : Submission) (phase : Phase (Except Failure Outcome)),
      (batch.pool.setPhase index new).workers[other]? = some ⟨another, phase⟩ →
      phase.Shadow runner (layout.own another) layout.shared
        (dispatcher.alone runner world another) files := by
  intro other another phase hother
  rcases Pool.of_getElem?_setPhase hother with ⟨rfl, rfl, phase', hsame⟩ | ⟨hne, hold⟩
  · rw [hworker] at hsame
    cases hsame
    exact hnew
  · have hdistinct := h.ne hapart.distinct hne hworker hold
    have hwithin := hapart.reach_within (h.mem hworker) (h.mem hold) hdistinct
    exact (h.shadows other another phase hold).of_sameOn (hconfined.mono hwithin)

theorem Shadowed.perform {past : List (Batch Submission (Except Failure Outcome) ResultSet ρ × Move)}
    {batch : Batch Submission (Except Failure Outcome) ResultSet ρ} {index : Nat}
    {submission : Submission} {effect : Effect}
    {rest : effect.Reply → Task (Except Failure Outcome)}
    (h : Shadowed layout dispatcher runner submissions world past batch)
    (hapart : Apart layout dispatcher runner submissions)
    (hworker : batch.pool.workers[index]? = some ⟨submission, .active (.perform effect rest)⟩) :
    batch.world.files.SameOn (layout.own submission).outside
        (effect.perform runner batch.world).2.files ∧
      (∀ reply, (effect.perform runner batch.world).1 = .ok reply →
        (rest reply).Shadow runner (layout.own submission) layout.shared
          (dispatcher.alone runner world submission)
          (effect.perform runner batch.world).2.files) ∧
      ∀ panic, (effect.perform runner batch.world).1 = .error panic →
        dispatcher.alone runner world submission = .error panic := by
  have hshadow := h.shadows index submission _ hworker
  have hasks := (h.asks index submission _ hworker).1
  refine Task.Shadow.perform hshadow fun call hcall => ?_
  subst hcall
  exact hapart.keeps submission (h.mem hworker) call hasks

theorem Shadowed.shadows_taken
    {past : List (Batch Submission (Except Failure Outcome) ResultSet ρ × Move)}
    {batch next : Batch Submission (Except Failure Outcome) ResultSet ρ} {index : Nat}
    {submission : Submission} {result : Except Panic (Except Failure Outcome)} {outcome : Outcome}
    (h : Shadowed layout dispatcher runner submissions world past batch)
    (hunseen : Unseen layout reporter submissions (batch, .collect index))
    (htaken : Taken reporter batch next index submission result outcome) :
    ∀ (other : Nat) (another : Submission) (phase : Phase (Except Failure Outcome)),
      next.pool.workers[other]? = some ⟨another, phase⟩ →
      phase.Shadow runner (layout.own another) layout.shared
        (dispatcher.alone runner world another) next.world.files := by
  intro other another phase hother
  rw [htaken.pool] at hother
  rcases Pool.of_getElem?_setPhase hother with ⟨rfl, rfl, _, _⟩ | ⟨_, hold⟩
  · trivial
  · have hsame := hunseen submission outcome htaken.report?_eq another
      (h.mem hold)
    rw [← htaken.after.files] at hsame
    exact (h.shadows other another phase hold).of_sameOn hsame

theorem Shadowed.step {past : List (Batch Submission (Except Failure Outcome) ResultSet ρ × Move)}
    {batch next : Batch Submission (Except Failure Outcome) ResultSet ρ} {move : Move}
    (h : Shadowed layout dispatcher runner submissions world past batch)
    (hapart : Apart layout dispatcher runner submissions)
    (hunseen : Unseen layout reporter submissions (batch, move))
    (hstep : Batch.Step runner (collect reporter) batch move next) :
    Shadowed layout dispatcher runner submissions world (past ++ [(batch, move)]) next where
  jobs := hstep.jobs_eq.trans h.jobs
  asks := by
    refine hstep.along h.asks ?_
    intro index submission effect rest reply _ _ _
    exact Pipeline.finds_anything _ effect reply
  shadows := by
    cases move with
    | enter index =>
        cases hstep with
        | @entered _ submission task hworker hfree =>
            exact h.shadows_setPhase hapart hworker (.refl _ _)
              (h.shadows index submission (.waiting task) hworker)
    | advance index =>
        cases hstep with
        | @advanced _ submission effect rest reply after hworker hreply =>
            obtain ⟨hconfined, hok, _⟩ := h.perform hapart hworker
            rw [hreply] at hconfined hok
            exact h.shadows_setPhase hapart hworker hconfined (hok reply rfl)
        | @panicked _ submission effect rest panic after hworker hreply =>
            obtain ⟨hconfined, _, herror⟩ := h.perform hapart hworker
            rw [hreply] at hconfined herror
            exact h.shadows_setPhase hapart hworker hconfined (herror panic rfl)
        | @ended _ submission value hworker =>
            exact h.shadows_setPhase hapart hworker (.refl _ _)
              (Task.Shadow.done (h.shadows index submission _ hworker))
    | collect index =>
        obtain ⟨submission, result, outcome, htaken⟩ := taken_of_step hstep
        exact h.shadows_taken hunseen htaken
  reports := by
    rw [reportsOf_append]
    intro report hreport
    rcases List.mem_append.mp hreport with hold | hnew
    · exact h.reports report hold
    cases move with
    | enter index => cases hnew
    | advance index => cases hnew
    | collect index =>
        obtain ⟨submission, result, outcome, htaken⟩ := taken_of_step hstep
        rw [reportsOf, List.filterMap_cons, htaken.report?_eq] at hnew
        obtain rfl := List.mem_singleton.mp hnew
        have hresult : dispatcher.alone runner world submission = result :=
          h.shadows index submission _ htaken.worker
        rw [hresult]
        exact htaken.reported

theorem shadowed_of_trail (h : Apart layout dispatcher runner submissions)
    (hstays : ∀ submission ∈ submissions, dispatcher.StaysHome layout runner world submission)
    {past : List (Batch Submission (Except Failure Outcome) ResultSet ρ × Move)}
    {last : Batch Submission (Except Failure Outcome) ResultSet ρ}
    (htrail : Batch.Trail runner (collect reporter) (dispatcher.start submissions world) past last)
    (hunseen : ∀ entry ∈ past, Unseen layout reporter submissions entry) :
    Shadowed layout dispatcher runner submissions world past last :=
  htrail.invariant (Shadowed layout dispatcher runner submissions world) [] (shadowed_start hstays)
    fun _ _ _ _ hmem hbatch hstep => hbatch.step h (hunseen _ hmem) hstep

end Dispatcher

end Assay
