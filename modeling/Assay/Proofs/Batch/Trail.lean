import Assay.Batch

/-!
# The trail of a batch

A batch makes one move after the other until none is left or a collector fails. What a single move can do is
said once, by `Step`, and what a whole run can do follows from it by induction on the moves made. The schedule
disappears in this: it only picks among moves that are possible anyway.
-/

namespace Assay

namespace Pool

variable {ι α : Type}

theorem mem_moves_iff {pool : Pool ι α} {move : Move} :
    move ∈ pool.moves ↔
      (∃ index job task, pool.workers[index]? = some ⟨job, .waiting task⟩ ∧ 0 < pool.free ∧
        move = .enter index) ∨
      (∃ index job task, pool.workers[index]? = some ⟨job, .active task⟩ ∧
        move = .advance index) ∨
      (∃ index job result, pool.workers[index]? = some ⟨job, .finished result⟩ ∧
        move = .collect index) := by
  simp only [moves, List.mem_filterMap, Prod.exists, List.mk_mem_zipIdx_iff_getElem?]
  constructor
  · rintro ⟨⟨job, phase⟩, index, hworker, hmove⟩
    cases phase with
    | waiting task =>
        obtain ⟨hfree, hmove⟩ := Option.ite_none_right_eq_some.mp hmove
        exact .inl ⟨index, job, task, hworker, hfree, (Option.some.inj hmove).symm⟩
    | active task => exact .inr (.inl ⟨index, job, task, hworker, (Option.some.inj hmove).symm⟩)
    | finished result =>
        exact .inr (.inr ⟨index, job, result, hworker, (Option.some.inj hmove).symm⟩)
    | collected => cases hmove
    | aborted => cases hmove
  · rintro (⟨index, job, task, hworker, hfree, rfl⟩ | ⟨index, job, task, hworker, rfl⟩ |
      ⟨index, job, result, hworker, rfl⟩)
    · exact ⟨_, index, hworker, if_pos hfree⟩
    · exact ⟨_, index, hworker, rfl⟩
    · exact ⟨_, index, hworker, rfl⟩

@[simp]
theorem free_setPhase (pool : Pool ι α) (index : Nat) (phase : Phase α) :
    (pool.setPhase index phase).free = pool.free := rfl

theorem getElem?_setPhase (pool : Pool ι α) (index other : Nat) (phase : Phase α) :
    (pool.setPhase index phase).workers[other]? =
      if index = other then (pool.workers[other]?).map fun worker => { worker with phase }
      else pool.workers[other]? := by
  simp only [setPhase, List.getElem?_modify]
  split
  · rfl
  · simp

theorem of_getElem?_setPhase {pool : Pool ι α} {index other : Nat} {job : ι} {new phase : Phase α}
    (h : (pool.setPhase index new).workers[other]? = some ⟨job, phase⟩) :
    (index = other ∧ phase = new ∧ ∃ old, pool.workers[index]? = some ⟨job, old⟩) ∨
      (index ≠ other ∧ pool.workers[other]? = some ⟨job, phase⟩) := by
  rw [getElem?_setPhase] at h
  by_cases hsame : index = other
  · subst hsame
    rw [if_pos rfl] at h
    obtain ⟨⟨oldJob, old⟩, hold, heq⟩ := Option.map_eq_some_iff.mp h
    cases heq
    exact .inl ⟨rfl, rfl, old, hold⟩
  · rw [if_neg hsame] at h
    exact .inr ⟨hsame, h⟩

theorem jobs_setPhase (pool : Pool ι α) (index : Nat) (new : Phase α) :
    (pool.setPhase index new).workers.map Worker.job = pool.workers.map Worker.job := by
  apply List.ext_getElem?
  intro other
  rw [List.getElem?_map, List.getElem?_map, getElem?_setPhase]
  split
  · rw [Option.map_map]
    rfl
  · rfl

end Pool

namespace Batch

variable {ι α γ ρ : Type} (runner : Runner ρ) (collector : Collector ι α γ ρ)

/-- One move that goes through. -/
inductive Step (batch : Batch ι α γ ρ) : Move → Batch ι α γ ρ → Prop
  | entered {index : Nat} {job : ι} {task : Task α}
      (hworker : batch.pool.workers[index]? = some ⟨job, .waiting task⟩)
      (hfree : 0 < batch.pool.free) : Step batch (.enter index) (batch.enter index task)
  | advanced {index : Nat} {job : ι} {effect : Effect} {rest : effect.Reply → Task α}
      {reply : effect.Reply} {world : World ρ}
      (hworker : batch.pool.workers[index]? = some ⟨job, .active (.perform effect rest)⟩)
      (hperform : effect.perform runner batch.world = (.ok reply, world)) :
      Step batch (.advance index)
        { batch with pool := batch.pool.setPhase index (.active (rest reply)), world }
  | panicked {index : Nat} {job : ι} {effect : Effect} {rest : effect.Reply → Task α}
      {panic : Panic} {world : World ρ}
      (hworker : batch.pool.workers[index]? = some ⟨job, .active (.perform effect rest)⟩)
      (hperform : effect.perform runner batch.world = (.error panic, world)) :
      Step batch (.advance index)
        (batch.finish index (.error panic) (world.noteAll (collector.lament job panic)))
  | ended {index : Nat} {job : ι} {value : α}
      (hworker : batch.pool.workers[index]? = some ⟨job, .active (.done value)⟩) :
      Step batch (.advance index) (batch.finish index (.ok value) batch.world)
  | collected {index : Nat} {job : ι} {result : Except Panic α} {gathered : γ} {world : World ρ}
      (hworker : batch.pool.workers[index]? = some ⟨job, .finished result⟩)
      (hcollect : collector.take job result batch.gathered batch.world = (.ok gathered, world)) :
      Step batch (.collect index)
        { pool := batch.pool.setPhase index .collected, gathered, world }

variable {runner collector}

theorem step_of_make {batch next : Batch ι α γ ρ} {move : Move}
    (h : batch.make runner collector move = .continued next) :
    Step runner collector batch move next := by
  cases move with
  | enter index =>
      simp only [make] at h
      split at h
      · next hworker =>
        split at h
        · next hfree =>
          cases h
          exact .entered hworker hfree
        · cases h
      · cases h
  | advance index =>
      simp only [make] at h
      split at h
      · next hworker =>
        cases h
        exact .ended hworker
      · next hworker =>
        split at h
        · next hperform =>
          cases h
          exact .advanced hworker hperform
        · next hperform =>
          cases h
          exact .panicked hworker hperform
      · cases h
  | collect index =>
      simp only [make] at h
      split at h
      · next hworker =>
        split at h
        · next hcollect =>
          cases h
          exact .collected hworker hcollect
        · cases h
      · cases h

/-- Only a collector stops a batch. -/
theorem collect_of_make_stopped {batch stopped : Batch ι α γ ρ} {move : Move} {failure : Failure}
    (h : batch.make runner collector move = .stopped failure stopped) :
    ∃ index job result, move = .collect index ∧
      batch.pool.workers[index]? = some ⟨job, .finished result⟩ ∧
      (collector.take job result batch.gathered batch.world).1 = .error failure := by
  cases move with
  | enter index =>
      simp only [make] at h
      split at h
      · split at h <;> cases h
      · cases h
  | advance index =>
      simp only [make] at h
      split at h
      · cases h
      · split at h <;> cases h
      · cases h
  | collect index =>
      simp only [make] at h
      split at h
      · next job result hworker =>
        split at h
        · cases h
        · next hcollect =>
          cases h
          exact ⟨index, job, result, rfl, hworker, congrArg Prod.fst hcollect⟩
      · cases h

theorem make_collect_failed {batch : Batch ι α γ ρ} {index : Nat} {job : ι} {result : Except Panic α}
    {failure : Failure}
    (hworker : batch.pool.workers[index]? = some ⟨job, .finished result⟩)
    (hfails : (collector.take job result batch.gathered batch.world).1 = .error failure) :
    batch.make runner collector (.collect index) =
      .stopped failure
        { batch with
          pool := (batch.pool.setPhase index .collected).abort
          world := (collector.take job result batch.gathered batch.world).2 } := by
  simp only [make, hworker]
  rcases hcollect : collector.take job result batch.gathered batch.world with ⟨found | gathered, world⟩ <;>
    rw [hcollect] at hfails <;> cases hfails
  rfl

theorem make_ne_idle {batch : Batch ι α γ ρ} {move : Move} (h : move ∈ batch.pool.moves) :
    batch.make runner collector move ≠ .idle := by
  rcases Pool.mem_moves_iff.mp h with ⟨index, job, task, hworker, hfree, rfl⟩ |
    ⟨index, job, task, hworker, rfl⟩ | ⟨index, job, result, hworker, rfl⟩
  · simp [make, hworker, hfree]
  · cases task with
    | done value => simp [make, hworker]
    | perform effect rest =>
        simp only [make, hworker]
        rcases effect.perform runner batch.world with ⟨panic | reply, world⟩ <;> simp
  · simp only [make, hworker]
    rcases collector.take job result batch.gathered batch.world with ⟨failure | gathered, world⟩ <;> simp

theorem mem_of_pick_eq_some {schedule : Schedule} {tick : Nat} {moves : List Move} {move : Move}
    (h : schedule.pick tick moves = some move) : move ∈ moves :=
  List.mem_of_getElem? h

theorem eq_nil_of_pick_eq_none {schedule : Schedule} {tick : Nat} {moves : List Move}
    (h : schedule.pick tick moves = none) : moves = [] := by
  cases moves with
  | nil => rfl
  | cons first rest =>
      have hpos : 0 < (first :: rest).length := Nat.succ_pos _
      have hlt := Nat.mod_lt (schedule tick (first :: rest)) hpos
      have hle := List.getElem?_eq_none_iff.mp h
      omega

variable (runner collector)

/-- The moves of a run, each with the batch it was made in. -/
def historyFrom (schedule : Schedule) (tick : Nat) (batch : Batch ι α γ ρ) :
    List (Batch ι α γ ρ × Move) :=
  match schedule.pick tick batch.pool.moves with
  | none => []
  | some move =>
    match hmake : batch.make runner collector move with
    | .idle => []
    | .continued next => (batch, move) :: historyFrom schedule (tick + 1) next
    | .stopped _ _ => [(batch, move)]
termination_by batch.pool.workers
decreasing_by exact follows_of_make hmake

/-- The moves of a run from the start. Where there cannot be a pool of that size, there are none. -/
def history (schedule : Schedule) (jobs : Nat) (work : List (ι × Task α)) (gathered : γ)
    (world : World ρ) : List (Batch ι α γ ρ × Move) :=
  match Pool.start jobs work with
  | .ok pool => historyFrom runner collector schedule 0 { pool, gathered, world }
  | .error _ => []

/-- The moves that lead from one batch to another. -/
inductive Trail : Batch ι α γ ρ → List (Batch ι α γ ρ × Move) → Batch ι α γ ρ → Prop
  | rest (batch : Batch ι α γ ρ) : Trail batch [] batch
  | move {batch next last : Batch ι α γ ρ} {move : Move}
      {later : List (Batch ι α γ ρ × Move)} (hmove : move ∈ batch.pool.moves)
      (hstep : Step runner collector batch move next) (hlater : Trail next later last) :
      Trail batch ((batch, move) :: later) last

/-- How a run ends: either nothing can be done any more, or the collector failed. -/
inductive Close (last : Batch ι α γ ρ) :
    List (Batch ι α γ ρ × Move) → Result ι α γ ρ → Prop
  | exhausted (hmoves : last.pool.moves = []) : Close last [] ⟨none, last⟩
  | stopped {move : Move} {failure : Failure} {stopped : Batch ι α γ ρ}
      (hmove : move ∈ last.pool.moves)
      (hmake : last.make runner collector move = .stopped failure stopped) :
      Close last [(last, move)] ⟨some (.failed failure), stopped⟩

section Moves

variable {runner collector} {schedule : Schedule} {tick : Nat} {batch : Batch ι α γ ρ}

theorem runFrom_of_pick_none (h : schedule.pick tick batch.pool.moves = none) :
    runFrom runner collector schedule tick batch = ⟨none, batch⟩ := by
  rw [runFrom]
  split
  · rfl
  · next hsome =>
    rw [h] at hsome
    cases hsome

theorem runFrom_of_pick_some {move : Move} (h : schedule.pick tick batch.pool.moves = some move) :
    runFrom runner collector schedule tick batch =
      match batch.make runner collector move with
      | .idle => ⟨none, batch⟩
      | .continued next => runFrom runner collector schedule (tick + 1) next
      | .stopped failure stopped => ⟨some (.failed failure), stopped⟩ := by
  rw [runFrom]
  split
  · next hnone =>
    rw [h] at hnone
    cases hnone
  · next other hother =>
    obtain rfl : move = other := Option.some.inj (h.symm.trans hother)
    split <;> next hmake => rw [hmake]

theorem historyFrom_of_pick_none (h : schedule.pick tick batch.pool.moves = none) :
    historyFrom runner collector schedule tick batch = [] := by
  rw [historyFrom]
  split
  · rfl
  · next hsome =>
    rw [h] at hsome
    cases hsome

theorem historyFrom_of_pick_some {move : Move}
    (h : schedule.pick tick batch.pool.moves = some move) :
    historyFrom runner collector schedule tick batch =
      match batch.make runner collector move with
      | .idle => []
      | .continued next => (batch, move) :: historyFrom runner collector schedule (tick + 1) next
      | .stopped _ _ => [(batch, move)] := by
  rw [historyFrom]
  split
  · next hnone =>
    rw [h] at hnone
    cases hnone
  · next other hother =>
    obtain rfl : move = other := Option.some.inj (h.symm.trans hother)
    split <;> next hmake => rw [hmake]

end Moves

theorem trail_runFrom (schedule : Schedule) (tick : Nat) (batch : Batch ι α γ ρ) :
    ∃ past last final, Trail runner collector batch past last ∧
      Close runner collector last final (runFrom runner collector schedule tick batch) ∧
      historyFrom runner collector schedule tick batch = past ++ final := by
  induction tick, batch using historyFrom.induct runner collector schedule with
  | case1 tick batch hpick =>
      rw [runFrom_of_pick_none hpick, historyFrom_of_pick_none hpick]
      exact ⟨[], batch, [], .rest batch, .exhausted (eq_nil_of_pick_eq_none hpick), rfl⟩
  | case2 tick batch move hpick hmake =>
      exact absurd hmake (make_ne_idle (mem_of_pick_eq_some hpick))
  | case3 tick batch move hpick next hmake ih =>
      obtain ⟨past, last, final, htrail, hclose, hhistory⟩ := ih
      have hmoves := mem_of_pick_eq_some hpick
      rw [runFrom_of_pick_some hpick, historyFrom_of_pick_some hpick, hmake]
      exact ⟨(batch, move) :: past, last, final, .move hmoves (step_of_make hmake) htrail, hclose,
        congrArg _ hhistory⟩
  | case4 tick batch move hpick failure stopped hmake =>
      have hmoves := mem_of_pick_eq_some hpick
      rw [runFrom_of_pick_some hpick, historyFrom_of_pick_some hpick, hmake]
      exact ⟨[], batch, [(batch, move)], .rest batch, .stopped hmoves hmake, rfl⟩

variable {runner collector}

/-- A run that is not stopped makes moves until there are none left. -/
theorem trail_of_stop_eq_none {schedule : Schedule} {tick : Nat} {batch : Batch ι α γ ρ}
    (h : (runFrom runner collector schedule tick batch).stop = none) :
    Trail runner collector batch (historyFrom runner collector schedule tick batch)
        (runFrom runner collector schedule tick batch).batch ∧
      (runFrom runner collector schedule tick batch).batch.pool.moves = [] := by
  obtain ⟨past, last, final, htrail, hclose, hhistory⟩ :=
    trail_runFrom runner collector schedule tick batch
  rw [hhistory]
  generalize runFrom runner collector schedule tick batch = result at hclose h
  cases hclose with
  | exhausted hmoves => exact ⟨by simpa using htrail, hmoves⟩
  | stopped hmove hmake => cases h

def start (jobs : Nat) (work : List (ι × Task α)) (gathered : γ) (world : World ρ) :
    Batch ι α γ ρ :=
  { pool :=
      { free := Pool.permits jobs
        workers := work.map fun (job, task) => { job, phase := .waiting task }
        peak := 0 }
    gathered
    world }

theorem run_eq {jobs : Nat} (hjobs : Pool.permits jobs ≤ Pool.maxPermits) (schedule : Schedule)
    (work : List (ι × Task α)) (gathered : γ) (world : World ρ) :
    run runner collector schedule jobs work gathered world =
      runFrom runner collector schedule 0 (start jobs work gathered world) := by
  rw [run, Pool.start, if_neg (Nat.not_lt.mpr hjobs)]
  rfl

theorem history_eq {jobs : Nat} (hjobs : Pool.permits jobs ≤ Pool.maxPermits) (schedule : Schedule)
    (work : List (ι × Task α)) (gathered : γ) (world : World ρ) :
    history runner collector schedule jobs work gathered world =
      historyFrom runner collector schedule 0 (start jobs work gathered world) := by
  rw [history, Pool.start, if_neg (Nat.not_lt.mpr hjobs)]
  rfl

theorem permits_le_of_stop_eq_none {schedule : Schedule} {jobs : Nat} {work : List (ι × Task α)}
    {gathered : γ} {world : World ρ}
    (h : (run runner collector schedule jobs work gathered world).stop = none) :
    Pool.permits jobs ≤ Pool.maxPermits := by
  by_cases hjobs : Pool.permits jobs ≤ Pool.maxPermits
  · exact hjobs
  · rw [run, Pool.start, if_pos (Nat.not_le.mp hjobs)] at h
    cases h

theorem trail_of_run_stop_eq_none {schedule : Schedule} {jobs : Nat} {work : List (ι × Task α)}
    {gathered : γ} {world : World ρ}
    (h : (run runner collector schedule jobs work gathered world).stop = none) :
    Trail runner collector (start jobs work gathered world)
        (history runner collector schedule jobs work gathered world)
        (run runner collector schedule jobs work gathered world).batch ∧
      (run runner collector schedule jobs work gathered world).batch.pool.moves = [] := by
  have hjobs := permits_le_of_stop_eq_none h
  rw [run_eq hjobs] at h ⊢
  rw [history_eq hjobs]
  exact trail_of_stop_eq_none h

/-- A run is the moves that go through, and what ends it. -/
theorem trail_run {jobs : Nat} (hjobs : Pool.permits jobs ≤ Pool.maxPermits) (schedule : Schedule)
    (work : List (ι × Task α)) (gathered : γ) (world : World ρ) :
    ∃ past last final, Trail runner collector (start jobs work gathered world) past last ∧
      Close runner collector last final
        (run runner collector schedule jobs work gathered world) ∧
      history runner collector schedule jobs work gathered world = past ++ final := by
  rw [run_eq hjobs, history_eq hjobs]
  exact trail_runFrom runner collector schedule 0 _

/-- A run that is stopped makes moves until the collector fails, and none after that. -/
theorem trail_of_run_stop_eq_some {schedule : Schedule} {jobs : Nat} {work : List (ι × Task α)}
    {gathered : γ} {world : World ρ} (hjobs : Pool.permits jobs ≤ Pool.maxPermits) {stop : Stop}
    (h : (run runner collector schedule jobs work gathered world).stop = some stop) :
    ∃ past last move failure,
      Trail runner collector (start jobs work gathered world) past last ∧
      last.make runner collector move =
        .stopped failure (run runner collector schedule jobs work gathered world).batch ∧
      history runner collector schedule jobs work gathered world = past ++ [(last, move)] ∧
      stop = .failed failure := by
  obtain ⟨past, last, final, htrail, hclose, hhistory⟩ :=
    trail_run hjobs schedule work gathered world
  generalize run runner collector schedule jobs work gathered world = result at h hclose
  cases hclose with
  | exhausted hmoves => cases h
  | stopped hmove hmake => exact ⟨past, last, _, _, htrail, hmake, hhistory, (Option.some.inj h).symm⟩

theorem Step.jobs_eq {batch next : Batch ι α γ ρ} {move : Move}
    (h : Step runner collector batch move next) :
    next.pool.workers.map Worker.job = batch.pool.workers.map Worker.job := by
  cases h with
  | entered hworker hfree => exact Pool.jobs_setPhase batch.pool _ _
  | advanced hworker hperform => exact Pool.jobs_setPhase batch.pool _ _
  | panicked hworker hperform => exact Pool.jobs_setPhase batch.pool _ _
  | ended hworker => exact Pool.jobs_setPhase batch.pool _ _
  | collected hworker hcollect => exact Pool.jobs_setPhase batch.pool _ _

namespace Trail

theorem append {batch next last : Batch ι α γ ρ} {past later : List (Batch ι α γ ρ × Move)}
    (h : Trail runner collector batch past next)
    (hlater : Trail runner collector next later last) :
    Trail runner collector batch (past ++ later) last := by
  induction h with
  | rest batch => exact hlater
  | move hmove hstep _ ih => exact .move hmove hstep (ih hlater)

theorem single {batch next : Batch ι α γ ρ} {move : Move} (hmove : move ∈ batch.pool.moves)
    (hstep : Step runner collector batch move next) :
    Trail runner collector batch [(batch, move)] next :=
  .move hmove hstep (.rest next)

/-- Every entry of a trail is where the entries before it lead to. -/
theorem split {batch last : Batch ι α γ ρ} {past later : List (Batch ι α γ ρ × Move)}
    {entry : Batch ι α γ ρ × Move}
    (h : Trail runner collector batch (past ++ entry :: later) last) :
    ∃ next, Trail runner collector batch past entry.1 ∧
      Step runner collector entry.1 entry.2 next ∧ Trail runner collector next later last := by
  induction past generalizing batch with
  | nil =>
      cases h with
      | move hmove hstep hlater => exact ⟨_, .rest _, hstep, hlater⟩
  | cons first past ih =>
      cases h with
      | move hmove hstep hlater =>
          obtain ⟨next, hpast, hentry, hrest⟩ := ih hlater
          exact ⟨next, .move hmove hstep hpast, hentry, hrest⟩

/-- What every step preserves holds at the end. The entries of the trail are at hand in each step. -/
theorem invariant (Inv : List (Batch ι α γ ρ × Move) → Batch ι α γ ρ → Prop)
    {first last : Batch ι α γ ρ} {later : List (Batch ι α γ ρ × Move)}
    (h : Trail runner collector first later last) (past : List (Batch ι α γ ρ × Move))
    (hfirst : Inv past first)
    (hstep : ∀ past batch move next, (batch, move) ∈ later → Inv past batch →
      Step runner collector batch move next → Inv (past ++ [(batch, move)]) next) :
    Inv (past ++ later) last := by
  induction h generalizing past with
  | rest batch => simpa using hfirst
  | @move batch next last move later hmove hmade hlater ih =>
      have hnext := hstep past batch move next (List.mem_cons_self ..) hfirst hmade
      have hend := ih (past ++ [(batch, move)]) hnext fun past batch move next hmem =>
        hstep past batch move next (List.mem_cons_of_mem _ hmem)
      simpa using hend

theorem step_of_mem {first last : Batch ι α γ ρ} {later : List (Batch ι α γ ρ × Move)}
    (h : Trail runner collector first later last) {entry : Batch ι α γ ρ × Move}
    (hentry : entry ∈ later) : ∃ next, Step runner collector entry.1 entry.2 next := by
  induction h with
  | rest batch => cases hentry
  | @move batch next last move later hmove hstep hlater ih =>
      rcases List.mem_cons.mp hentry with rfl | hentry
      · exact ⟨next, hstep⟩
      · exact ih hentry

theorem jobs_eq {first last : Batch ι α γ ρ} {later : List (Batch ι α γ ρ × Move)}
    (h : Trail runner collector first later last) :
    last.pool.workers.map Worker.job = first.pool.workers.map Worker.job ∧
      ∀ entry ∈ later,
        entry.1.pool.workers.map Worker.job = first.pool.workers.map Worker.job := by
  induction h with
  | rest batch => exact ⟨rfl, fun _ hentry => nomatch hentry⟩
  | @move batch next last move later hmove hstep hlater ih =>
      obtain ⟨hlast, hentries⟩ := ih
      rw [hstep.jobs_eq] at hlast hentries
      refine ⟨hlast, fun entry hentry => ?_⟩
      rcases List.mem_cons.mp hentry with rfl | hentry
      · rfl
      · exact hentries entry hentry

end Trail

end Batch

end Assay
