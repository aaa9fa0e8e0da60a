import Assay.Proofs.Batch.Doings
import Assay.Proofs.Batch.Replay
import Assay.Proofs.Task.Quiet

/-!
# Batches that differ in their notes

Under another runner a worker may have something to note that it would not have noted, or the other way round.
That is a move more or less, so the same schedule takes the two batches apart. But a note is seen by nobody, and
whoever has some left can get them out of the way at any time: for every way the one batch can go there is a way
for the other one, on which the same calls are made and the same results are taken in the same order.
-/

namespace Assay

variable {ι α γ ρ : Type}

/-- The collector does not look at what was noted. -/
def Collector.Blind (collector : Collector ι α γ ρ) : Prop :=
  ∀ (job : ι) (result : Except Panic α) (gathered : γ) (world other : World ρ),
    world.SameState other →
      (collector.take job result gathered world).1 = (collector.take job result gathered other).1 ∧
        (collector.take job result gathered world).2.SameState (collector.take job result gathered other).2

namespace Phase

def quiet : Phase α → Phase α
  | waiting task => waiting task.quiet
  | active task => active task.quiet
  | phase => phase

theorem eq_waiting_of_quiet {phase : Phase α} {task : Task α} (h : phase.quiet = waiting task) :
    ∃ other, phase = waiting other ∧ other.quiet = task := by
  cases phase with
  | waiting other => exact ⟨other, rfl, Phase.waiting.inj h⟩
  | _ => cases h

theorem eq_active_of_quiet {phase : Phase α} {task : Task α} (h : phase.quiet = active task) :
    ∃ other, phase = active other ∧ other.quiet = task := by
  cases phase with
  | active other => exact ⟨other, rfl, Phase.active.inj h⟩
  | _ => cases h

theorem eq_finished_of_quiet {phase : Phase α} {result : Except Panic α}
    (h : phase.quiet = finished result) : phase = finished result := by
  cases phase with
  | finished other => exact h
  | _ => cases h

end Phase

def Worker.quiet (worker : Worker ι α) : Worker ι α :=
  { worker with phase := worker.phase.quiet }

def Pool.quiet (pool : Pool ι α) : Pool ι α :=
  { pool with workers := pool.workers.map Worker.quiet }

namespace Pool

theorem moves_quiet (pool : Pool ι α) : pool.quiet.moves = pool.moves := by
  rw [moves, moves, quiet, List.zipIdx_map, List.filterMap_map]
  congr
  funext entry
  obtain ⟨⟨job, phase⟩, index⟩ := entry
  cases phase <;> rfl

theorem workers_quiet_setPhase (pool : Pool ι α) (index : Nat) (phase : Phase α) :
    (pool.setPhase index phase).quiet.workers = (pool.quiet.setPhase index phase.quiet).workers := by
  apply List.ext_getElem?
  intro other
  rw [getElem?_setPhase, quiet, List.getElem?_map, getElem?_setPhase, quiet, List.getElem?_map]
  split
  · rw [Option.map_map, Option.map_map]
    rfl
  · rfl

theorem workers_quiet_setPhase_of_eq {pool : Pool ι α} {index : Nat} {job : ι} {old new : Phase α}
    (hworker : pool.workers[index]? = some ⟨job, old⟩) (hquiet : new.quiet = old.quiet) :
    (pool.setPhase index new).quiet.workers = pool.quiet.workers := by
  apply List.ext_getElem?
  intro other
  rw [quiet, List.getElem?_map, getElem?_setPhase, quiet, List.getElem?_map]
  split
  · next hsame =>
    rw [← hsame, hworker]
    simp [Worker.quiet, hquiet]
  · rfl

end Pool

namespace Batch

/-- What somebody sees of a batch who does not look at notes: the calls, each with the worker that makes it,
and the results that are taken. -/
inductive Sight (ι α ρ : Type)
  | called (index : Nat) (issue : Issue ρ)
  | taken (job : ι) (result : Except Panic α)

def seen? : Batch ι α γ ρ × Move → Option (Sight ι α ρ)
  | (_, .enter _) => none
  | (batch, .advance index) =>
    match batch.pool.workers[index]? with
    | some ⟨_, .active (.perform (.run call) _)⟩ =>
      some (.called index ⟨call, batch.world.files, batch.world.memory⟩)
    | _ => none
  | (batch, .collect index) =>
    match batch.pool.workers[index]? with
    | some ⟨job, .finished result⟩ => some (.taken job result)
    | _ => none

def seen (past : List (Batch ι α γ ρ × Move)) : List (Sight ι α ρ) :=
  past.filterMap seen?

theorem seen_append (past later : List (Batch ι α γ ρ × Move)) :
    seen (past ++ later) = seen past ++ seen later :=
  List.filterMap_append

theorem seen_singleton (entry : Batch ι α γ ρ × Move) : seen [entry] = (seen? entry).toList := by
  rw [seen, List.filterMap_cons]
  rcases seen? entry with _ | sight <;> rfl

/-- The batches are the same, except for notes that were made or are still to be made. -/
structure Mirrors (batch mirror : Batch ι α γ ρ) : Prop where
  workers : batch.pool.quiet.workers = mirror.pool.quiet.workers
  free : batch.pool.free = mirror.pool.free
  gathered : batch.gathered = mirror.gathered
  state : batch.world.SameState mirror.world

/-- In this move the runners do the same, or the worker does not care for what they answer. -/
def Matches (left right : Runner ρ) (entry : Batch ι α γ ρ × Move) : Prop :=
  ∀ (index : Nat) (job : ι) (call : Call) (rest : Ending → Task α), entry.2 = .advance index →
    entry.1.pool.workers[index]? = some ⟨job, .active (.perform (.run call) rest)⟩ →
    let issue : Issue ρ := ⟨call, entry.1.world.files, entry.1.world.memory⟩
    issue.Same left right ∨
      issue.SameButAnswer left right ∧ ∀ reply other, (rest reply).quiet = (rest other).quiet

variable {left right runner : Runner ρ} {collector : Collector ι α γ ρ}
  {batch mirror next last : Batch ι α γ ρ} {past : List (Batch ι α γ ρ × Move)}
  {index : Nat} {job : ι}

theorem Matches.perform {effect : Effect} {rest : effect.Reply → Task α} {other : World ρ}
    (h : Matches left right (batch, .advance index))
    (hworker : batch.pool.workers[index]? = some ⟨job, .active (.perform effect rest)⟩)
    (hstate : batch.world.SameState other) :
    (∀ reply, (effect.perform left batch.world).1 = .ok reply →
        ∃ reply', (effect.perform right other).1 = .ok reply' ∧
          (rest reply').quiet = (rest reply).quiet) ∧
      (∀ panic, (effect.perform left batch.world).1 = .error panic →
        (effect.perform right other).1 = .error panic) ∧
      (effect.perform left batch.world).2.SameState (effect.perform right other).2 := by
  by_cases hsame : ∀ call, effect = .run call →
      (⟨call, batch.world.files, batch.world.memory⟩ : Issue ρ).Same left right
  · obtain ⟨hreply, hafter⟩ := Effect.perform_same hsame hstate
    exact ⟨fun reply hok => ⟨reply, hreply ▸ hok, rfl⟩, fun panic herror => hreply ▸ herror,
      hafter⟩
  · obtain ⟨call, hcall⟩ := not_forall.mp hsame
    obtain ⟨rfl, hdiffers⟩ := Classical.not_imp.mp hcall
    obtain ⟨hanswer, hrest⟩ := (h index job call rest rfl hworker).resolve_left hdiffers
    obtain ⟨ending, ending', after, after', hleft, hright, hafter⟩ :=
      Effect.perform_sameButAnswer hanswer hstate
    rw [hleft, hright]
    refine ⟨fun reply _ => ⟨ending', rfl, hrest _ _⟩, fun panic herror => ?_, hafter⟩
    cases herror

namespace Mirrors

protected theorem refl (batch : Batch ι α γ ρ) : Mirrors batch batch :=
  ⟨rfl, rfl, rfl, .refl _⟩

theorem moves_eq (h : Mirrors batch mirror) : mirror.pool.moves = batch.pool.moves := by
  have hfree : batch.pool.quiet.free = mirror.pool.quiet.free := h.free
  rw [← Pool.moves_quiet, ← Pool.moves_quiet batch.pool, Pool.moves, Pool.moves, h.workers, hfree]

theorem worker {phase : Phase α} (h : Mirrors batch mirror)
    (hworker : batch.pool.workers[index]? = some ⟨job, phase⟩) :
    ∃ other, mirror.pool.workers[index]? = some ⟨job, other⟩ ∧ other.quiet = phase.quiet := by
  have hquiet : (batch.pool.quiet.workers)[index]? = some ⟨job, phase.quiet⟩ := by
    rw [Pool.quiet, List.getElem?_map, hworker]
    rfl
  rw [h.workers, Pool.quiet, List.getElem?_map] at hquiet
  obtain ⟨⟨other, phase'⟩, hmirror, heq⟩ := Option.map_eq_some_iff.mp hquiet
  obtain ⟨rfl, hphase⟩ := Worker.mk.inj heq
  exact ⟨phase', hmirror, hphase⟩

theorem workers_setPhase {phase phase' : Phase α} (h : Mirrors batch mirror)
    (hphase : phase.quiet = phase'.quiet) (index : Nat) :
    (batch.pool.setPhase index phase).quiet.workers = (mirror.pool.setPhase index phase').quiet.workers := by
  rw [Pool.workers_quiet_setPhase, Pool.workers_quiet_setPhase, hphase, Pool.setPhase, Pool.setPhase,
    h.workers]

theorem trans {third : Batch ι α γ ρ} (h : Mirrors batch mirror) (hthird : Mirrors mirror third) :
    Mirrors batch third :=
  ⟨h.workers.trans hthird.workers, h.free.trans hthird.free, h.gathered.trans hthird.gathered,
    h.state.trans hthird.state⟩

theorem symm (h : Mirrors batch mirror) : Mirrors mirror batch :=
  ⟨h.workers.symm, h.free.symm, h.gathered.symm, h.state.symm⟩

/-- A note is not seen by anybody. -/
theorem noted {event : Event} {rest : Unit → Task α}
    (hworker : batch.pool.workers[index]? = some ⟨job, .active (.perform (.note event) rest)⟩) :
    Mirrors batch
      { batch with
        pool := batch.pool.setPhase index (.active (rest ()))
        world := batch.world.note event } := by
  have hquiet : (Phase.active (rest ())).quiet = (Phase.active (.perform (.note event) rest)).quiet := rfl
  exact ⟨(Pool.workers_quiet_setPhase_of_eq hworker hquiet).symm, rfl, rfl, ⟨rfl, rfl⟩⟩

/-- Whatever a worker has still to note it can note at once. -/
theorem drain {task : Task α} (hworker : mirror.pool.workers[index]? = some ⟨job, .active task⟩) :
    ∃ past last task', Trail runner collector mirror past last ∧ Mirrors mirror last ∧
      seen past = [] ∧ last.pool.workers[index]? = some ⟨job, .active task'⟩ ∧
      task'.quiet = task.quiet ∧ task'.isNoting = false := by
  induction task generalizing mirror with
  | done value => exact ⟨[], mirror, _, .rest _, .refl _, rfl, hworker, rfl, rfl⟩
  | perform effect rest ih =>
      by_cases hnoting : effect.isNote = true
      · cases effect with
        | note event =>
            let next : Batch ι α γ ρ :=
              { mirror with
                pool := mirror.pool.setPhase index (.active (rest ()))
                world := mirror.world.note event }
            have hmove : Move.advance index ∈ mirror.pool.moves :=
              Pool.mem_moves_iff.mpr (.inr (.inl ⟨index, job, _, hworker, rfl⟩))
            have hstep : Step runner collector mirror (.advance index) next := .advanced hworker rfl
            have hnext : next.pool.workers[index]? = some ⟨job, .active (rest ())⟩ := by
              simp [next, Pool.getElem?_setPhase, hworker]
            obtain ⟨past, last, task', htrail, hlast, hseen, hend, hquiet, hquick⟩ := ih () hnext
            refine ⟨_, last, task', (Trail.single hmove hstep).append htrail, (noted hworker).trans hlast, ?_,
              hend, hquiet, hquick⟩
            rw [seen_append, hseen, seen_singleton, seen?, hworker]
            rfl
        | _ => cases hnoting
      · exact ⟨[], mirror, _, .rest _, .refl _, rfl, hworker, rfl, Bool.eq_false_iff.mpr hnoting⟩

/-- Where a worker comes to an effect that is no note, the other batch can come to the same effect. -/
theorem reach_perform {effect : Effect} {rest : effect.Reply → Task α} (h : Mirrors batch mirror)
    (hworker : batch.pool.workers[index]? = some ⟨job, .active (.perform effect rest)⟩)
    (hnote : effect.isNote = false) :
    ∃ past last, ∃ rest' : effect.Reply → Task α, Trail runner collector mirror past last ∧
      Mirrors batch last ∧ seen past = [] ∧
      last.pool.workers[index]? = some ⟨job, .active (.perform effect rest')⟩ ∧
      ∀ reply, (rest' reply).quiet = (rest reply).quiet := by
  obtain ⟨phase, hmirror, hphase⟩ := h.worker hworker
  obtain ⟨task, rfl, htask⟩ := Phase.eq_active_of_quiet hphase
  obtain ⟨past, last, task', htrail, hlast, hseen, hend, hquiet, hquick⟩ := drain hmirror
  rw [htask, Task.quiet_perform hnote] at hquiet
  obtain ⟨rest', rfl, hrest⟩ := Task.eq_perform_of_quiet hquick hquiet
  exact ⟨past, last, rest', htrail, h.trans hlast, hseen, hend, hrest⟩

theorem reach_done {value : α} (h : Mirrors batch mirror)
    (hworker : batch.pool.workers[index]? = some ⟨job, .active (.done value)⟩) :
    ∃ past last, Trail runner collector mirror past last ∧ Mirrors batch last ∧ seen past = [] ∧
      last.pool.workers[index]? = some ⟨job, .active (.done value)⟩ := by
  obtain ⟨phase, hmirror, hphase⟩ := h.worker hworker
  obtain ⟨task, rfl, htask⟩ := Phase.eq_active_of_quiet hphase
  obtain ⟨past, last, task', htrail, hlast, hseen, hend, hquiet, hquick⟩ := drain hmirror
  obtain rfl := Task.eq_done_of_quiet hquick (hquiet.trans htask)
  exact ⟨past, last, htrail, h.trans hlast, hseen, hend⟩

/-- A move that is seen, after moves that are not. -/
theorem follow {move : Move} {mid : Batch ι α γ ρ} (htrail : Trail runner collector mirror past mid)
    (hseen : seen past = []) (hmove : move ∈ mid.pool.moves)
    (hstep : Step runner collector mid move last) (hnext : Mirrors next last) {sight : List (Sight ι α ρ)}
    (hsight : (seen? (mid, move)).toList = sight) :
    ∃ past last, Trail runner collector mirror past last ∧ Mirrors next last ∧ seen past = sight := by
  refine ⟨_, last, htrail.append (.single hmove hstep), hnext, ?_⟩
  rw [seen_append, hseen, seen_singleton, hsight, List.nil_append]

theorem seen?_eq {effect : Effect} {rest rest' : effect.Reply → Task α} (h : Mirrors batch mirror)
    (hworker : batch.pool.workers[index]? = some ⟨job, .active (.perform effect rest)⟩)
    (hmirror : mirror.pool.workers[index]? = some ⟨job, .active (.perform effect rest')⟩) :
    seen? (mirror, .advance index) = seen? (batch, .advance index) := by
  cases effect <;> simp [seen?, hworker, hmirror, h.state.files, h.state.memory]

theorem step_advanced {effect : Effect} {rest : effect.Reply → Task α} {reply : effect.Reply} {world : World ρ}
    (h : Mirrors batch mirror) (hmatches : Matches left right (batch, .advance index))
    (hworker : batch.pool.workers[index]? = some ⟨job, .active (.perform effect rest)⟩)
    (hperform : effect.perform left batch.world = (.ok reply, world)) :
    ∃ past last, Trail right collector mirror past last ∧
      Mirrors { batch with pool := batch.pool.setPhase index (.active (rest reply)), world } last ∧
      seen past = (seen? (batch, .advance index)).toList := by
  by_cases hnote : effect.isNote = true
  · -- The other batch stays where it is.
    cases effect with
    | note event =>
        cases hperform
        refine ⟨[], mirror, .rest _, (noted hworker).symm.trans h, ?_⟩
        simp only [seen?, hworker]
        rfl
    | _ => cases hnote
  obtain ⟨past, last, rest', htrail, hlast, hseen, hend, hrest⟩ :=
    h.reach_perform hworker (Bool.eq_false_iff.mpr hnote)
  obtain ⟨hok, -, hafter⟩ := hmatches.perform hworker hlast.state
  obtain ⟨reply', hreply, hquiet⟩ := hok reply (by rw [hperform])
  rw [hperform] at hafter
  have hmove := Pool.mem_moves_iff.mpr (.inr (.inl ⟨index, job, _, hend, rfl⟩))
  have hactive : (Phase.active (rest reply)).quiet = (Phase.active (rest' reply')).quiet :=
    congrArg Phase.active ((hrest reply').trans hquiet).symm
  refine follow htrail hseen hmove (.advanced hend (Prod.ext hreply rfl)) ?_
    (congrArg Option.toList (hlast.seen?_eq hworker hend))
  exact ⟨hlast.workers_setPhase hactive index, hlast.free, hlast.gathered, hafter⟩

/-- For every step there are steps of the other batch, by which the same is seen. -/
theorem step {move : Move} (h : Mirrors batch mirror) (hblind : collector.Blind)
    (hmatches : Matches left right (batch, move)) (hstep : Step left collector batch move next) :
    ∃ past last, Trail right collector mirror past last ∧ Mirrors next last ∧
      seen past = (seen? (batch, move)).toList := by
  cases hstep with
  | @entered index job task hworker hfree =>
      obtain ⟨phase, hmirror, hphase⟩ := h.worker hworker
      obtain ⟨task', rfl, htask⟩ := Phase.eq_waiting_of_quiet hphase
      have hfree' : 0 < mirror.pool.free := h.free ▸ hfree
      have hmove := Pool.mem_moves_iff.mpr (.inl ⟨index, job, task', hmirror, hfree', rfl⟩)
      have hactive : (Phase.active task).quiet = (Phase.active task').quiet :=
        congrArg Phase.active htask.symm
      refine follow (.rest mirror) rfl hmove (.entered hmirror hfree') ?_ rfl
      exact ⟨h.workers_setPhase hactive index, congrArg (· - 1) h.free, h.gathered, h.state⟩
  | advanced hworker hperform => exact h.step_advanced hmatches hworker hperform
  | @panicked index job effect rest panic world hworker hperform =>
      have hnote : effect.isNote = false := by
        cases effect with
        | note event => cases hperform
        | _ => rfl
      obtain ⟨past, last, rest', htrail, hlast, hseen, hend, hrest⟩ := h.reach_perform hworker hnote
      obtain ⟨-, herror, hafter⟩ := hmatches.perform hworker hlast.state
      have hpanic := herror panic (by rw [hperform])
      rw [hperform] at hafter
      have hmove := Pool.mem_moves_iff.mpr (.inr (.inl ⟨index, job, _, hend, rfl⟩))
      refine follow htrail hseen hmove (.panicked hend (Prod.ext hpanic rfl)) ?_
        (congrArg Option.toList (hlast.seen?_eq hworker hend))
      exact ⟨hlast.workers_setPhase rfl index, congrArg (· + 1) hlast.free, hlast.gathered,
        hafter.files, hafter.memory⟩
  | @ended index job value hworker =>
      obtain ⟨past, last, htrail, hlast, hseen, hend⟩ := h.reach_done hworker
      have hmove := Pool.mem_moves_iff.mpr (.inr (.inl ⟨index, job, _, hend, rfl⟩))
      refine follow htrail hseen hmove (.ended hend) ?_ ?_
      · exact ⟨hlast.workers_setPhase rfl index, congrArg (· + 1) hlast.free, hlast.gathered,
          hlast.state⟩
      · simp only [seen?, hworker, hend]
  | @collected index job result gathered world hworker hcollect =>
      obtain ⟨phase, hmirror, hphase⟩ := h.worker hworker
      obtain rfl := Phase.eq_finished_of_quiet hphase
      have hmove := Pool.mem_moves_iff.mpr (.inr (.inr ⟨index, job, result, hmirror, rfl⟩))
      obtain ⟨hgathered, hafter⟩ := hblind job result mirror.gathered batch.world mirror.world h.state
      rw [← h.gathered, hcollect] at hgathered hafter
      have hcollected : (collector.take job result mirror.gathered mirror.world).1 = .ok gathered :=
        h.gathered ▸ hgathered.symm
      refine follow (.rest mirror) rfl hmove (.collected hmirror (Prod.ext hcollected rfl)) ?_ ?_
      · exact ⟨h.workers_setPhase rfl index, h.free, rfl, h.gathered ▸ hafter⟩
      · simp only [seen?, hworker, hmirror]

theorem trail (h : Mirrors batch mirror) (hblind : collector.Blind)
    (htrail : Trail left collector batch past last)
    (hmatches : ∀ entry ∈ past, Matches left right entry) :
    ∃ past' last', Trail right collector mirror past' last' ∧ Mirrors last last' ∧
      seen past' = seen past := by
  induction htrail generalizing mirror with
  | rest batch => exact ⟨[], mirror, .rest _, h, rfl⟩
  | @move batch next last move later hmove hstep hlater ih =>
      obtain ⟨hfirst, hrest⟩ := List.forall_mem_cons.mp hmatches
      obtain ⟨first, mid, hmid, hnext, hseen⟩ := h.step hblind hfirst hstep
      obtain ⟨past', last', htrail', hlast, hseen'⟩ := ih hnext hrest
      refine ⟨first ++ past', last', hmid.append htrail', hlast, ?_⟩
      rw [seen_append, hseen, hseen', ← seen_singleton, ← seen_append, List.singleton_append]

end Mirrors

/-- The runs end the same way, with the same gathered, and leave the same behind. -/
structure Result.Agree (result other : Result ι α γ ρ) : Prop where
  stop : result.stop = other.stop
  gathered : result.batch.gathered = other.batch.gathered
  state : result.batch.world.SameState other.batch.world

theorem Mirrors.close {final : List (Batch ι α γ ρ × Move)} {result : Result ι α γ ρ}
    (h : Mirrors last mirror) (hblind : collector.Blind) (hclose : Close left collector last final result) :
    ∃ final' result', Close right collector mirror final' result' ∧ result.Agree result' ∧
      seen final' = seen final := by
  cases hclose with
  | exhausted hmoves =>
      exact ⟨[], _, .exhausted (h.moves_eq.trans hmoves), ⟨rfl, h.gathered, h.state⟩, rfl⟩
  | @stopped move failure stopped hmove hmake =>
      obtain ⟨index, job, result, rfl, hworker, hfails⟩ := collect_of_make_stopped hmake
      obtain ⟨phase, hmirror, hphase⟩ := h.worker hworker
      obtain rfl := Phase.eq_finished_of_quiet hphase
      obtain ⟨hsame, hafter⟩ := hblind job result mirror.gathered last.world mirror.world h.state
      rw [← h.gathered] at hsame hafter
      have hfails' : (collector.take job result mirror.gathered mirror.world).1 = .error failure :=
        h.gathered ▸ hsame.symm.trans hfails
      rw [make_collect_failed hworker hfails] at hmake
      cases hmake
      refine ⟨_, _, .stopped (h.moves_eq ▸ hmove) (make_collect_failed hmirror hfails'),
        ⟨rfl, h.gathered, h.gathered ▸ hafter⟩, ?_⟩
      simp only [seen_singleton, seen?, hworker, hmirror]

end Batch

/-- Until it has made its first call, a task that takes no notice of the reply to it does so still. -/
theorem Task.Leads.heedless {task last : Task α} {call : Call} {moments : List (Moment ρ)}
    {runner : Runner ρ} (h : task.Leads runner moments last) (hheedless : task.Heedless call) :
    (moments.filterMap Moment.issue? = [] ∧ last.Heedless call) ∨
      ∃ first later, moments.filterMap Moment.issue? = first :: later ∧ first.call = call := by
  induction h with
  | rest task => exact .inl ⟨rfl, hheedless⟩
  | @step effect next reply world moments last hreply hrest ih =>
      obtain ⟨rest, hquiet⟩ := hheedless
      cases effect with
      | note event => exact ih ⟨rest, hquiet⟩
      | run first =>
          obtain ⟨hcall, -⟩ := Task.perform.inj hquiet
          exact .inr ⟨_, _, rfl, Effect.run.inj hcall⟩
      | _ => cases hquiet

namespace Batch

variable {left right : Runner ρ} {collector : Collector ι α γ ρ} {tasks : ι → Task α}
  {first : ι → Call} {jobs : Nat} {work : List ι} {gathered : γ} {world : World ρ}
  {past : List (Batch ι α γ ρ × Move)} {last : Batch ι α γ ρ}

theorem matches_of_trail
    (h : Trail left collector (start jobs (work.map fun job => (job, tasks job)) gathered world) past last)
    (hheedless : ∀ job ∈ work, (tasks job).Heedless (first job))
    (hsame : ∀ index, SameButFirst left right (issuesOf index past)) :
    ∀ entry ∈ past, Matches left right entry := by
  rintro ⟨batch, move⟩ hentry index job call rest rfl hworker
  obtain ⟨earlier, later, rfl⟩ := List.append_of_mem hentry
  obtain ⟨next, hearlier, -, -⟩ := h.split
  obtain ⟨hjob, hleads⟩ := leads_of_trail hearlier hworker
  have hprefix := hsame index
  rw [issuesOf_append, issuesOf_cons, ← List.append_assoc, doing?_perform hworker, if_pos rfl] at hprefix
  have hlast := hprefix.of_append.last
  have hfirst := hheedless job (List.mem_of_getElem? hjob)
  rcases hleads.heedless hfirst with ⟨hnone, other, hquiet⟩ | ⟨issue, calls, hcalls, -⟩
  · have hempty : issuesOf index earlier = [] := hnone
    rw [if_pos hempty] at hlast
    refine .inr ⟨hlast, fun reply reply' => ?_⟩
    obtain ⟨-, hrest⟩ := Task.perform.inj hquiet
    rw [congrFun (eq_of_heq hrest) reply, congrFun (eq_of_heq hrest) reply']
  · have hsome : issuesOf index earlier ≠ [] := by
      rw [issuesOf, hcalls]
      exact List.cons_ne_nil _ _
    rw [if_neg hsome] at hlast
    exact .inl hlast

/-- The first call of a worker is the one to which it takes no notice of the reply. -/
theorem call_of_issuesOf
    (h : Trail left collector (start jobs (work.map fun job => (job, tasks job)) gathered world) past last)
    (hheedless : ∀ job ∈ work, (tasks job).Heedless (first job)) {index : Nat} {job : ι}
    (hjob : work[index]? = some job) {issue : Issue ρ} {later : List (Issue ρ)}
    (hissues : issuesOf index past = issue :: later) : issue.call = first job := by
  rw [issuesOf, doings, List.filterMap_filterMap] at hissues
  obtain ⟨earlier, ⟨batch, move⟩, rest, rfl, hnone, hissue, -⟩ :=
    List.filterMap_eq_cons_iff.mp hissues
  obtain ⟨next, hearlier, -, -⟩ := h.split
  obtain ⟨⟨effect, world'⟩, hmoment, hcalled⟩ := Option.bind_eq_some_iff.mp hissue
  obtain ⟨owner, task, hworker, -⟩ := worker_of_doing? hmoment
  obtain ⟨howner, hleads⟩ := leads_of_trail hearlier hworker
  obtain rfl : job = owner := Option.some.inj (hjob.symm.trans howner)
  have hempty : (doings index earlier).filterMap Moment.issue? = [] := by
    rw [doings, List.filterMap_filterMap, List.filterMap_eq_nil_iff]
    exact hnone
  have hfirst := hheedless job (List.mem_of_getElem? hjob)
  rcases hleads.heedless hfirst with ⟨-, other, hquiet⟩ | ⟨_, _, hcalls, -⟩
  · cases effect with
    | run call =>
        obtain ⟨hcall, -⟩ := Task.perform.inj hquiet
        rw [← Effect.run.inj hcall, ← Option.some.inj hcalled]
    | _ => cases hcalled
  · rw [hempty] at hcalls
    cases hcalls

theorem call_of_history {schedule : Schedule} (hheedless : ∀ job ∈ work, (tasks job).Heedless (first job))
    {index : Nat} {job : ι} (hjob : work[index]? = some job) {issue : Issue ρ} {later : List (Issue ρ)}
    (hissues : issuesOf index (history left collector schedule jobs (work.map fun job => (job, tasks job))
      gathered world) = issue :: later) : issue.call = first job := by
  by_cases hjobs : Pool.permits jobs ≤ Pool.maxPermits
  · obtain ⟨past, last, final, htrail, hclose, hhistory⟩ :=
      trail_run hjobs schedule (work.map fun job => (job, tasks job)) gathered world
    rw [hhistory, issuesOf_append, issuesOf_close hclose, List.append_nil] at hissues
    exact call_of_issuesOf htrail hheedless hjob hissues
  · rw [history, Pool.start, if_pos (Nat.not_le.mp hjobs)] at hissues
    cases hissues

/-- For every run under one runner there is a run under the other, in which the same is seen. -/
theorem exists_mirrored_run (hblind : collector.Blind)
    (hheedless : ∀ job ∈ work, (tasks job).Heedless (first job)) (schedule : Schedule)
    (hsame : ∀ index, SameButFirst left right (issuesOf index
      (history left collector schedule jobs (work.map fun job => (job, tasks job)) gathered world))) :
    let all := work.map fun job => (job, tasks job)
    ∃ other, (run left collector schedule jobs all gathered world).Agree
        (run right collector other jobs all gathered world) ∧
      seen (history right collector other jobs all gathered world) =
        seen (history left collector schedule jobs all gathered world) := by
  intro all
  by_cases hjobs : Pool.permits jobs ≤ Pool.maxPermits
  · obtain ⟨past, last, final, htrail, hclose, hhistory⟩ :=
      trail_run hjobs schedule all gathered world
    have hmatches := matches_of_trail htrail hheedless fun index => by
      have hprefix := hsame index
      rw [hhistory, issuesOf_append] at hprefix
      exact hprefix.of_append
    obtain ⟨past', last', htrail', hlast, hseen⟩ := (Mirrors.refl _).trail hblind htrail hmatches
    obtain ⟨final', result', hclose', hagree, hseen'⟩ := hlast.close hblind hclose
    obtain ⟨other, hrun, hother⟩ := exists_schedule hjobs htrail' hclose'
    refine ⟨other, hrun ▸ hagree, ?_⟩
    rw [hother, hhistory, seen_append, seen_append, hseen, hseen']
  · refine ⟨schedule, ?_⟩
    have hmany := Nat.not_le.mp hjobs
    simp only [run, history, Pool.start, if_pos hmany]
    exact ⟨⟨rfl, rfl, .refl _⟩, trivial⟩

end Batch

end Assay
