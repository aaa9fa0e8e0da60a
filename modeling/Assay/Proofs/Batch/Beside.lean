import Assay.Proofs.Batch.Trail

/-!
# What is remembered besides

A world can hold more than the runner has to remember, such as a list of what somebody was told. As long as only
the collector adds to that and nobody looks at it, a batch goes the same way with it and without it, so whatever is
kept there can be read as having happened in the batch without it.
-/

namespace Assay

variable {ι α γ ρ σ : Type}

/-- The same world as another runner finds it. -/
def World.withMemory (world : World ρ) (memory : σ) : World σ :=
  { files := world.files, memory, events := world.events, hook := world.hook }

/-- The world without what is remembered besides. -/
def World.forget (world : World (ρ × σ)) : World ρ := world.withMemory world.memory.1

/-- Runs commands in the same way, and leaves alone what is remembered besides. -/
def Runner.beside (runner : Runner ρ) : Runner (ρ × σ) := fun call files (memory, other) =>
  let (ending, files, memory) := runner call files memory
  (ending, files, memory, other)

/-- What is remembered besides makes no difference to this collector, which does the same as the other one. -/
structure Collector.Covers (collector : Collector ι α γ (ρ × σ)) (plain : Collector ι α γ ρ) : Prop where
  lament : collector.lament = plain.lament
  value : ∀ (job : ι) (result : Except Panic α) (gathered : γ) (world : World (ρ × σ)),
    (collector.take job result gathered world).1 = (plain.take job result gathered world.forget).1
  world : ∀ (job : ι) (result : Except Panic α) (gathered : γ) (world : World (ρ × σ)),
    (collector.take job result gathered world).2.forget = (plain.take job result gathered world.forget).2

namespace Effect

variable (runner : Runner ρ) (effect : Effect) (world : World (ρ × σ))

theorem perform_beside :
    (effect.perform runner.beside world).1 = (effect.perform runner world.forget).1 ∧
      (effect.perform runner.beside world).2.forget = (effect.perform runner world.forget).2 := by
  cases effect with
  | openStream path =>
      simp only [perform, World.forget, World.withMemory]
      split <;> exact ⟨rfl, rfl⟩
  | _ => exact ⟨rfl, rfl⟩

theorem memory_perform_beside : (effect.perform runner.beside world).2.memory.2 = world.memory.2 := by
  cases effect with
  | openStream path =>
      simp only [perform]
      split <;> rfl
  | _ => rfl

end Effect

namespace Batch

def forget (batch : Batch ι α γ (ρ × σ)) : Batch ι α γ ρ :=
  { pool := batch.pool, gathered := batch.gathered, world := batch.world.forget }

@[simp] theorem forget_pool (batch : Batch ι α γ (ρ × σ)) : batch.forget.pool = batch.pool := rfl

@[simp] theorem forget_world (batch : Batch ι α γ (ρ × σ)) : batch.forget.world = batch.world.forget := rfl

@[simp] theorem forget_gathered (batch : Batch ι α γ (ρ × σ)) : batch.forget.gathered = batch.gathered := rfl

def Turn.forget : Turn ι α γ (ρ × σ) → Turn ι α γ ρ
  | idle => idle
  | continued batch => continued batch.forget
  | stopped failure batch => stopped failure batch.forget

def Result.forget (result : Result ι α γ (ρ × σ)) : Result ι α γ ρ :=
  { stop := result.stop, batch := result.batch.forget }

def forgetEntry (entry : Batch ι α γ (ρ × σ) × Move) : Batch ι α γ ρ × Move :=
  (entry.1.forget, entry.2)

variable {runner : Runner ρ} {collector : Collector ι α γ (ρ × σ)} {plain : Collector ι α γ ρ}

theorem make_forget (h : collector.Covers plain) (batch : Batch ι α γ (ρ × σ)) (move : Move) :
    batch.forget.make runner plain move = (batch.make runner.beside collector move).forget := by
  cases move with
  | enter index =>
      simp only [make, forget_pool]
      split
      · by_cases hfree : 0 < batch.pool.free <;> simp only [hfree, if_true, if_false] <;> rfl
      · rfl
  | advance index =>
      simp only [make, forget_pool, forget_world, forget_gathered]
      split
      · rfl
      · next job effect rest _ =>
        obtain ⟨hreply, hworld⟩ := effect.perform_beside runner batch.world
        rcases hplain : effect.perform runner batch.world.forget with ⟨panic | reply, after⟩ <;>
          rcases hbeside : effect.perform runner.beside batch.world with ⟨panic' | reply', after'⟩ <;>
          rw [hplain, hbeside] at hreply hworld <;> cases hreply <;> cases hworld
        · simp only [Turn.forget, finish, forget, h.lament]
          rfl
        · rfl
      · rfl
  | collect index =>
      simp only [make, forget_pool, forget_world, forget_gathered]
      split
      · next job result _ =>
        have hvalue := h.value job result batch.gathered batch.world
        have hworld := h.world job result batch.gathered batch.world
        rcases hplain : plain.take job result batch.gathered batch.world.forget with ⟨failure | value, after⟩ <;>
          rcases hbeside : collector.take job result batch.gathered batch.world with ⟨failure' | value', after'⟩ <;>
          rw [hplain, hbeside] at hvalue hworld <;> cases hvalue <;> cases hworld <;> rfl
      · rfl

/-- What is remembered besides does not change the course of a batch. -/
theorem runFrom_forget (h : collector.Covers plain) (schedule : Schedule) (tick : Nat)
    (batch : Batch ι α γ (ρ × σ)) :
    runFrom runner plain schedule tick batch.forget =
        (runFrom runner.beside collector schedule tick batch).forget ∧
      historyFrom runner plain schedule tick batch.forget =
        (historyFrom runner.beside collector schedule tick batch).map forgetEntry := by
  induction tick, batch using historyFrom.induct runner.beside collector schedule with
  | case1 tick batch hpick =>
      have hplain : schedule.pick tick batch.forget.pool.moves = none := hpick
      rw [runFrom_of_pick_none hpick, historyFrom_of_pick_none hpick, runFrom_of_pick_none hplain,
        historyFrom_of_pick_none hplain]
      exact ⟨rfl, rfl⟩
  | case2 tick batch move hpick hmake =>
      exact absurd hmake (make_ne_idle (mem_of_pick_eq_some hpick))
  | case3 tick batch move hpick next hmake ih =>
      have hplain : schedule.pick tick batch.forget.pool.moves = some move := hpick
      rw [runFrom_of_pick_some hpick, historyFrom_of_pick_some hpick, runFrom_of_pick_some hplain,
        historyFrom_of_pick_some hplain, make_forget h, hmake]
      exact ⟨ih.1, congrArg ((batch.forget, move) :: ·) ih.2⟩
  | case4 tick batch move hpick failure stopped hmake =>
      have hplain : schedule.pick tick batch.forget.pool.moves = some move := hpick
      rw [runFrom_of_pick_some hpick, historyFrom_of_pick_some hpick, runFrom_of_pick_some hplain,
        historyFrom_of_pick_some hplain, make_forget h, hmake]
      exact ⟨rfl, rfl⟩

theorem run_forget (h : collector.Covers plain) (schedule : Schedule) (jobs : Nat)
    (work : List (ι × Task α)) (gathered : γ) (world : World (ρ × σ)) :
    run runner plain schedule jobs work gathered world.forget =
        (run runner.beside collector schedule jobs work gathered world).forget ∧
      history runner plain schedule jobs work gathered world.forget =
        (history runner.beside collector schedule jobs work gathered world).map forgetEntry := by
  unfold run history
  rcases Pool.start jobs work with panic | pool
  · exact ⟨rfl, rfl⟩
  · exact runFrom_forget h schedule 0 { pool, gathered, world }

end Batch

end Assay
