import Assay.Proofs.Batch.Trail

/-!
# Schedules from trails

A schedule picks one of the moves that are possible, and any of them can be picked. So whatever a batch can do at
all, move by move, is what it does under some schedule: the one that has these moves written down.
-/

namespace Assay

/-- Picks the moves in the order in which they are written down. -/
def Schedule.following (moves : List Move) : Schedule := fun tick possible =>
  match moves[tick]? with
  | some move => possible.idxOf move
  | none => 0

theorem Schedule.pick_following {moves possible : List Move} {tick : Nat} {move : Move}
    (hmove : moves[tick]? = some move) (hpossible : move ∈ possible) :
    (Schedule.following moves).pick tick possible = some move := by
  have hlt := List.idxOf_lt_length_of_mem hpossible
  simp only [Schedule.pick, Schedule.following, hmove]
  rw [Nat.mod_eq_of_lt hlt, List.getElem?_eq_getElem hlt, List.getElem_idxOf hlt]

namespace Batch

variable {ι α γ ρ : Type} {runner : Runner ρ} {collector : Collector ι α γ ρ}
  {batch next last : Batch ι α γ ρ} {past later final : List (Batch ι α γ ρ × Move)}

theorem make_of_step {move : Move} (h : Step runner collector batch move next) :
    batch.make runner collector move = .continued next := by
  cases h with
  | entered hworker hfree => simp only [make, hworker, hfree, if_true]
  | advanced hworker hperform => simp only [make, hworker, hperform]
  | panicked hworker hperform => simp only [make, hworker, hperform]
  | ended hworker => simp only [make, hworker]
  | collected hworker hcollect => simp only [make, hworker, hcollect]

/-- A trail that is followed is a run. -/
theorem run_following {result : Result ι α γ ρ} (h : Trail runner collector batch past last)
    (hclose : Close runner collector last final result) {moves : List Move} {tick : Nat}
    (hmoves : moves.drop tick = (past ++ final).map Prod.snd) :
    runFrom runner collector (.following moves) tick batch = result ∧
      historyFrom runner collector (.following moves) tick batch = past ++ final := by
  induction h generalizing tick with
  | rest batch =>
      cases hclose with
      | exhausted hnone =>
          have hpick : (Schedule.following moves).pick tick batch.pool.moves = none := by
            rw [hnone]
            rfl
          exact ⟨runFrom_of_pick_none hpick, historyFrom_of_pick_none hpick⟩
      | @stopped move failure stopped hmove hmake =>
          have hpick : (Schedule.following moves).pick tick batch.pool.moves = some move := by
            refine Schedule.pick_following ?_ hmove
            rw [← Nat.add_zero tick, ← List.getElem?_drop, hmoves]
            rfl
          rw [runFrom_of_pick_some hpick, historyFrom_of_pick_some hpick, hmake]
          exact ⟨rfl, rfl⟩
  | @move batch next last move later hmove hstep hlater ih =>
      have hpick : (Schedule.following moves).pick tick batch.pool.moves = some move := by
        refine Schedule.pick_following ?_ hmove
        rw [← Nat.add_zero tick, ← List.getElem?_drop, hmoves]
        rfl
      have hrest : moves.drop (tick + 1) = (later ++ final).map Prod.snd := by
        rw [← List.drop_drop, hmoves]
        rfl
      obtain ⟨hrun, hhistory⟩ := ih hclose hrest
      rw [runFrom_of_pick_some hpick, historyFrom_of_pick_some hpick, make_of_step hstep]
      exact ⟨hrun, congrArg _ hhistory⟩

/-- Whatever a batch can do, it does under some schedule. -/
theorem exists_schedule {jobs : Nat} {work : List (ι × Task α)} {gathered : γ} {world : World ρ}
    {result : Result ι α γ ρ} (hjobs : Pool.permits jobs ≤ Pool.maxPermits)
    (h : Trail runner collector (start jobs work gathered world) past last)
    (hclose : Close runner collector last final result) :
    ∃ schedule, run runner collector schedule jobs work gathered world = result ∧
      history runner collector schedule jobs work gathered world = past ++ final := by
  refine ⟨.following ((past ++ final).map Prod.snd), ?_⟩
  rw [run_eq hjobs, history_eq hjobs]
  exact run_following h hclose List.drop_zero

end Batch

end Assay
