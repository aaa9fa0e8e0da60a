import Assay.Proofs.Dispatch.Reports

/-!
# Working out a run

A run ends because its workers do, which is no bound that could be counted down. To work out a given run, a
number of moves is enough that is large enough for it.
-/

namespace Assay

namespace Batch

variable {ι α γ ρ : Type} (runner : Runner ρ) (collector : Collector ι α γ ρ) (schedule : Schedule)

/-- The run and its moves, if it takes fewer moves than given. -/
def runWithin : Nat → Nat → Batch ι α γ ρ → Option (Result ι α γ ρ × List (Batch ι α γ ρ × Move))
  | 0, _, _ => none
  | bound + 1, tick, batch =>
    match schedule.pick tick batch.pool.moves with
    | none => some (⟨none, batch⟩, [])
    | some move =>
      match batch.make runner collector move with
      | .idle => some (⟨none, batch⟩, [])
      | .continued next =>
        (runWithin bound (tick + 1) next).map fun (result, later) => (result, (batch, move) :: later)
      | .stopped failure stopped => some (⟨some (.failed failure), stopped⟩, [(batch, move)])

variable {runner collector schedule}

theorem runFrom_of_runWithin {bound tick : Nat} {batch : Batch ι α γ ρ} {result : Result ι α γ ρ}
    {past : List (Batch ι α γ ρ × Move)}
    (h : runWithin runner collector schedule bound tick batch = some (result, past)) :
    runFrom runner collector schedule tick batch = result ∧
      historyFrom runner collector schedule tick batch = past := by
  induction bound generalizing tick batch result past with
  | zero => cases h
  | succ bound ih =>
      rw [runWithin] at h
      rcases hpick : schedule.pick tick batch.pool.moves with _ | move
      · rw [hpick] at h
        cases h
        exact ⟨runFrom_of_pick_none hpick, historyFrom_of_pick_none hpick⟩
      rw [hpick] at h
      rw [runFrom_of_pick_some hpick, historyFrom_of_pick_some hpick]
      rcases hmake : batch.make runner collector move with _ | next | ⟨failure, stopped⟩
      · simp only [hmake] at h ⊢
        cases h
        exact ⟨rfl, rfl⟩
      · simp only [hmake] at h ⊢
        obtain ⟨⟨rest, later⟩, hrest, heq⟩ := Option.map_eq_some_iff.mp h
        cases heq
        obtain ⟨hrun, hhistory⟩ := ih hrest
        exact ⟨hrun, congrArg _ hhistory⟩
      · simp only [hmake] at h ⊢
        cases h
        exact ⟨rfl, rfl⟩

end Batch

namespace Dispatcher

variable {ρ : Type} {dispatcher : Dispatcher} {runner : Runner ρ} {reporter : Reporter ρ}
  {schedule : Schedule} {submissions : List Submission} {world : World ρ}

def runWithin (bound : Nat) (dispatcher : Dispatcher) (runner : Runner ρ) (reporter : Reporter ρ)
    (schedule : Schedule) (submissions : List Submission) (world : World ρ) :
    Option (Result ρ × List (Batch Submission (Except Failure Outcome) ResultSet ρ × Move)) :=
  if Pool.permits dispatcher.jobs ≤ Pool.maxPermits then
    Batch.runWithin runner (collect reporter) schedule bound 0 (dispatcher.start submissions world)
  else none

theorem run_of_runWithin {bound : Nat} {result : Result ρ}
    {past : List (Batch Submission (Except Failure Outcome) ResultSet ρ × Move)}
    (h : runWithin bound dispatcher runner reporter schedule submissions world =
      some (result, past)) :
    dispatcher.run runner reporter schedule submissions world = result ∧
      dispatcher.history runner reporter schedule submissions world = past := by
  rw [runWithin] at h
  obtain ⟨hjobs, hrun⟩ := Option.ite_none_right_eq_some.mp h
  have hresult := Batch.runFrom_of_runWithin hrun
  rw [Dispatcher.run, Dispatcher.history, Batch.run_eq hjobs, Batch.history_eq hjobs]
  exact hresult

end Dispatcher

end Assay
