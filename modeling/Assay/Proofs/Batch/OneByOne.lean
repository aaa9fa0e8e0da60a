import Assay.Proofs.Batch.Holders

/-!
# One at a time

Where there is one permit, a worker takes it only after everybody who had it before has finished. So workers finish
in the order in which they entered, and if they enter in the order of the list and their results are taken in the
order in which they finish, then the results are taken in the order of the list.
-/

namespace Assay

namespace Batch

variable {ι α γ ρ : Type}

/-- Who takes a permit in this move. -/
def entered? : Batch ι α γ ρ × Move → Option Nat
  | (_, .enter index) => some index
  | _ => none

/-- Who has finished by this move. -/
def finished? (runner : Runner ρ) : Batch ι α γ ρ × Move → Option Nat
  | (batch, .advance index) =>
    match batch.pool.workers[index]? with
    | some ⟨_, .active (.done _)⟩ => some index
    | some ⟨_, .active (.perform effect _)⟩ =>
      match effect.perform runner batch.world with
      | (.ok _, _) => none
      | (.error _, _) => some index
    | _ => none
  | _ => none

/-- Whose result is taken in this move. -/
def collected? : Batch ι α γ ρ × Move → Option Nat
  | (_, .collect index) => some index
  | _ => none

/-- Permits are taken in the order of the list, and results in the order in which workers finish. -/
structure InTurn (runner : Runner ρ) (past : List (Batch ι α γ ρ × Move)) : Prop where
  entered : ∃ count, past.filterMap entered? = List.range count
  collected : past.filterMap collected? <+: past.filterMap (finished? runner)

variable {runner : Runner ρ} {collector : Collector ι α γ ρ} {jobs : Nat}

theorem Ledger.eq_nil_of_free {held : List Nat} {pool : Pool ι α} (h : Ledger jobs held pool)
    (hjobs : Pool.permits jobs = 1) (hfree : 0 < pool.free) : held = [] := by
  have hpermits : pool.free + pool.active = 1 := h.permits.trans hjobs
  apply List.length_eq_zero_iff.mp
  calc
    held.length = pool.active := h.length_eq
    _ = 0 := by omega

theorem Ledger.eq_singleton_of_active {held : List Nat} {pool : Pool ι α} (h : Ledger jobs held pool)
    (hjobs : Pool.permits jobs = 1) {index : Nat} {job : ι} {task : Task α}
    (hworker : pool.workers[index]? = some ⟨job, .active task⟩) : held = [index] := by
  have hpermits : pool.free + pool.active = 1 := h.permits.trans hjobs
  have hmem : index ∈ held := by
    rw [h.mem_iff]
    simp [Pool.activeAt, hworker, Phase.isActive]
  have hpositive := List.length_pos_of_mem hmem
  have hlength : held.length = 1 := by
    rw [h.length_eq] at hpositive ⊢
    omega
  obtain ⟨holder, rfl⟩ := List.length_eq_one_iff.mp hlength
  rw [List.mem_singleton.mp hmem]

/-- Whoever has entered has finished, except for the one who has the permit. -/
theorem Step.entered_eq {batch next : Batch ι α γ ρ} {move : Move}
    {past : List (Batch ι α γ ρ × Move)} (hstep : Step runner collector batch move next)
    (hledger : Ledger jobs (holders runner collector past) batch.pool) (hjobs : Pool.permits jobs = 1)
    (h : past.filterMap entered? =
      past.filterMap (finished? runner) ++ holders runner collector past) :
    (past ++ [(batch, move)]).filterMap entered? =
      (past ++ [(batch, move)]).filterMap (finished? runner) ++
        holders runner collector (past ++ [(batch, move)]) := by
  rw [List.filterMap_append, List.filterMap_append, holders_concat, h]
  cases hstep with
  | @entered index job task hworker hfree =>
      rw [hledger.eq_nil_of_free hjobs hfree]
      simp [entered?, finished?, holdersAfter]
  | @advanced index job effect rest reply world hworker hperform =>
      simp [entered?, finished?, holdersAfter, hworker, hperform]
  | @panicked index job effect rest panic world hworker hperform =>
      rw [hledger.eq_singleton_of_active hjobs hworker]
      simp [entered?, finished?, holdersAfter, hworker, hperform]
  | @ended index job value hworker =>
      rw [hledger.eq_singleton_of_active hjobs hworker]
      simp [entered?, finished?, holdersAfter, hworker]
  | collected hworker hcollect =>
      simp [List.filterMap_cons, entered?, finished?, holdersAfter, hworker, hcollect]

theorem entered_of_trail {work : List (ι × Task α)} {gathered : γ} {world : World ρ}
    {past : List (Batch ι α γ ρ × Move)} {last : Batch ι α γ ρ}
    (h : Trail runner collector (start jobs work gathered world) past last)
    (hjobs : Pool.permits jobs = 1) :
    past.filterMap entered? =
      past.filterMap (finished? runner) ++ holders runner collector past := by
  refine (h.invariant (fun past batch =>
    Ledger jobs (holders runner collector past) batch.pool ∧
      past.filterMap entered? =
        past.filterMap (finished? runner) ++ holders runner collector past) []
    ⟨ledger_start jobs work gathered world, rfl⟩ ?_).2
  rintro past batch move next - ⟨hledger, hentered⟩ hstep
  refine ⟨?_, hstep.entered_eq hledger hjobs hentered⟩
  rw [holders_concat]
  exact hstep.ledger hledger

theorem eq_range_of_concat_prefix {indices : List Nat} {index count : Nat}
    (h : indices ++ [index] <+: List.range count) : indices = List.range index := by
  have htake := List.prefix_iff_eq_take.mp h
  rw [List.take_range, List.length_append, List.length_singleton] at htake
  have hlength := congrArg List.length htake
  rw [List.length_append, List.length_singleton, List.length_range] at hlength
  rw [← hlength, List.range_succ] at htake
  obtain ⟨hindices, hlast⟩ := List.append_inj' htake rfl
  rw [List.singleton_inj.mp hlast]
  exact hindices

/-- In turn, everybody before this one has had their result taken, in the order of the list. -/
theorem InTurn.collected_eq_range {work : List (ι × Task α)} {gathered : γ} {world : World ρ}
    {past : List (Batch ι α γ ρ × Move)} {last : Batch ι α γ ρ} {index : Nat}
    (hturn : InTurn runner (past ++ [(last, .collect index)]))
    (h : Trail runner collector (start jobs work gathered world) past last)
    (hjobs : Pool.permits jobs = 1) : past.filterMap collected? = List.range index := by
  obtain ⟨count, hentered⟩ := hturn.entered
  have hcollected := hturn.collected
  simp only [List.filterMap_append, List.filterMap_cons, List.filterMap_nil, entered?, finished?,
    collected?, List.append_nil] at hentered hcollected
  have hfinished : past.filterMap (finished? runner) <+: List.range count := by
    rw [← hentered, entered_of_trail h hjobs]
    exact List.prefix_append _ _
  exact eq_range_of_concat_prefix (hcollected.trans hfinished)

end Batch

end Assay
