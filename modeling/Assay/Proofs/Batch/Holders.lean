import Assay.Proofs.Batch.Permits

/-!
# Who holds a permit

Nothing in a pool names the holders of its permits. They are read off the moves that were made: a worker takes
a permit when it enters and gives it back when it ends, breaks down or is aborted, and that is the whole ledger.
`Governed` says that the ledger, the phases of the workers and the count of free permits never disagree, and
that a pool in which somebody is still to finish is never stuck.
-/

namespace Assay

namespace Phase

variable {α : Type}

/-- The worker has come to a command, and the command is not back yet. -/
def inFlight : Phase α → Bool
  | active (.perform (.run _) _) => true
  | _ => false

theorem isActive_of_inFlight {phase : Phase α} (h : phase.inFlight = true) :
    phase.isActive = true := by
  cases phase with
  | active task => rfl
  | _ => cases h

theorem isActive_abort (phase : Phase α) : phase.abort.isActive = false := by
  cases phase <;> rfl

end Phase

namespace Pool

variable {ι α : Type}

def inFlight (pool : Pool ι α) : Nat :=
  pool.workers.countP (·.phase.inFlight)

def activeAt (pool : Pool ι α) (index : Nat) : Bool :=
  (pool.workers[index]?).any fun worker => worker.phase.isActive

/-- The move is a command that comes back, and until it does there is nothing to be done about it. -/
def awaits (pool : Pool ι α) : Move → Bool
  | .advance index => (pool.workers[index]?).any fun worker => worker.phase.inFlight
  | _ => false

theorem inFlight_le_active (pool : Pool ι α) : pool.inFlight ≤ pool.active :=
  List.countP_mono_left fun _ _ hflight => Phase.isActive_of_inFlight hflight

theorem activeAt_setPhase {pool : Pool ι α} {index : Nat} {job : ι} {old : Phase α}
    (h : pool.workers[index]? = some ⟨job, old⟩) (new : Phase α) (other : Nat) :
    (pool.setPhase index new).activeAt other =
      if index = other then new.isActive else pool.activeAt other := by
  rw [activeAt, getElem?_setPhase]
  by_cases hsame : index = other
  · subst hsame
    simp [h]
  · simp [hsame, activeAt]

theorem activeAt_abort (pool : Pool ι α) (index : Nat) : pool.abort.activeAt index = false := by
  rw [activeAt, abort, List.getElem?_map]
  cases pool.workers[index]? with
  | none => rfl
  | some worker => exact worker.phase.isActive_abort

theorem active_abort (pool : Pool ι α) : pool.abort.active = 0 := by
  rw [active, List.countP_eq_zero]
  intro worker hworker
  obtain ⟨before, _, rfl⟩ := List.mem_map.mp hworker
  rw [before.phase.isActive_abort]
  exact Bool.false_ne_true

/-- The ledger of the holders is in order: everybody who is active is in it, once, and nobody else is. -/
structure Accounted (jobs : Nat) (held : List Nat) (pool : Pool ι α) : Prop where
  nodup : held.Nodup
  mem_iff : ∀ index, index ∈ held ↔ pool.activeAt index = true
  length_add_free : held.length + pool.free = max jobs 1
  inFlight_le : pool.inFlight ≤ held.length

/-- Somebody has not finished, or nobody has taken yet what came of it. -/
def Unfinished (pool : Pool ι α) : Prop :=
  ∃ worker ∈ pool.workers, worker.phase.isSettled = false

end Pool

namespace Batch

variable {ι α γ ρ : Type} (runner : Runner ρ) (collector : Collector ι α γ ρ)

/-- Who holds a permit after a move. A collector that fails takes all of them back. -/
def holdersAfter (held : List Nat) : Batch ι α γ ρ × Move → List Nat
  | (_, .enter index) => index :: held
  | (batch, .advance index) =>
    match batch.pool.workers[index]? with
    | some ⟨_, .active (.done _)⟩ => held.erase index
    | some ⟨_, .active (.perform effect _)⟩ =>
      match effect.perform runner batch.world with
      | (.ok _, _) => held
      | (.error _, _) => held.erase index
    | _ => held
  | (batch, .collect index) =>
    match batch.pool.workers[index]? with
    | some ⟨job, .finished result⟩ =>
      match collector.take job result batch.gathered batch.world with
      | (.ok _, _) => held
      | (.error _, _) => []
    | _ => held

def holders (past : List (Batch ι α γ ρ × Move)) : List Nat :=
  past.foldl (holdersAfter runner collector) []

theorem holders_concat (past : List (Batch ι α γ ρ × Move)) (entry : Batch ι α γ ρ × Move) :
    holders runner collector (past ++ [entry]) =
      holdersAfter runner collector (holders runner collector past) entry := by
  rw [holders, List.foldl_append]
  rfl

/-- The moments of a batch that starts like this, whoever takes turns in whatever order. -/
structure Governed (jobs : Nat) (first : Batch ι α γ ρ) : Prop where
  accounted : ∀ past last, Trail runner collector first past last →
    last.pool.Accounted jobs (holders runner collector past)
  progress : ∀ past last, Trail runner collector first past last → last.pool.Unfinished →
    0 < last.pool.inFlight ∨
      ∃ move ∈ last.pool.moves, last.pool.awaits move = false ∧
        last.make runner collector move ≠ .idle
  stopped : ∀ past last move failure batch, Trail runner collector first past last →
    last.make runner collector move = .stopped failure batch →
    holders runner collector (past ++ [(last, move)]) = [] ∧ batch.pool.Accounted jobs []

/-- A run comes to this result: by moves that go through, and by what ends it. -/
def Reaches (first : Batch ι α γ ρ) (result : Result ι α γ ρ) : Prop :=
  ∃ past last final, Trail runner collector first past last ∧ Close runner collector last final result

variable {runner collector}

theorem reaches_runFrom (schedule : Schedule) (tick : Nat) (batch : Batch ι α γ ρ) :
    Reaches runner collector batch (runFrom runner collector schedule tick batch) := by
  obtain ⟨past, last, final, htrail, hclose, -⟩ := trail_runFrom runner collector schedule tick batch
  exact ⟨past, last, final, htrail, hclose⟩

/-- The invariant behind `Pool.Accounted`: the ledger agrees with the phases, and the number of those who are
active is known from the permits. -/
structure Ledger (jobs : Nat) (held : List Nat) (pool : Pool ι α) : Prop where
  nodup : held.Nodup
  mem_iff : ∀ index, index ∈ held ↔ pool.activeAt index = true
  length_eq : held.length = pool.active
  permits : pool.free + pool.active = max jobs 1

theorem Ledger.accounted {jobs : Nat} {held : List Nat} {pool : Pool ι α}
    (h : Ledger jobs held pool) : pool.Accounted jobs held where
  nodup := h.nodup
  mem_iff := h.mem_iff
  length_add_free := by
    rw [h.length_eq, Nat.add_comm]
    exact h.permits
  inFlight_le := by
    rw [h.length_eq]
    exact pool.inFlight_le_active

section Steps

variable {pool : Pool ι α} {index jobs : Nat} {job : ι} {old : Phase α} {held : List Nat}

theorem Ledger.keep (h : Ledger jobs held pool) (hworker : pool.workers[index]? = some ⟨job, old⟩)
    (new : Phase α) (hactive : new.isActive = old.isActive) :
    (∀ other, other ∈ held ↔ (pool.setPhase index new).activeAt other = true) ∧
      held.length = (pool.setPhase index new).active := by
  have hcount := Pool.active_setPhase hworker new
  have hold : pool.activeAt index = old.isActive := by simp [Pool.activeAt, hworker]
  refine ⟨fun other => ?_, ?_⟩
  · rw [h.mem_iff, Pool.activeAt_setPhase hworker, hactive, ← hold]
    by_cases hsame : index = other
    · simp [hsame]
    · simp [hsame]
  · rw [hactive] at hcount
    rw [h.length_eq]
    omega

theorem Ledger.take (h : Ledger jobs held pool) (hworker : pool.workers[index]? = some ⟨job, old⟩)
    (new : Phase α) (hold : old.isActive = false) (hnew : new.isActive = true) :
    (index :: held).Nodup ∧
      (∀ other, other ∈ index :: held ↔ (pool.setPhase index new).activeAt other = true) ∧
      (index :: held).length = (pool.setPhase index new).active := by
  have hcount := Pool.active_setPhase hworker new
  have hfresh : index ∉ held := by
    rw [h.mem_iff]
    simp [Pool.activeAt, hworker, hold]
  refine ⟨List.nodup_cons.mpr ⟨hfresh, h.nodup⟩, fun other => ?_, ?_⟩
  · rw [List.mem_cons, h.mem_iff, Pool.activeAt_setPhase hworker, hnew]
    by_cases hsame : index = other
    · simp [hsame]
    · simp [hsame, Ne.symm hsame]
  · rw [hold, hnew] at hcount
    rw [List.length_cons, h.length_eq]
    simpa using hcount.symm

theorem Ledger.giveBack (h : Ledger jobs held pool)
    (hworker : pool.workers[index]? = some ⟨job, old⟩) (new : Phase α) (hold : old.isActive = true)
    (hnew : new.isActive = false) :
    (held.erase index).Nodup ∧
      (∀ other, other ∈ held.erase index ↔ (pool.setPhase index new).activeAt other = true) ∧
      (held.erase index).length = (pool.setPhase index new).active := by
  have hcount := Pool.active_setPhase hworker new
  have hmem : index ∈ held := by
    rw [h.mem_iff]
    simp [Pool.activeAt, hworker, hold]
  refine ⟨h.nodup.erase index, fun other => ?_, ?_⟩
  · rw [h.nodup.mem_erase_iff, h.mem_iff, Pool.activeAt_setPhase hworker, hnew]
    by_cases hsame : index = other
    · simp [hsame]
    · simp [hsame, Ne.symm hsame]
  · rw [hold, hnew] at hcount
    rw [List.length_erase_of_mem hmem, h.length_eq]
    simp only [if_true, Bool.false_eq_true, if_false] at hcount
    omega

end Steps

theorem Step.ledger {batch next : Batch ι α γ ρ} {move : Move} {jobs : Nat} {held : List Nat}
    (hstep : Step runner collector batch move next) (h : Ledger jobs held batch.pool) :
    Ledger jobs (holdersAfter runner collector held (batch, move)) next.pool := by
  have hpermits : next.pool.free + next.pool.active = max jobs 1 :=
    hstep.permits_eq.trans h.permits
  cases hstep with
  | @entered index job task hworker hfree =>
      obtain ⟨hnodup, hmem, hlength⟩ := h.take hworker (.active task) rfl rfl
      exact ⟨hnodup, hmem, hlength, hpermits⟩
  | @advanced index job effect rest reply after hworker hperform =>
      obtain ⟨hmem, hlength⟩ := h.keep hworker (.active (rest reply)) rfl
      simp only [holdersAfter, hworker, hperform]
      exact ⟨h.nodup, hmem, hlength, hpermits⟩
  | @panicked index job effect rest panic after hworker hperform =>
      obtain ⟨hnodup, hmem, hlength⟩ := h.giveBack hworker (.finished (.error panic)) rfl rfl
      simp only [holdersAfter, hworker, hperform]
      exact ⟨hnodup, hmem, hlength, hpermits⟩
  | @ended index job value hworker =>
      obtain ⟨hnodup, hmem, hlength⟩ := h.giveBack hworker (.finished (.ok value)) rfl rfl
      simp only [holdersAfter, hworker]
      exact ⟨hnodup, hmem, hlength, hpermits⟩
  | collected hworker hcollect =>
      obtain ⟨hmem, hlength⟩ := h.keep hworker .collected rfl
      simp only [holdersAfter, hworker, hcollect]
      exact ⟨h.nodup, hmem, hlength, hpermits⟩

section Start

variable {jobs : Nat} {work : List (ι × Task α)} {gathered : γ} {world : World ρ}
  {past : List (Batch ι α γ ρ × Move)} {last : Batch ι α γ ρ}

theorem ledger_start (jobs : Nat) (work : List (ι × Task α)) (gathered : γ) (world : World ρ) :
    Ledger jobs [] (start jobs work gathered world).pool := by
  have hinactive := active_start jobs work gathered world
  refine ⟨List.nodup_nil, fun index => ?_, hinactive.symm, ?_⟩
  · have hnone := List.countP_eq_zero.mp hinactive
    rw [Pool.activeAt, Option.any_eq_true]
    constructor
    · intro hmem
      cases hmem
    · rintro ⟨worker, hworker, hactive⟩
      exact absurd hactive (hnone worker (List.mem_of_getElem? hworker))
  · rw [hinactive]
    rfl

theorem ledger_of_trail (h : Trail runner collector (start jobs work gathered world) past last) :
    Ledger jobs (holders runner collector past) last.pool := by
  refine h.invariant (fun past batch => Ledger jobs (holders runner collector past) batch.pool) []
    (ledger_start jobs work gathered world) ?_
  intro past batch move next _ hledger hstep
  rw [holders_concat]
  exact hstep.ledger hledger

/-- As long as there are permits, somebody who has not finished can do something or waits for a command. -/
theorem progress_of_unfinished {batch : Batch ι α γ ρ}
    (hpermits : 0 < batch.pool.free + batch.pool.active) (hunfinished : batch.pool.Unfinished) :
    0 < batch.pool.inFlight ∨
      ∃ move ∈ batch.pool.moves, batch.pool.awaits move = false ∧
        batch.make runner collector move ≠ .idle := by
  obtain ⟨worker, hworker, hphase⟩ := hunfinished
  -- With a permit to be had or held, a pool without moves is one in which everybody is settled.
  have hsome : batch.pool.moves ≠ [] := by
    intro hnone
    rw [Pool.isSettled_of_moves_eq_nil hnone hpermits worker hworker] at hphase
    cases hphase
  obtain ⟨move, hmove⟩ := List.exists_mem_of_ne_nil _ hsome
  cases hawaits : batch.pool.awaits move with
  | false => exact .inr ⟨move, hmove, hawaits, make_ne_idle hmove⟩
  | true =>
      left
      rw [Pool.inFlight, List.countP_pos_iff]
      cases move with
      | advance index =>
          obtain ⟨busy, hbusy, hflight⟩ := (Option.any_eq_true _ _).mp hawaits
          exact ⟨busy, List.mem_of_getElem? hbusy, hflight⟩
      | _ => cases hawaits

/-- A collector that fails leaves nobody at work, and all permits are there again. -/
theorem accounted_of_stopped {move : Move} {failure : Failure} {batch : Batch ι α γ ρ}
    (h : Ledger jobs (holders runner collector past) last.pool)
    (hmake : last.make runner collector move = .stopped failure batch) :
    holders runner collector (past ++ [(last, move)]) = [] ∧ batch.pool.Accounted jobs [] := by
  obtain ⟨index, job, result, rfl, hworker, hfails⟩ := collect_of_make_stopped hmake
  rcases hcollect : collector.take job result last.gathered last.world with ⟨found | gathered, after⟩ <;>
    rw [hcollect] at hfails <;> cases hfails
  obtain ⟨_, hlength⟩ := h.keep hworker .collected rfl
  simp only [make, hworker, hcollect] at hmake
  cases hmake
  refine ⟨by simp only [holders_concat, holdersAfter, hworker, hcollect], List.nodup_nil,
    fun other => ?_, ?_, ?_⟩
  · rw [Pool.activeAt_abort]
    simp
  · rw [h.length_eq] at hlength
    calc
      [].length + (last.pool.setPhase index .collected).abort.free =
          last.pool.free + (last.pool.setPhase index .collected).active := Nat.zero_add _
      _ = last.pool.free + last.pool.active := by rw [hlength]
      _ = max jobs 1 := h.permits
  · calc
      (last.pool.setPhase index .collected).abort.inFlight ≤
          (last.pool.setPhase index .collected).abort.active := Pool.inFlight_le_active _
      _ = 0 := Pool.active_abort _

theorem governed_start (jobs : Nat) (work : List (ι × Task α)) (gathered : γ) (world : World ρ) :
    Governed runner collector jobs (start jobs work gathered world) where
  accounted _ _ htrail := (ledger_of_trail htrail).accounted
  progress _ _ htrail hunfinished := by
    apply progress_of_unfinished _ hunfinished
    rw [(ledger_of_trail htrail).permits]
    exact Nat.lt_of_lt_of_le Nat.one_pos (Nat.le_max_right jobs 1)
  stopped _ _ _ _ _ htrail hmake := accounted_of_stopped (ledger_of_trail htrail) hmake

end Start

end Batch

end Assay
