import Assay.Proofs.Task.Along

/-!
# What a worker has done so far

A worker among others does not run its task alone: anything may happen between two of its effects. What it has done
is a list of moments, each in the world it found, and what is left to do is the task that the replies have led to.
-/

namespace Assay

namespace Task

variable {α β ρ : Type} {runner : Runner ρ}

/-- These moments lead from the first task to the second. -/
inductive Leads (runner : Runner ρ) : Task α → List (Moment ρ) → Task α → Prop
  | rest (task : Task α) : Leads runner task [] task
  | step {effect : Effect} {next : effect.Reply → Task α} {reply : effect.Reply} {world : World ρ}
      {moments : List (Moment ρ)} {last : Task α}
      (hreply : (effect.perform runner world).1 = .ok reply)
      (hrest : Leads runner (next reply) moments last) :
      Leads runner (.perform effect next) (⟨effect, world⟩ :: moments) last

theorem Leads.concat {task : Task α} {effect : Effect} {next : effect.Reply → Task α}
    {moments : List (Moment ρ)} {reply : effect.Reply} {world : World ρ}
    (h : Leads runner task moments (.perform effect next))
    (hreply : (effect.perform runner world).1 = .ok reply) :
    Leads runner task (moments ++ [⟨effect, world⟩]) (next reply) := by
  generalize hlast : perform effect next = last at h
  induction h with
  | rest task =>
      subst hlast
      exact .step hreply (.rest _)
  | step hfirst _ ih => exact .step hfirst (ih hlast)

/-- Where two tasks were done one after the other, the moments of the first come first. -/
theorem Leads.of_bind {task : Task α} {next : α → Task β} {moments : List (Moment ρ)} {value : β}
    (h : Leads runner (task.bind next) moments (.done value)) :
    ∃ first later between, moments = first ++ later ∧ Leads runner task first (.done between) ∧
      Leads runner (next between) later (.done value) := by
  induction task generalizing moments with
  | done between => exact ⟨[], moments, between, rfl, .rest _, h⟩
  | perform effect rest ih =>
      cases h with
      | @step _ _ reply world later _ hreply hrest =>
          obtain ⟨first, later, between, rfl, hfirst, hlater⟩ := ih reply hrest
          exact ⟨⟨effect, world⟩ :: first, later, between, rfl, .step hreply hfirst, hlater⟩

theorem Leads.of_perform {effect : Effect} {next : effect.Reply → Task α}
    {moments : List (Moment ρ)} {value : α}
    (h : Leads runner (.perform effect next) moments (.done value)) :
    ∃ world reply later, moments = ⟨effect, world⟩ :: later ∧
      (effect.perform runner world).1 = .ok reply ∧ Leads runner (next reply) later (.done value) := by
  cases h with
  | step hreply hrest => exact ⟨_, _, _, rfl, hreply, hrest⟩

theorem Leads.of_done {first value : α} {moments : List (Moment ρ)}
    (h : Leads runner (.done first) moments (.done value)) : moments = [] ∧ value = first := by
  cases h with
  | rest _ => exact ⟨rfl, rfl⟩

theorem Leads.of_map {task : Task α} {change : α → β} {moments : List (Moment ρ)} {value : β}
    (h : Leads runner (task.bind fun found => .done (change found)) moments (.done value)) :
    ∃ found, Leads runner task moments (.done found) ∧ value = change found := by
  obtain ⟨first, later, found, rfl, hfirst, hlater⟩ := h.of_bind
  obtain ⟨rfl, rfl⟩ := hlater.of_done
  rw [List.append_nil]
  exact ⟨found, hfirst, rfl⟩

/-- A task that was led on is led on along the way it can go at all. -/
theorem Leads.along {asks : Effect → Prop} {given : (effect : Effect) → effect.Reply → Prop}
    {yields : α → Prop} {task last : Task α} {moments : List (Moment ρ)}
    (h : Leads runner task moments last) (hgiven : ∀ effect reply, given effect reply)
    (halong : task.Along asks given yields) : last.Along asks given yields := by
  induction h with
  | rest task => exact halong
  | step _ _ ih => exact ih (halong.2 _ (hgiven _ _))

end Task

end Assay
