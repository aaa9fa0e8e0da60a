import Assay.Proofs.Task.Moments

/-!
# What a task can do at all

The runs of a task differ in the replies it gets. What all of them have in common can be read off the task
itself, branch by branch, which is the only way to say something about a worker that others interrupt.
-/

namespace Assay

namespace Task

variable {α β : Type} {asks : Effect → Prop} {given : (effect : Effect) → effect.Reply → Prop}

/-- As long as it is given such replies, the task only asks for such effects and only yields such values. -/
def Along (asks : Effect → Prop) (given : (effect : Effect) → effect.Reply → Prop)
    (yields : α → Prop) : Task α → Prop
  | done value => yields value
  | perform effect next =>
    asks effect ∧ ∀ reply, given effect reply → (next reply).Along asks given yields

theorem along_bind {yields : α → Prop} {after : β → Prop} {task : Task α} {next : α → Task β}
    (htask : task.Along asks given yields)
    (hnext : ∀ value, yields value → (next value).Along asks given after) :
    (task.bind next).Along asks given after := by
  induction task with
  | done value => exact hnext value htask
  | perform effect rest ih =>
      obtain ⟨hasks, hrest⟩ := htask
      exact ⟨hasks, fun reply hgiven => ih reply (hrest reply hgiven)⟩

theorem Along.mono {yields weaker : α → Prop} {task : Task α} (h : task.Along asks given yields)
    (hyields : ∀ value, yields value → weaker value) : task.Along asks given weaker := by
  induction task with
  | done value => exact hyields value h
  | perform effect rest ih => exact ⟨h.1, fun reply hgiven => ih reply (h.2 reply hgiven)⟩

theorem along_ask {effect : Effect} (h : asks effect) :
    (ask effect).Along asks given (given effect) :=
  ⟨h, fun _ hgiven => hgiven⟩

/-- Nothing is said of a task by this. -/
theorem along_trivially (task : Task α) : task.Along (fun _ => True) given (fun _ => True) := by
  induction task with
  | done value => trivial
  | perform effect rest ih => exact ⟨trivial, fun reply _ => ih reply⟩

/-- What every effect keeps is kept all the while a task is run alone. -/
theorem Along.moments {ρ : Type} {runner : Runner ρ} {keeps : World ρ → Prop} {yields : α → Prop}
    {task : Task α} {world : World ρ} (h : task.Along asks given yields)
    (hgiven : ∀ effect reply, given effect reply)
    (hstep : ∀ effect world, asks effect → keeps world → keeps (effect.perform runner world).2)
    (hworld : keeps world) :
    ∀ moment ∈ task.moments runner world, asks moment.effect ∧ keeps moment.world := by
  induction task generalizing world with
  | done value => exact fun _ hmoment => nomatch hmoment
  | perform effect rest ih =>
      obtain ⟨hasks, hrest⟩ := h
      have hafter := hstep effect world hasks hworld
      intro moment hmoment
      rw [Task.moments] at hmoment
      rcases List.mem_cons.mp hmoment with rfl | hlater
      · exact ⟨hasks, hworld⟩
      rcases hperform : effect.perform runner world with ⟨panic | reply, after⟩ <;>
        rw [hperform] at hafter hlater
      · cases hlater
      · exact ih reply (hrest reply (hgiven effect reply)) hafter moment hlater

end Task

end Assay
