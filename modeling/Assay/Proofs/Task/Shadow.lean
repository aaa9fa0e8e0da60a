import Assay.Proofs.Files.Footprint
import Assay.Proofs.Task.Course

/-!
# A task and its shadow

A task that shares its files with others is compared with the same task where it is alone. The two never meet,
and the files they see have less and less in common, except for the part that the task works in and the part
that nobody changes. As long as the task asks for nothing beyond these, it cannot tell which of the two it is.
-/

namespace Assay

variable {α ρ : Type}

/-- The command changes its own region only, and what it does there follows from that region and from what is
shared. -/
structure Runner.Keeps (runner : Runner ρ) (own shared : Region) (call : Call) : Prop where
  confined : ∀ (files : Files) (memory : ρ),
    files.SameOn own.outside (runner call files memory).2.1
  determined : ∀ (files other : Files) (memory memory' : ρ), files.SameOn (own.union shared) other →
    (runner call files memory).1 = (runner call other memory').1 ∧
      (runner call files memory).2.1.SameOn (own.union shared) (runner call other memory').2.1

theorem Runner.Keeps.of_idle {runner : Runner ρ} {own shared : Region} {call : Call} {ending : Ending}
    (h : ∀ files memory, runner call files memory = (.ok ending, files, memory)) :
    runner.Keeps own shared call := by
  refine ⟨fun files memory => ?_, fun files other memory memory' hsame => ?_⟩
  · rw [h]
    exact .refl _ _
  · rw [h, h]
    exact ⟨rfl, hsame⟩

theorem Runner.Keeps.of_eq {runner other : Runner ρ} {own shared : Region} {call : Call}
    (hkeeps : runner.Keeps own shared call)
    (h : ∀ files memory, other call files memory = runner call files memory) :
    other.Keeps own shared call := by
  refine ⟨fun files memory => ?_, fun files files' memory memory' hsame => ?_⟩
  · rw [h]
    exact hkeeps.confined files memory
  · rw [h, h]
    exact hkeeps.determined files files' memory memory' hsame

namespace Effect

/-- What is done without running a command looks at nothing else, and makes nothing anywhere else. -/
def StaysWithin (own shared : Region) (files : Files) : Effect → Prop
  | ensureDirectory path =>
    (∀ read ∈ files.ensureDirectoryReads files.directory path, own.union shared read = true) ∧
      files.SameOn own.outside (files.ensureDirectory files.directory path).2
  | listFiles path => files.ListsWithin (own.union shared) files.directory path
  | openStream _ => False
  | _ => True

variable {runner : Runner ρ} {own shared : Region} {effect : Effect} {alone among : World ρ}

theorem perform_alike (hkeeps : ∀ call, effect = .run call → runner.Keeps own shared call)
    (hstays : effect.StaysWithin own shared alone.files)
    (h : alone.files.SameOn (own.union shared) among.files) :
    (effect.perform runner alone).1 = (effect.perform runner among).1 ∧
      (effect.perform runner alone).2.files.SameOn (own.union shared)
        (effect.perform runner among).2.files := by
  cases effect with
  | run call => exact (hkeeps call rfl).determined _ _ _ _ h
  | ensureDirectory path =>
      have halike := h.ensureDirectory hstays.1
      simp only [perform]
      rw [← h.directory]
      exact ⟨congrArg Except.ok halike.result, halike.sameOn h⟩
  | listFiles path =>
      have hlist := h.listFiles hstays
      simp only [perform]
      rw [← h.directory]
      exact ⟨congrArg Except.ok hlist, h⟩
  | openStream path => exact hstays.elim
  | note event => exact ⟨rfl, h⟩

theorem perform_confined (hkeeps : ∀ call, effect = .run call → runner.Keeps own shared call)
    (hstays : effect.StaysWithin own shared alone.files)
    (h : alone.files.SameOn (own.union shared) among.files) :
    among.files.SameOn own.outside (effect.perform runner among).2.files := by
  cases effect with
  | run call => exact (hkeeps call rfl).confined _ _
  | ensureDirectory path =>
      have halike := h.ensureDirectory hstays.1
      simp only [perform]
      rw [← h.directory]
      exact halike.confined hstays.2
  | listFiles path => exact .refl _ _
  | openStream path => exact hstays.elim
  | note event => exact .refl _ _

end Effect

namespace Task

/-- There are files that look the same to the task, from which it comes to this result where it is alone, and
stays within its bounds. -/
def Shadow (runner : Runner ρ) (own shared : Region) (result : Except Panic α) (files : Files)
    (task : Task α) : Prop :=
  ∃ alone : World ρ, alone.files.SameOn (own.union shared) files ∧
    (task.run runner alone).1 = result ∧
    ∀ moment ∈ task.moments runner alone, moment.effect.StaysWithin own shared moment.world.files

variable {runner : Runner ρ} {own shared : Region} {result : Except Panic α}

theorem Shadow.of_sameOn {files other : Files} {task : Task α}
    (h : task.Shadow runner own shared result files) (hsame : files.SameOn (own.union shared) other) :
    task.Shadow runner own shared result other := by
  obtain ⟨alone, halone, hrun, hstays⟩ := h
  exact ⟨alone, halone.trans hsame, hrun, hstays⟩

theorem Shadow.done {files : Files} {value : α}
    (h : (Task.done value).Shadow runner own shared result files) : result = .ok value := by
  obtain ⟨alone, _, hrun, _⟩ := h
  exact hrun.symm

/-- One effect, among others: it changes nothing outside, and the shadow follows. -/
theorem Shadow.perform {effect : Effect} {rest : effect.Reply → Task α} {world : World ρ}
    (h : (Task.perform effect rest).Shadow runner own shared result world.files)
    (hkeeps : ∀ call, effect = .run call → runner.Keeps own shared call) :
    world.files.SameOn own.outside (effect.perform runner world).2.files ∧
      (∀ reply, (effect.perform runner world).1 = .ok reply →
        (rest reply).Shadow runner own shared result (effect.perform runner world).2.files) ∧
      ∀ panic, (effect.perform runner world).1 = .error panic → result = .error panic := by
  obtain ⟨alone, halone, hrun, hstays⟩ := h
  rw [moments] at hstays
  have hfirst : effect.StaysWithin own shared alone.files :=
    hstays ⟨effect, alone⟩ (List.mem_cons_self ..)
  obtain ⟨hreply, hsame⟩ := Effect.perform_alike hkeeps hfirst halone
  refine ⟨Effect.perform_confined hkeeps hfirst halone, ?_, ?_⟩
  · intro reply hok
    rw [← hreply] at hok
    rcases hperform : effect.perform runner alone with ⟨answer, after⟩
    rw [hperform] at hok hsame
    obtain rfl : answer = .ok reply := hok
    rw [Task.run, hperform] at hrun
    rw [hperform] at hstays
    exact ⟨after, hsame, hrun, fun moment hmoment => hstays moment (List.mem_cons_of_mem _ hmoment)⟩
  · intro panic herror
    rw [← hreply] at herror
    rcases hperform : effect.perform runner alone with ⟨answer, after⟩
    rw [hperform] at herror
    obtain rfl : answer = .error panic := herror
    rw [Task.run, hperform] at hrun
    exact hrun.symm

/-- Where a task is, and with which files, does not depend on what was noted before. -/
theorem moments_sameState {left right : World ρ} (h : left.SameState right) (task : Task α) :
    (task.moments runner left).map (fun moment => (moment.effect, moment.world.files)) =
      (task.moments runner right).map fun moment => (moment.effect, moment.world.files) := by
  induction task generalizing left right with
  | done value => rfl
  | perform effect rest ih =>
      obtain ⟨hreply, hstate⟩ := Effect.perform_sameState runner h effect
      simp only [moments, List.map_cons, h.files]
      rcases hleft : effect.perform runner left with ⟨panic | reply, left'⟩ <;>
        rcases hright : effect.perform runner right with ⟨panic' | reply', right'⟩ <;>
        rw [hleft, hright] at hreply hstate <;> cases hreply
      exact congrArg _ (ih reply hstate)

end Task

end Assay
