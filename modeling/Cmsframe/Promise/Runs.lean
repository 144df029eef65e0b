import Cmsframe.Promise.Settling
import Mathlib.Logic.Relation

/-!
# Runs of programs with promises

A run starts without promises, and any actions follow one another. The results are about all
runs: about calls that are made while others are open, about thenables that settle late or
never, and about jobs that are run from inside other jobs.
-/

namespace Cmsframe

namespace PromiseMachine

variable (capabilities : EcmaObject → PromiseCapability) (callable : EcmaObject → Bool)

/-- An action that takes place. -/
def Step (machine after : PromiseMachine) : Prop :=
  ∃ action, machine.Enabled action ∧ machine.perform capabilities callable action = .ok after

/-- No promises, no jobs and no open calls. -/
def start : PromiseMachine where
  promises _ := none
  resolvers _ := none
  queue := []
  registered := []
  history := []
  frames := []
  access _ := .resolvers
  started := []

theorem holds_start : start.Holds where
  views _ := ⟨rfl, rfl, rfl⟩
  resolvers _ _ isResolver := by cases isResolver
  executors _ mem := by cases mem
  queue := rfl

variable {capabilities callable} {machine after : PromiseMachine}

theorem Step.next (step : Step capabilities callable machine after) (holds : machine.Holds) :
    Next machine after := by
  rcases step with ⟨action, enabled, returns⟩
  rcases holds.perform capabilities callable enabled with ⟨result, again, next⟩
  cases returns.symm.trans again
  exact next

/-- What a step preserves holds of a run. -/
theorem Next.run (holds : machine.Holds)
    (run : Relation.ReflTransGen (Step capabilities callable) machine after) :
    Next machine after := by
  induction run with
  | refl => exact holds.next_refl
  | tail _ step ih => exact ih.trans (step.next ih.holds)

/-- In every run no assertion of the promise operations fails, and a promise that is settled keeps
its state and its result for good. -/
theorem settled_once
    (run : Relation.ReflTransGen (Step capabilities callable) start machine) :
    (∀ action, machine.Enabled action →
      ∃ after, machine.perform capabilities callable action = .ok after) ∧
    ∀ after, Relation.ReflTransGen (Step capabilities callable) machine after →
      ∀ promise record, machine.promises promise = some record → record.isPending = false →
        ∃ later, after.promises promise = some later ∧ later.isPending = false ∧
          later.isFulfilled = record.isFulfilled ∧ later.result = record.result := by
  have holds := (Next.run holds_start run).holds
  refine ⟨fun action enabled => ?_, fun after later promise record isRecord isSettled => ?_⟩
  · rcases holds.perform capabilities callable enabled with ⟨after, returns, _⟩
    exact ⟨after, returns⟩
  · rcases (Next.run holds later).persists promise record isRecord with ⟨last, isLast, keeps⟩
    exact ⟨last, isLast, keeps isSettled⟩

/-- In every run each reaction asked for at a promise gets one job when the promise is settled,
with the handler for its state and with its result, in the order in which they were asked for,
and jobs are started in the order in which they were enqueued. -/
theorem reactions_delivered
    (run : Relation.ReflTransGen (Step capabilities callable) start machine) :
    (∀ promise record, machine.promises promise = some record →
      machine.delivered promise =
        if record.isPending then []
        else (machine.registeredAt promise).map
          (settledJob record.isFulfilled record.result)) ∧
      machine.history.map Prod.snd = machine.started ++ machine.queue := by
  have holds := (Next.run holds_start run).holds
  refine ⟨fun promise record isRecord => ?_, holds.queue⟩
  have recordHolds := holds.recordHolds isRecord
  split_ifs with isPending
  · exact (recordHolds.pending isPending).2
  · exact (recordHolds.settled (by simpa using isPending)).2

/-- A promise is created for an executor, an async function waits for it, its resolving function is
called, and the executor returns. -/
theorem resolved_run (capabilities : EcmaObject → PromiseCapability)
    (callable : EcmaObject → Bool) :
    ∃ machine, Relation.ReflTransGen (Step capabilities callable) start machine ∧
      (machine.promises ⟨1, none⟩).map PromiseObject.result = some (.integer 5) ∧
      machine.delivered ⟨1, none⟩ = [.asyncReaction ⟨4, none⟩ (.integer 5) false] := by
  have constructed : Relation.ReflTransGen (Step capabilities callable) start _ :=
    .tail .refl ⟨.construct ⟨1, none⟩ ⟨2, none⟩ ⟨3, none⟩, rfl, rfl⟩
  have awaited := constructed.tail ⟨.asyncThen ⟨1, none⟩ ⟨4, none⟩, Option.some_ne_none _, rfl⟩
  have resolved := awaited.tail ⟨.call ⟨2, none⟩ (.integer 5) (.simple .undefined), trivial, rfl⟩
  have returned :=
    resolved.tail ⟨.return (.ok (.simple .undefined)) (.simple .undefined), trivial, rfl⟩
  exact ⟨_, returned, rfl, rfl⟩

theorem settled_once_resolved : ∃ machine : PromiseMachine,
    (machine.promises ⟨1, none⟩).map PromiseObject.result = some (.integer 5) ∧
      ∀ action, machine.Enabled action → ∃ after,
        machine.perform (fun _ => ⟨⟨2, none⟩, ⟨3, none⟩⟩) (fun _ => true) action = .ok after := by
  rcases resolved_run (fun _ => ⟨⟨2, none⟩, ⟨3, none⟩⟩) fun _ => true with ⟨machine, run, result, _⟩
  exact ⟨machine, result, (settled_once run).1⟩

theorem reactions_delivered_resolved : ∃ machine : PromiseMachine,
    machine.delivered ⟨1, none⟩ = [.asyncReaction ⟨4, none⟩ (.integer 5) false] ∧
      machine.history.map Prod.snd = machine.started ++ machine.queue := by
  rcases resolved_run (fun _ => ⟨⟨2, none⟩, ⟨3, none⟩⟩) fun _ => true with ⟨machine, run, _, jobs⟩
  exact ⟨machine, jobs, (reactions_delivered run).2⟩

end PromiseMachine

end Cmsframe
