import Cmsframe.Library.Program

/-!
# Runs that unfold to bytes

An observer can record a run at two levels: as the chunks of bytes that were written, or
as a list of events, each of which stands for some bytes. `Outcome.Unfolds` relates a
concrete run to an abstract one. It also allows for events that the concrete program
does not survive: after such an event it has stopped at a fixed fault, and nothing is
said about what it had written by then.
-/

namespace Interaction

universe u

namespace Outcome

variable {Byte Event Fault : Type u} {α β : Type u}
variable (survived : Event → Prop) (text : Event → List Byte) (stop : Fault)

/-- The concrete run writes what the events of the abstract run stand for and ends in the same
way, or it is stopped because one of the events is not survived. -/
def Unfolds (concrete : Outcome (List Byte) Fault α) (abstract : Outcome Event Fault α) : Prop :=
  ∀ answer, abstract.result = .ok answer →
    ((∀ event ∈ abstract.output, survived event) →
      concrete.result = .ok answer ∧ concrete.output.flatten = abstract.output.flatMap text) ∧
    ((∃ event ∈ abstract.output, ¬survived event) → concrete.result = .error stop)

variable {survived text stop}

theorem unfolds_pure (answer : α) :
    Unfolds survived text stop (pure answer) (pure answer : Outcome Event Fault α) := by
  rintro _ ⟨rfl⟩
  refine ⟨fun _ => ⟨rfl, rfl⟩, ?_⟩
  rintro ⟨event, mem, _⟩
  cases mem

theorem unfolds_fail (concrete : Outcome (List Byte) Fault α) (reason : Fault) :
    Unfolds survived text stop concrete (fail reason : Outcome Event Fault α) := by
  intro answer isOk
  cases isOk

theorem Unfolds.bind {concrete : Outcome (List Byte) Fault α} {abstract : Outcome Event Fault α}
    {next : α → Outcome (List Byte) Fault β} {abstractNext : α → Outcome Event Fault β}
    (first : Unfolds survived text stop concrete abstract)
    (second : ∀ answer, Unfolds survived text stop (next answer) (abstractNext answer)) :
    Unfolds survived text stop (concrete.bind next) (abstract.bind abstractNext) := by
  rcases abstract with ⟨events, reason | middle⟩
  · exact fun answer isOk => by cases isOk
  · rcases first middle rfl with ⟨survives, stops⟩
    intro answer isOk
    rw [bind_ok, result_prepend] at isOk
    rcases second middle answer isOk with ⟨survivesRest, stopsRest⟩
    simp only [bind_ok, output_prepend, List.mem_append]
    constructor
    · intro allSurvived
      rcases survives fun event mem => allSurvived event (.inl mem) with ⟨result, written⟩
      rcases survivesRest fun event mem => allSurvived event (.inr mem) with ⟨rest, writtenRest⟩
      rcases concrete with ⟨output, _⟩
      simp only at result written
      subst result
      simp [rest, written, writtenRest]
    · rintro ⟨event, mem, notSurvived⟩
      by_cases before : ∃ event ∈ events, ¬survived event
      · rw [result_bind, stops before]
        rfl
      · push Not at before
        rcases survives before with ⟨result, _⟩
        rcases mem with inFirst | inRest
        · exact absurd (before event inFirst) notSurvived
        · rw [result_bind, result]
          exact stopsRest ⟨event, inRest, notSurvived⟩

end Outcome

namespace Program

variable {Fault Effect : Type u} {Reply : Effect → Type u} {World : Type u}
  {Byte Event : Type u} {α : Type u}
variable {survived : Event → Prop} {text : Event → List Byte} {stop : Fault}

/-- If the environments agree effect by effect, so do the runs of every program. -/
theorem interpret_unfolds {concrete : Handler (List Byte) Fault Effect Reply World}
    {abstract : Handler Event Fault Effect Reply World}
    (agree : ∀ effect world,
      Outcome.Unfolds survived text stop (concrete effect world) (abstract effect world))
    (program : Program Fault Effect Reply World α) :
    Outcome.Unfolds survived text stop (program.interpret concrete)
      (program.interpret abstract) := by
  induction program with
  | done result world => exact Outcome.unfolds_pure _
  | fault reason => exact Outcome.unfolds_fail _ reason
  | perform effect world resume ih =>
      apply (agree effect world).bind
      intro answer
      exact ih answer.1 answer.2

end Program

end Interaction
