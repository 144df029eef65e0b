import Cmsframe.Library.Program

/-!
# Recorded runs

An environment that answers every effect is a function, and a run against it can be
recorded: the trace is the list of the performed effects with their replies.
`Routine.Traces` states what holds of the trace of every run, whatever the environment
answers, and is proved by following the routine.
-/

namespace Interaction

universe u

variable {Fault Effect : Type u} {Reply : Effect → Type u} {State World : Type u}
  {α β : Type u}

/-- An environment that answers every effect. -/
abbrev Behaviour (Effect : Type u) (Reply : Effect → Type u) (World : Type u) :=
  (effect : Effect) → World → Reply effect × World

/-- An effect with its reply. -/
abbrev Recorded (Effect : Type u) (Reply : Effect → Type u) := (effect : Effect) × Reply effect

/-- The environment, with a record of every effect as output. -/
def Behaviour.recorder (behaviour : Behaviour Effect Reply World) :
    Program.Handler (Recorded Effect Reply) Fault Effect Reply World := fun effect world =>
  ⟨[⟨effect, (behaviour effect world).1⟩], .ok (behaviour effect world)⟩

namespace Routine

/-- Every recorded run of the routine from a state ends with a trace, a result and a state
that satisfy `post`, or is stopped with a trace so far that satisfies `stopped`. -/
def Traces (routine : Routine Fault Effect Reply State World α) (state : State)
    (post : List (Recorded Effect Reply) → α → State → Prop)
    (stopped : List (Recorded Effect Reply) → Prop) : Prop :=
  ∀ (behaviour : Behaviour Effect Reply World) (world : World),
    match (routine.observe behaviour.recorder state world).result with
    | .ok answer =>
        post (routine.observe behaviour.recorder state world).output answer.1.1 answer.1.2
    | .error _ => stopped (routine.observe behaviour.recorder state world).output

variable {state : State} {post : List (Recorded Effect Reply) → α → State → Prop}
  {stopped : List (Recorded Effect Reply) → Prop}

theorem traces_pure {result : α} (holds : post [] result state) :
    (pure result : Routine Fault Effect Reply State World α).Traces state post stopped :=
  fun _ _ => holds

theorem traces_fail {reason : Fault} (holds : stopped []) :
    (fail reason : Routine Fault Effect Reply State World α).Traces state post stopped :=
  fun _ _ => holds

theorem traces_set {changed : State}
    {post : List (Recorded Effect Reply) → PUnit → State → Prop} (holds : post [] ⟨⟩ changed) :
    (set changed : Routine Fault Effect Reply State World PUnit).Traces state post stopped :=
  fun _ _ => holds

theorem traces_perform {effect : Effect}
    {post : List (Recorded Effect Reply) → Reply effect → State → Prop}
    (holds : ∀ reply, post [⟨effect, reply⟩] reply state) :
    (perform effect : Routine Fault Effect Reply State World (Reply effect)).Traces state post
      stopped :=
  fun behaviour world => holds (behaviour effect world).1

theorem Traces.mono {routine : Routine Fault Effect Reply State World α}
    {weaker : List (Recorded Effect Reply) → α → State → Prop}
    {weakerStopped : List (Recorded Effect Reply) → Prop}
    (traces : routine.Traces state post stopped)
    (implies : ∀ trace result state, post trace result state → weaker trace result state)
    (impliesStopped : ∀ trace, stopped trace → weakerStopped trace) :
    routine.Traces state weaker weakerStopped := by
  intro behaviour world
  have holds := traces behaviour world
  cases ended : (routine.observe behaviour.recorder state world).result with
  | ok answer =>
      rw [ended] at holds
      exact implies _ _ _ holds
  | error reason =>
      rw [ended] at holds
      exact impliesStopped _ holds

theorem Traces.and {routine : Routine Fault Effect Reply State World α}
    {other : List (Recorded Effect Reply) → α → State → Prop}
    (first : routine.Traces state post stopped) (second : routine.Traces state other stopped) :
    routine.Traces state (fun trace result state => post trace result state ∧
      other trace result state) stopped := by
  intro behaviour world
  have holds := first behaviour world
  have also := second behaviour world
  cases ended : (routine.observe behaviour.recorder state world).result with
  | ok answer =>
      rw [ended] at holds also
      exact ⟨holds, also⟩
  | error reason =>
      rw [ended] at holds
      exact holds

/-- The trace of a sequence is that of its first part followed by that of the second. -/
theorem Traces.bind {routine : Routine Fault Effect Reply State World α}
    {next : α → Routine Fault Effect Reply State World β}
    {middle : List (Recorded Effect Reply) → α → State → Prop}
    {post : List (Recorded Effect Reply) → β → State → Prop}
    (first : routine.Traces state middle stopped)
    (second : ∀ trace result changed, middle trace result changed →
      (next result).Traces changed (fun more => post (trace ++ more))
        fun more => stopped (trace ++ more)) :
    (routine >>= next).Traces state post stopped := by
  intro behaviour world
  have holds := first behaviour world
  rw [observe_bind]
  rcases observed : routine.observe behaviour.recorder state world with ⟨trace, reason | answer⟩
  · rw [observed] at holds
    exact holds
  · rw [observed] at holds
    simp only [Outcome.bind_ok, Outcome.result_prepend, Outcome.output_prepend]
    exact second trace answer.1.1 answer.1.2 holds behaviour answer.2

variable {post : List (Recorded Effect Reply) → β → State → Prop}

theorem traces_get_bind {next : State → Routine Fault Effect Reply State World β}
    (holds : (next state).Traces state post stopped) :
    ((get : Routine Fault Effect Reply State World State) >>= next).Traces state post stopped :=
  holds

theorem traces_set_bind {changed : State}
    {next : PUnit → Routine Fault Effect Reply State World β}
    (holds : (next ⟨⟩).Traces changed post stopped) :
    ((set changed : Routine Fault Effect Reply State World PUnit) >>= next).Traces state post
      stopped :=
  holds

theorem traces_perform_bind {effect : Effect}
    {next : Reply effect → Routine Fault Effect Reply State World β}
    (holds : ∀ reply, (next reply).Traces state (fun more => post (⟨effect, reply⟩ :: more))
      fun more => stopped (⟨effect, reply⟩ :: more)) :
    ((perform effect : Routine Fault Effect Reply State World (Reply effect)) >>= next).Traces
      state post stopped := by
  have first : (perform effect : Routine Fault Effect Reply State World (Reply effect)).Traces
      state (fun trace reply changed => trace = [⟨effect, reply⟩] ∧ changed = state) stopped :=
    traces_perform fun _ => ⟨rfl, rfl⟩
  apply first.bind
  rintro _ reply _ ⟨rfl, rfl⟩
  exact holds reply

end Routine

end Interaction
