import Mathlib.Tactic.Common

/-!
# Programs with effects, worlds and faults

A native routine runs on a world that other code may change, and now and then
hands control to its environment: it performs an effect, the environment
answers with a reply and a changed world, and the routine goes on. It may also
stop for good at a fault. `Program` is the tree of everything such a routine
can do, before it is decided what the environment does.

Two readings of a program are developed. `Program.Ensures` quantifies over all
replies of the environment and is the logic in which invariants of a routine
are stated. `Program.interpret` runs the program against one environment, which
may itself produce output and fail, and yields an `Outcome`.
-/

namespace Interaction

universe u

/-- A routine's possible behaviours: it ends with a result, stops at a fault, or
performs an effect and continues with the environment's reply. -/
inductive Program (Fault Effect : Type u) (Reply : Effect → Type u) (World : Type u)
    (α : Type u) : Type u where
  | done (result : α) (world : World)
  | fault (reason : Fault)
  | perform (effect : Effect) (world : World)
      (resume : Reply effect → World → Program Fault Effect Reply World α)

namespace Program

variable {Fault Effect : Type u} {Reply : Effect → Type u} {World : Type u}
  {α β γ : Type u}

/-- Run one program and continue with its result in the world it leaves. -/
def bind (program : Program Fault Effect Reply World α)
    (next : α → World → Program Fault Effect Reply World β) :
    Program Fault Effect Reply World β :=
  match program with
  | .done result world => next result world
  | .fault reason => .fault reason
  | .perform effect world resume =>
      .perform effect world fun reply changed => (resume reply changed).bind next

@[simp]
theorem bind_done (result : α) (world : World)
    (next : α → World → Program Fault Effect Reply World β) :
    (done result world).bind next = next result world := rfl

@[simp]
theorem bind_fault (reason : Fault)
    (next : α → World → Program Fault Effect Reply World β) :
    (fault reason).bind next = fault reason := rfl

@[simp]
theorem bind_perform (effect : Effect) (world : World)
    (resume : Reply effect → World → Program Fault Effect Reply World α)
    (next : α → World → Program Fault Effect Reply World β) :
    (perform effect world resume).bind next =
      perform effect world fun reply changed => (resume reply changed).bind next := rfl

@[simp]
theorem bind_done_right (program : Program Fault Effect Reply World α) :
    program.bind done = program := by
  induction program with
  | done result world => rfl
  | fault reason => rfl
  | perform effect world resume ih => simp only [bind_perform, ih]

theorem bind_assoc (program : Program Fault Effect Reply World α)
    (first : α → World → Program Fault Effect Reply World β)
    (second : β → World → Program Fault Effect Reply World γ) :
    (program.bind first).bind second =
      program.bind fun result world => (first result world).bind second := by
  induction program with
  | done result world => rfl
  | fault reason => rfl
  | perform effect world resume ih => simp only [bind_perform, ih]

/-- Every behaviour of the program, whatever the environment replies, ends in a
result satisfying `post` or at a tolerated fault. -/
def Ensures (program : Program Fault Effect Reply World α) (tolerated : Fault → Prop)
    (post : α → World → Prop) : Prop :=
  match program with
  | .done result world => post result world
  | .fault reason => tolerated reason
  | .perform _ _ resume => ∀ reply changed, (resume reply changed).Ensures tolerated post

variable {tolerated : Fault → Prop}

@[simp]
theorem ensures_done {result : α} {world : World} {post : α → World → Prop} :
    (done result world : Program Fault Effect Reply World α).Ensures tolerated post ↔
      post result world := Iff.rfl

@[simp]
theorem ensures_fault {reason : Fault} {post : α → World → Prop} :
    (fault reason : Program Fault Effect Reply World α).Ensures tolerated post ↔
      tolerated reason := Iff.rfl

@[simp]
theorem ensures_perform {effect : Effect} {world : World}
    {resume : Reply effect → World → Program Fault Effect Reply World α}
    {post : α → World → Prop} :
    (perform effect world resume).Ensures tolerated post ↔
      ∀ reply changed, (resume reply changed).Ensures tolerated post := Iff.rfl

theorem Ensures.mono {program : Program Fault Effect Reply World α}
    {weaker stronger : α → World → Prop} (holds : program.Ensures tolerated stronger)
    (implies : ∀ result world, stronger result world → weaker result world) :
    program.Ensures tolerated weaker := by
  induction program with
  | done result world => exact implies result world holds
  | fault reason => exact holds
  | perform effect world resume ih =>
      intro reply changed
      exact ih reply changed (holds reply changed)

/-- The sequencing rule: what the first program ensures is what the second one
may assume. -/
theorem Ensures.bind {program : Program Fault Effect Reply World α}
    {next : α → World → Program Fault Effect Reply World β}
    {middle : α → World → Prop} {post : β → World → Prop}
    (first : program.Ensures tolerated middle)
    (second : ∀ result world, middle result world →
      (next result world).Ensures tolerated post) :
    (program.bind next).Ensures tolerated post := by
  induction program with
  | done result world => exact second result world first
  | fault reason => exact first
  | perform effect world resume ih =>
      intro reply changed
      exact ih reply changed (first reply changed)

theorem Ensures.and {program : Program Fault Effect Reply World α}
    {left right : α → World → Prop} (holdsLeft : program.Ensures tolerated left)
    (holdsRight : program.Ensures tolerated right) :
    program.Ensures tolerated fun result world => left result world ∧ right result world := by
  induction program with
  | done result world => exact ⟨holdsLeft, holdsRight⟩
  | fault reason => exact holdsLeft
  | perform effect world resume ih =>
      intro reply changed
      exact ih reply changed (holdsLeft reply changed) (holdsRight reply changed)

/-- Continuations that agree on all results the program can end in are
interchangeable. -/
theorem Ensures.bind_congr {program : Program Fault Effect Reply World α}
    {left right : α → World → Program Fault Effect Reply World β}
    {post : α → World → Prop} (ensured : program.Ensures tolerated post)
    (agree : ∀ result world, post result world → left result world = right result world) :
    program.bind left = program.bind right := by
  induction program with
  | done result world => exact agree result world ensured
  | fault reason => rfl
  | perform effect world resume ih =>
      simp only [bind_perform, perform.injEq, heq_eq_eq, true_and]
      funext reply changed
      exact ih reply changed (ensured reply changed)

/-- A program that cannot fault, seen as one that could. -/
def relax (program : Program PEmpty Effect Reply World α) :
    Program Fault Effect Reply World α :=
  match program with
  | .done result world => .done result world
  | .perform effect world resume =>
      .perform effect world fun reply changed => (resume reply changed).relax

theorem ensures_relax (program : Program PEmpty Effect Reply World α) :
    (program.relax : Program Fault Effect Reply World α).Ensures tolerated
      fun _ _ => True := by
  induction program with
  | done result world => trivial
  | fault reason => cases reason
  | perform effect world resume ih =>
      intro reply changed
      exact ih reply changed

/-- The program ends with a result that satisfies `post`, without performing any
effect. -/
def Settles (program : Program Fault Effect Reply World α)
    (post : α → World → Prop) : Prop :=
  match program with
  | .done result world => post result world
  | .fault _ | .perform .. => False

@[simp]
theorem settles_done {result : α} {world : World} {post : α → World → Prop} :
    (done result world : Program Fault Effect Reply World α).Settles post ↔
      post result world := Iff.rfl

theorem Settles.eq_done {program : Program Fault Effect Reply World α}
    {post : α → World → Prop} (settles : program.Settles post) :
    ∃ result world, program = .done result world ∧ post result world := by
  cases program with
  | done result world => exact ⟨result, world, rfl, settles⟩
  | fault reason => exact settles.elim
  | perform effect world resume => exact settles.elim

theorem Settles.ensures {program : Program Fault Effect Reply World α}
    {post : α → World → Prop} (settles : program.Settles post) :
    program.Ensures tolerated post := by
  rcases settles.eq_done with ⟨result, world, rfl, holds⟩
  exact holds

theorem Settles.mono {program : Program Fault Effect Reply World α}
    {weaker stronger : α → World → Prop} (settles : program.Settles stronger)
    (implies : ∀ result world, stronger result world → weaker result world) :
    program.Settles weaker := by
  rcases settles.eq_done with ⟨result, world, rfl, holds⟩
  exact implies result world holds

theorem Settles.bind {program : Program Fault Effect Reply World α}
    {next : α → World → Program Fault Effect Reply World β}
    {middle : α → World → Prop} {post : β → World → Prop}
    (first : program.Settles middle)
    (second : ∀ result world, middle result world → (next result world).Settles post) :
    (program.bind next).Settles post := by
  rcases first.eq_done with ⟨result, world, rfl, holds⟩
  exact second result world holds

end Program

/-- What running a program against an environment yields: the output produced on
the way, and the result unless a fault stopped the run. -/
@[ext]
structure Outcome (Token Fault α : Type u) where
  output : List Token
  result : Except Fault α
  deriving DecidableEq

namespace Outcome

variable {Token Fault : Type u} {α β γ : Type u}

/-- A run that produces no output. -/
def pure (result : α) : Outcome Token Fault α := ⟨[], .ok result⟩

/-- A run that stops at once. -/
def fail (reason : Fault) : Outcome Token Fault α := ⟨[], .error reason⟩

/-- Put output in front of that of a run. -/
def prepend (earlier : List Token) (outcome : Outcome Token Fault α) :
    Outcome Token Fault α :=
  ⟨earlier ++ outcome.output, outcome.result⟩

/-- Continue a run that has not been stopped; its output stays in front. -/
def bind (outcome : Outcome Token Fault α) (next : α → Outcome Token Fault β) :
    Outcome Token Fault β :=
  match outcome.result with
  | .ok result => (next result).prepend outcome.output
  | .error reason => ⟨outcome.output, .error reason⟩

@[simp]
theorem prepend_nil (outcome : Outcome Token Fault α) : outcome.prepend [] = outcome := rfl

@[simp]
theorem prepend_prepend (earlier middle : List Token) (outcome : Outcome Token Fault α) :
    (outcome.prepend middle).prepend earlier = outcome.prepend (earlier ++ middle) := by
  simp [prepend]

@[simp]
theorem output_prepend (earlier : List Token) (outcome : Outcome Token Fault α) :
    (outcome.prepend earlier).output = earlier ++ outcome.output := rfl

@[simp]
theorem result_prepend (earlier : List Token) (outcome : Outcome Token Fault α) :
    (outcome.prepend earlier).result = outcome.result := rfl

@[simp]
theorem output_pure (result : α) : (pure result : Outcome Token Fault α).output = [] := rfl

@[simp]
theorem result_pure (result : α) :
    (pure result : Outcome Token Fault α).result = .ok result := rfl

@[simp]
theorem output_fail (reason : Fault) : (fail reason : Outcome Token Fault α).output = [] := rfl

@[simp]
theorem result_fail (reason : Fault) :
    (fail reason : Outcome Token Fault α).result = .error reason := rfl

@[simp]
theorem bind_pure (result : α) (next : α → Outcome Token Fault β) :
    (pure result).bind next = next result := rfl

@[simp]
theorem bind_fail (reason : Fault) (next : α → Outcome Token Fault β) :
    (fail reason).bind next = fail reason := rfl

@[simp]
theorem bind_ok (earlier : List Token) (result : α) (next : α → Outcome Token Fault β) :
    (⟨earlier, .ok result⟩ : Outcome Token Fault α).bind next =
      (next result).prepend earlier := rfl

@[simp]
theorem bind_error (earlier : List Token) (reason : Fault)
    (next : α → Outcome Token Fault β) :
    (⟨earlier, .error reason⟩ : Outcome Token Fault α).bind next =
      ⟨earlier, .error reason⟩ := rfl

theorem prepend_bind (earlier : List Token) (outcome : Outcome Token Fault α)
    (next : α → Outcome Token Fault β) :
    (outcome.prepend earlier).bind next = (outcome.bind next).prepend earlier := by
  rcases outcome with ⟨output, _ | result⟩ <;> simp [prepend]

/-- The run ends in a result that satisfies `post`, or at a tolerated fault. -/
def Ends (outcome : Outcome Token Fault α) (tolerated : Fault → Prop) (post : α → Prop) :
    Prop :=
  match outcome.result with
  | .ok result => post result
  | .error reason => tolerated reason

@[simp]
theorem ends_prepend (earlier : List Token) (outcome : Outcome Token Fault α)
    (tolerated : Fault → Prop) (post : α → Prop) :
    (outcome.prepend earlier).Ends tolerated post ↔ outcome.Ends tolerated post := Iff.rfl

theorem Ends.of_ok {outcome : Outcome Token Fault α} {tolerated : Fault → Prop}
    {post : α → Prop} (ends : outcome.Ends tolerated post) {result : α}
    (isOk : outcome.result = .ok result) : post result := by
  rw [Ends, isOk] at ends
  exact ends

theorem Ends.of_error {outcome : Outcome Token Fault α} {tolerated : Fault → Prop}
    {post : α → Prop} (ends : outcome.Ends tolerated post) {reason : Fault}
    (isError : outcome.result = .error reason) : tolerated reason := by
  rw [Ends, isError] at ends
  exact ends

theorem bind_assoc (outcome : Outcome Token Fault α) (first : α → Outcome Token Fault β)
    (second : β → Outcome Token Fault γ) :
    (outcome.bind first).bind second =
      outcome.bind fun result => (first result).bind second := by
  rcases outcome with ⟨output, reason | result⟩
  · simp
  · simp only [bind_ok]
    exact prepend_bind output (first result) second

theorem result_bind (outcome : Outcome Token Fault α) (next : α → Outcome Token Fault β) :
    (outcome.bind next).result = outcome.result.bind fun result => (next result).result := by
  rcases outcome with ⟨output, reason | result⟩ <;> rfl

theorem bind_congr {outcome : Outcome Token Fault α} {left right : α → Outcome Token Fault β}
    (agree : ∀ result, outcome.result = .ok result → left result = right result) :
    outcome.bind left = outcome.bind right := by
  rcases outcome with ⟨output, reason | result⟩
  · simp
  · simp only [bind_ok, agree result rfl]

end Outcome

namespace Program

variable {Fault Effect : Type u} {Reply : Effect → Type u} {World : Type u}
  {Token : Type u} {α β : Type u}

/-- An environment: what performing an effect in a world does. -/
abbrev Handler (Token Fault : Type u) (Effect : Type u) (Reply : Effect → Type u)
    (World : Type u) :=
  (effect : Effect) → World → Outcome Token Fault (Reply effect × World)

/-- Run the program against an environment. -/
def interpret (handler : Handler Token Fault Effect Reply World)
    (program : Program Fault Effect Reply World α) : Outcome Token Fault (α × World) :=
  match program with
  | .done result world => .pure (result, world)
  | .fault reason => .fail reason
  | .perform effect world resume =>
      (handler effect world).bind fun answer =>
        (resume answer.1 answer.2).interpret handler

@[simp]
theorem interpret_done (handler : Handler Token Fault Effect Reply World)
    (result : α) (world : World) :
    (done result world).interpret handler = .pure (result, world) := rfl

@[simp]
theorem interpret_fault (handler : Handler Token Fault Effect Reply World)
    (reason : Fault) :
    (fault reason : Program Fault Effect Reply World α).interpret handler =
      .fail reason := rfl

@[simp]
theorem interpret_perform (handler : Handler Token Fault Effect Reply World)
    (effect : Effect) (world : World)
    (resume : Reply effect → World → Program Fault Effect Reply World α) :
    (perform effect world resume).interpret handler =
      (handler effect world).bind fun answer =>
        (resume answer.1 answer.2).interpret handler := rfl

theorem interpret_bind (handler : Handler Token Fault Effect Reply World)
    (program : Program Fault Effect Reply World α)
    (next : α → World → Program Fault Effect Reply World β) :
    (program.bind next).interpret handler =
      (program.interpret handler).bind fun answer =>
        (next answer.1 answer.2).interpret handler := by
  induction program with
  | done result world => rfl
  | fault reason => rfl
  | perform effect world resume ih =>
      simp only [bind_perform, interpret_perform, ih, Outcome.bind_assoc]

/-- A property ensured for all replies holds of every run that ends. -/
theorem Ensures.of_interpret {program : Program Fault Effect Reply World α}
    {tolerated : Fault → Prop} {post : α → World → Prop}
    (ensured : program.Ensures tolerated post)
    {handler : Handler Token Fault Effect Reply World} {answer : α × World}
    (ended : (program.interpret handler).result = .ok answer) : post answer.1 answer.2 := by
  induction program with
  | done result world =>
      rw [interpret_done, Outcome.result_pure, Except.ok.injEq] at ended
      subst ended
      exact ensured
  | fault reason => cases ended
  | perform effect world resume ih =>
      rw [interpret_perform] at ended
      cases answered : handler effect world with
      | mk output result =>
          rw [answered] at ended
          cases result with
          | error reason => cases ended
          | ok reply => exact ih reply.1 reply.2 (ensured reply.1 reply.2) ended

/-- A property ensured for all replies holds of every run in which the
environment itself does not fault. -/
theorem Ensures.interpret {program : Program Fault Effect Reply World α}
    {tolerated : Fault → Prop} {post : α → World → Prop}
    (ensured : program.Ensures tolerated post)
    {handler : Handler Token Fault Effect Reply World}
    (answers : ∀ effect world reason, (handler effect world).result ≠ .error reason) :
    (program.interpret handler).Ends tolerated fun answer => post answer.1 answer.2 := by
  induction program with
  | done result world => exact ensured
  | fault reason => exact ensured
  | perform effect world resume ih =>
      rw [interpret_perform]
      cases answered : handler effect world with
      | mk output result =>
          cases result with
          | error reason => exact absurd (by rw [answered]) (answers effect world reason)
          | ok answer =>
              simp only [Outcome.bind_ok, Outcome.ends_prepend]
              exact ih answer.1 answer.2 (ensured answer.1 answer.2)

end Program

/-- A routine with local state: the state is private to it, while the world can be
changed by every effect it performs. -/
def Routine (Fault Effect : Type u) (Reply : Effect → Type u) (State World : Type u)
    (α : Type u) : Type u :=
  State → World → Program Fault Effect Reply World (α × State)

namespace Routine

variable {Fault Effect : Type u} {Reply : Effect → Type u} {State World : Type u}
  {α β : Type u}

/-- The behaviours of the routine from a state and a world. -/
def run (routine : Routine Fault Effect Reply State World α) (state : State)
    (world : World) : Program Fault Effect Reply World (α × State) :=
  routine state world

instance : Monad (Routine Fault Effect Reply State World) where
  pure result := fun state world => .done (result, state) world
  bind routine next := fun state world =>
    (routine.run state world).bind fun answer changed => (next answer.1).run answer.2 changed

@[ext]
theorem ext {left right : Routine Fault Effect Reply State World α}
    (agree : ∀ state world, left.run state world = right.run state world) :
    left = right := by
  funext state world
  exact agree state world

@[simp]
theorem run_pure (result : α) (state : State) (world : World) :
    (pure result : Routine Fault Effect Reply State World α).run state world =
      .done (result, state) world := rfl

@[simp]
theorem run_bind (routine : Routine Fault Effect Reply State World α)
    (next : α → Routine Fault Effect Reply State World β) (state : State) (world : World) :
    (routine >>= next).run state world =
      (routine.run state world).bind fun answer changed =>
        (next answer.1).run answer.2 changed := rfl

instance : LawfulMonad (Routine Fault Effect Reply State World) :=
  LawfulMonad.mk' _
    (fun routine => by
      ext state world
      exact Program.bind_done_right _)
    (fun result next => rfl)
    (fun routine first second => by
      ext state world
      exact Program.bind_assoc _ _ _)

@[simp]
theorem run_map (change : α → β) (routine : Routine Fault Effect Reply State World α)
    (state : State) (world : World) :
    (change <$> routine).run state world =
      (routine.run state world).bind fun answer changed =>
        .done (change answer.1, answer.2) changed := by
  rw [map_eq_pure_bind]
  rfl

/-- Read the local state. -/
def get : Routine Fault Effect Reply State World State := fun state world =>
  .done (state, state) world

/-- Replace the local state. -/
def set (changed : State) : Routine Fault Effect Reply State World PUnit := fun _ world =>
  .done (⟨⟩, changed) world

/-- Stop at a fault. -/
def fail (reason : Fault) : Routine Fault Effect Reply State World α := fun _ _ =>
  .fault reason

/-- Perform an effect and return the environment's reply. -/
def perform (effect : Effect) : Routine Fault Effect Reply State World (Reply effect) :=
  fun state world => .perform effect world fun reply changed => .done (reply, state) changed

@[simp]
theorem run_get (state : State) (world : World) :
    (get : Routine Fault Effect Reply State World State).run state world =
      .done (state, state) world := rfl

@[simp]
theorem run_set (changed state : State) (world : World) :
    (set changed : Routine Fault Effect Reply State World PUnit).run state world =
      .done (⟨⟩, changed) world := rfl

@[simp]
theorem run_fail (reason : Fault) (state : State) (world : World) :
    (fail reason : Routine Fault Effect Reply State World α).run state world =
      .fault reason := rfl

@[simp]
theorem run_perform (effect : Effect) (state : State) (world : World) :
    (perform effect : Routine Fault Effect Reply State World (Reply effect)).run state world =
      .perform effect world fun reply changed => .done (reply, state) changed := rfl

variable {Token : Type u}

/-- Run the routine against an environment. -/
def observe (handler : Program.Handler Token Fault Effect Reply World)
    (routine : Routine Fault Effect Reply State World α) (state : State) (world : World) :
    Outcome Token Fault ((α × State) × World) :=
  (routine.run state world).interpret handler

variable (handler : Program.Handler Token Fault Effect Reply World)

@[simp]
theorem observe_pure (result : α) (state : State) (world : World) :
    (pure result : Routine Fault Effect Reply State World α).observe handler state world =
      .pure ((result, state), world) := rfl

@[simp]
theorem observe_fail (reason : Fault) (state : State) (world : World) :
    (fail reason : Routine Fault Effect Reply State World α).observe handler state world =
      .fail reason := rfl

@[simp]
theorem observe_bind (routine : Routine Fault Effect Reply State World α)
    (next : α → Routine Fault Effect Reply State World β) (state : State) (world : World) :
    (routine >>= next).observe handler state world =
      (routine.observe handler state world).bind fun answer =>
        (next answer.1.1).observe handler answer.1.2 answer.2 :=
  Program.interpret_bind handler _ _

end Routine

end Interaction
