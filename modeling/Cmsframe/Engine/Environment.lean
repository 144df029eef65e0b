import Cmsframe.Engine.Context

/-!
# Environments of a native call

What a native call asks for while it runs is answered by an environment. Writing to
standard output has one meaning, so an environment is given by what a nested call of
`pp` does. Tokens are what an observer sees: buffers, or records of whole calls.
-/

namespace Cmsframe

open Interaction

variable {Script Token α : Type}

/-- What a call of `pp` from user code does: its output, the throw or value the script
sees, and the world it leaves. -/
abbrev NestedCall (Script Token : Type) :=
  List ScriptValue → World Script → Outcome Token Fault (Except Thrown ScriptValue × World Script)

/-- The environment of a native call. -/
def environment (emit : List UInt8 → Token) (nested : NestedCall Script Token) :
    Program.Handler Token Fault Effect Effect.Reply (World Script)
  | .print buffer, world => ⟨[emit buffer], .ok ((), world)⟩
  | .pp arguments, world => nested arguments world

/-- Nested calls that always come back. -/
abbrev Answers (Script Token : Type) :=
  List ScriptValue → World Script → List Token × (Except Thrown ScriptValue × World Script)

/-- Nested calls that always come back, as nested calls that could fault. -/
def Answers.nested (answers : Answers Script Token) : NestedCall Script Token :=
  fun arguments world => ⟨(answers arguments world).1, .ok (answers arguments world).2⟩

/-- An environment in which no nested call faults. -/
abbrev answering (answers : Answers Script (List UInt8)) :
    Program.Handler (List UInt8) Fault Effect Effect.Reply (World Script) :=
  environment id answers.nested

theorem answering_ne_error (answers : Answers Script (List UInt8)) (effect : Effect)
    (world : World Script) (reason : Fault) :
    (answering answers effect world).result ≠ .error reason := by
  cases effect <;> exact nofun

/-- What a call ensures for all replies, it ensures in an environment whose nested calls
come back. -/
theorem ensured_of_observe {native : Native Script α} {frame : Frame} {world : World Script}
    {tolerated : Fault → Prop} {post : α × Frame → World Script → Prop}
    (ensured : (native.run frame world).Ensures tolerated post)
    (answers : Answers Script (List UInt8)) :
    (native.observe (answering answers) frame world).Ends tolerated
      fun answer => post answer.1 answer.2 :=
  ensured.interpret (answering_ne_error answers)

namespace Native

/-- How a call returns that starts with nothing pending and nothing owned. -/
def returned (native : Native Script α) (answers : Answers Script (List UInt8))
    (lent : Multiset Pointer) (world : World Script) :
    Except Fault ((α × Frame) × World Script) :=
  (native.observe (answering answers) (Frame.initial lent) world).result

variable (emit : List UInt8 → Token) (nested : NestedCall Script Token)
variable (frame : Frame) (world : World Script)

@[simp]
theorem observe_jerryPortPrintBuffer (buffer : List UInt8) :
    (jerryPortPrintBuffer buffer : Native Script Unit).observe (environment emit nested)
      frame world = ⟨[emit buffer], .ok (((), frame), world)⟩ := rfl

theorem observe_of_run_done {native : Native Script α} {result : α} {after : Frame}
    {changed : World Script} (ran : native.run frame world = .done (result, after) changed) :
    native.observe (environment emit nested) frame world = .pure ((result, after), changed) := by
  simp [Routine.observe, ran]

end Native

end Cmsframe
