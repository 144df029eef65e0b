import Cmsframe.Engine.Value
import Cmsframe.Library.Program

/-!
# Native routines and the engine context

A native function of the engine runs on two kinds of state. Its `Frame` is its
own: the exception pending in the context while it runs, and the references it
owns. The `World` is everything scripts can change, together with the heap
allocator; it is handed over to user code whenever user code runs.

The count of a heap cell is what the callers hold on it plus what each running
native function holds on it. `Frame.held` is the second part for one call, as a
multiset of addresses; `Frame.lent` lists the references that the caller keeps for
the duration of the call. Releasing a reference that is not held, or using a cell
that nobody is known to hold, is a fault, as is a failing `JERRY_ASSERT`: all of
them stop the process.
-/

namespace Cmsframe

open Interaction

/-- What stops the process, or the model's account of the native stack. -/
inductive Fault where
  | assertion
  | outOfBounds
  | ownership
  | outOfFuel
  deriving DecidableEq

/-- What a running function can ask of its environment: user code calls `pp` with
some arguments, and everything written to standard output goes through
`jerry_port_print_buffer`. -/
inductive Effect where
  | pp (arguments : List ScriptValue)
  | print (buffer : List UInt8)

/-- What comes back: a script sees a returned exception reference as a throw. -/
def Effect.Reply : Effect → Type
  | .pp _ => Except Thrown ScriptValue
  | .print _ => Unit

/-- The state user code works on: the script-visible heap, and the address the
allocator gives out next. -/
structure World (Script : Type) where
  script : Script
  next : Pointer
  deriving DecidableEq

/-- User code: it ends with a value or a throw, and cannot fault by itself. -/
abbrev UserCode (Script α : Type) :=
  World Script → Program PEmpty Effect Effect.Reply (World Script) (Except Thrown α)

/-- The context and the references of one native call. -/
structure Frame where
  pending : Option Thrown
  held : Multiset Pointer
  lent : Multiset Pointer
  deriving DecidableEq

/-- The frame in which a function is called with no exception pending. -/
abbrev Frame.initial (lent : Multiset Pointer) : Frame := ⟨none, 0, lent⟩

/-- The cell will not go away while the call uses it. -/
def Frame.Alive (frame : Frame) (references : Multiset Pointer) : Prop :=
  ∀ address ∈ references, address ∈ frame.held ∨ address ∈ frame.lent

/-- Each of several items is among all of them. -/
theorem le_sum_map {Item : Type} (references : Item → Multiset Pointer) {items : List Item}
    {item : Item} (mem : item ∈ items) : references item ≤ (items.map references).sum := by
  induction items with
  | nil => cases mem
  | cons first items ih =>
      rw [List.map_cons, List.sum_cons]
      rcases List.mem_cons.mp mem with rfl | inRest
      · exact Multiset.le_add_right _ _
      · exact (ih inRest).trans (Multiset.le_add_left _ _)

instance (frame : Frame) (references : Multiset Pointer) :
    Decidable (frame.Alive references) :=
  inferInstanceAs (Decidable (∀ address ∈ references, _))

/-- A native function of the engine. -/
abbrev Native (Script α : Type) :=
  Routine Fault Effect Effect.Reply Frame (World Script) α

namespace Native

variable {Script α : Type}

/-- `JERRY_ASSERT`, enabled in this build. -/
def jerryAssert (condition : Bool) : Native Script Unit :=
  if condition then pure () else Routine.fail .assertion

/-- Become the owner of references. -/
def acquire (references : Multiset Pointer) : Native Script Unit := do
  let frame ← Routine.get
  Routine.set { frame with held := frame.held + references }

/-- Give references up: they are released, or handed over to another owner. -/
def release (references : Multiset Pointer) : Native Script Unit := do
  let frame ← Routine.get
  if references ≤ frame.held then
    Routine.set { frame with held := frame.held - references }
  else
    Routine.fail .ownership

/-- Work on cells that must be alive. -/
def touch (references : Multiset Pointer) : Native Script Unit := do
  let frame ← Routine.get
  if frame.Alive references then pure () else Routine.fail .ownership

/-- Allocate a cell and own the one reference to it. -/
def allocate : Native Script Pointer := fun frame world =>
  .done (world.next, { frame with held := frame.held + {world.next} })
    { world with next := world.next + 1 }

/-- Look at the world without changing it. -/
def readWorld : Native Script (World Script) := fun frame world => .done (world, frame) world

/-- `jcontext_raise_exception`: the reference of the value moves into the context. -/
def jcontextRaiseException (thrown : Thrown) : Native Script Unit := do
  let frame ← Routine.get
  jerryAssert frame.pending.isNone
  release thrown.thrown.value.references
  let frame ← Routine.get
  Routine.set { frame with pending := some thrown }

/-- `jcontext_take_exception`: the reference moves out of the context. -/
def jcontextTakeException : Native Script Thrown := do
  let frame ← Routine.get
  match frame.pending with
  | none => Routine.fail .assertion
  | some thrown =>
      Routine.set { frame with pending := none }
      acquire thrown.thrown.value.references
      pure thrown

/-- `ecma_new_standard_error`. -/
def ecmaNewStandardError (type : ErrorType) (message : ErrorMessage) :
    Native Script EcmaObject := do
  let address ← allocate
  pure ⟨address, some ⟨type, message⟩⟩

/-- `ecma_raise_standard_error`, behind `ecma_raise_type_error` and its siblings. -/
def ecmaRaiseStandardError (type : ErrorType) (message : ErrorMessage) :
    Native Script EcmaValue := do
  let object ← ecmaNewStandardError type message
  jcontextRaiseException ⟨.ofObject object, false⟩
  pure .error

/-- `ecma_create_exception`: the exception cell takes over the reference of the value. -/
def ecmaCreateException (value : EcmaValue) (abort : Bool) : Native Script EcmaValue := do
  release value.references
  let address ← allocate
  pure (.exception address value abort)

/-- `ecma_create_exception_from_context`. -/
def ecmaCreateExceptionFromContext : Native Script EcmaValue := do
  let thrown ← jcontextTakeException
  ecmaCreateException thrown.thrown.value thrown.abort

/-- `jerry_throw_sz`: an exception reference, with nothing pending in the context. -/
def jerryThrowSz (type : ErrorType) (message : ErrorMessage) : Native Script EcmaValue := do
  let object ← ecmaNewStandardError type message
  ecmaCreateException (.object object) false

/-- `ecma_copy_value`: a further reference to an existing value. -/
def ecmaCopyValue (value : EcmaValue) : Native Script EcmaValue := do
  touch value.references
  acquire value.references
  pure value

/-- `ecma_free_value`: the direct types need no release, and an exception reference is
none of the types the switch knows. -/
def ecmaFreeValue (value : EcmaValue) : Native Script Unit :=
  match value with
  | .exception .. => Routine.fail .assertion
  | _ => release value.references

/-- `ecma_deref_ecma_string`. -/
def ecmaDerefEcmaString (string : EcmaString) : Native Script Unit :=
  release string.references

/-- `ecma_deref_object`. -/
def ecmaDerefObject (object : EcmaObject) : Native Script Unit :=
  release {object.address}

/-- `jerry_value_free`: unlike `ecma_free_value` it accepts exception references. -/
def jerryValueFree (value : EcmaValue) : Native Script Unit :=
  release value.references

/-- Run user code; a throw becomes the pending exception. -/
def callUser (code : UserCode Script α) : Native Script (Option α) := do
  let outcome ← (fun frame world => ((code world).relax.bind fun outcome changed =>
    .done (outcome, frame) changed) : Native Script (Except Thrown α))
  match outcome with
  | .ok result => pure (some result)
  | .error thrown =>
      acquire thrown.thrown.value.references
      jcontextRaiseException thrown
      pure none

/-- User code that yields a value: its reference is owned, `ECMA_VALUE_ERROR` after a
throw. -/
def callUserValue (code : UserCode Script ScriptValue) : Native Script EcmaValue := do
  match ← callUser code with
  | none => pure .error
  | some result =>
      acquire result.value.references
      pure result.value

/-- `jerry_port_print_buffer`. -/
def jerryPortPrintBuffer (buffer : List UInt8) : Native Script Unit :=
  Routine.perform (Effect.print buffer)

variable (frame : Frame) (world : World Script)

@[simp]
theorem run_jerryAssert_true :
    (jerryAssert true : Native Script Unit).run frame world = .done ((), frame) world := rfl

@[simp]
theorem run_jerryAssert_false :
    (jerryAssert false : Native Script Unit).run frame world = .fault .assertion := rfl

@[simp]
theorem run_acquire (references : Multiset Pointer) :
    (acquire references : Native Script Unit).run frame world =
      .done ((), { frame with held := frame.held + references }) world := rfl

@[simp]
theorem run_readWorld :
    (readWorld : Native Script (World Script)).run frame world =
      .done (world, frame) world := rfl

theorem run_release_of_eq {held rest references : Multiset Pointer}
    (split : held = rest + references) (pending : Option Thrown) (lent : Multiset Pointer) :
    (release references : Native Script Unit).run ⟨pending, held, lent⟩ world =
      .done ((), ⟨pending, rest, lent⟩) world := by
  subst split
  have enough : references ≤ rest + references := Multiset.le_add_left references rest
  simp only [release, Routine.run_bind, Routine.run_get, Program.bind_done, if_pos enough,
    Routine.run_set, Multiset.add_sub_cancel_right]

theorem run_callUser_of_done {code : UserCode Script α} {result : α}
    {changed : World Script} (ended : code world = .done (.ok result) changed) :
    (callUser code).run frame world = .done (some result, frame) changed := by
  change ((code world).relax.bind fun outcome changed =>
    Program.done (outcome, frame) changed).bind _ = _
  rw [ended]
  rfl

theorem run_callUserValue_of_done {code : UserCode Script ScriptValue} {result : ScriptValue}
    {changed : World Script} (ended : code world = .done (.ok result) changed) :
    (callUserValue code).run frame world =
      .done (result.value, { frame with held := frame.held + result.value.references })
        changed := by
  simp [callUserValue, run_callUser_of_done frame world ended]

/-- Releasing what was acquired last leaves what was held before. -/
@[simp]
theorem run_release_acquired (pending : Option Thrown)
    (held references lent : Multiset Pointer) :
    (release references : Native Script Unit).run ⟨pending, held + references, lent⟩ world =
      .done ((), ⟨pending, held, lent⟩) world :=
  run_release_of_eq world rfl pending lent

@[simp]
theorem run_release_zero :
    (release 0 : Native Script Unit).run frame world = .done ((), frame) world :=
  run_release_of_eq world (add_zero frame.held).symm frame.pending frame.lent

theorem run_touch {references : Multiset Pointer} (alive : frame.Alive references) :
    (touch references : Native Script Unit).run frame world = .done ((), frame) world := by
  simp [touch, alive]

@[simp]
theorem run_allocate :
    (allocate : Native Script Pointer).run frame world =
      .done (world.next, { frame with held := frame.held + {world.next} })
        { world with next := world.next + 1 } := rfl

@[simp]
theorem run_ecmaNewStandardError (type : ErrorType) (message : ErrorMessage) :
    (ecmaNewStandardError type message : Native Script EcmaObject).run frame world =
      .done (⟨world.next, some ⟨type, message⟩⟩,
        { frame with held := frame.held + {world.next} })
        { world with next := world.next + 1 } := rfl

@[simp]
theorem run_jcontextRaiseException (held lent : Multiset Pointer) (thrown : Thrown) :
    (jcontextRaiseException thrown : Native Script Unit).run
        ⟨none, held + thrown.thrown.value.references, lent⟩ world =
      .done ((), ⟨some thrown, held, lent⟩) world := by
  simp [jcontextRaiseException]

/-- The error object a native function raises. -/
def nativeError (type : ErrorType) (message : ErrorMessage) (address : Pointer) : Thrown :=
  ⟨.ofObject ⟨address, some ⟨type, message⟩⟩, false⟩

@[simp]
theorem run_ecmaRaiseStandardError (held lent : Multiset Pointer) (type : ErrorType)
    (message : ErrorMessage) :
    (ecmaRaiseStandardError type message : Native Script EcmaValue).run
        ⟨none, held, lent⟩ world =
      .done (.error, ⟨some (nativeError type message world.next), held, lent⟩)
        { world with next := world.next + 1 } := by
  have raised := run_jcontextRaiseException ({ world with next := world.next + 1 })
    held lent (nativeError type message world.next)
  simp only [nativeError, EcmaValue.references] at raised
  simp only [ecmaRaiseStandardError, Routine.run_bind, run_ecmaNewStandardError,
    Program.bind_done, raised, Routine.run_pure, nativeError]

@[simp]
theorem run_jcontextTakeException (held lent : Multiset Pointer) (thrown : Thrown) :
    (jcontextTakeException : Native Script Thrown).run ⟨some thrown, held, lent⟩ world =
      .done (thrown, ⟨none, held + thrown.thrown.value.references, lent⟩) world := rfl

@[simp]
theorem run_ecmaCreateException (pending : Option Thrown) (held lent : Multiset Pointer)
    (value : EcmaValue) (abort : Bool) :
    (ecmaCreateException value abort : Native Script EcmaValue).run
        ⟨pending, held + value.references, lent⟩ world =
      .done (.exception world.next value abort, ⟨pending, held + {world.next}, lent⟩)
        { world with next := world.next + 1 } := by
  simp [ecmaCreateException]

@[simp]
theorem run_ecmaCreateExceptionFromContext (held lent : Multiset Pointer) (thrown : Thrown) :
    (ecmaCreateExceptionFromContext : Native Script EcmaValue).run
        ⟨some thrown, held, lent⟩ world =
      .done (.exception world.next thrown.thrown.value thrown.abort,
        ⟨none, held + {world.next}, lent⟩) { world with next := world.next + 1 } := by
  simp [ecmaCreateExceptionFromContext]

@[simp]
theorem run_jerryThrowSz (pending : Option Thrown) (held lent : Multiset Pointer)
    (type : ErrorType) (message : ErrorMessage) :
    (jerryThrowSz type message : Native Script EcmaValue).run ⟨pending, held, lent⟩ world =
      .done (.exception (world.next + 1) (.object ⟨world.next, some ⟨type, message⟩⟩) false,
        ⟨pending, held + {world.next + 1}, lent⟩) { world with next := world.next + 2 } := by
  have created := run_ecmaCreateException ({ world with next := world.next + 1 })
    pending held lent (.object ⟨world.next, some ⟨type, message⟩⟩) false
  simp only [EcmaValue.references] at created
  simp [jerryThrowSz, created]

theorem run_ecmaCopyValue {value : EcmaValue} (alive : frame.Alive value.references) :
    (ecmaCopyValue value : Native Script EcmaValue).run frame world =
      .done (value, { frame with held := frame.held + value.references }) world := by
  simp [ecmaCopyValue, run_touch, alive]

theorem ecmaFreeValue_eq_release {value : EcmaValue} (valid : value.specDefined = true) :
    (ecmaFreeValue value : Native Script Unit) = release value.references := by
  cases value with
  | exception address value abort => cases valid
  | _ => rfl

theorem error_ne_of_specDefined {value : EcmaValue} (valid : value.specDefined = true) :
    value ≠ .error := by
  rintro rfl
  cases valid

@[simp]
theorem run_jerryPortPrintBuffer (buffer : List UInt8) :
    (jerryPortPrintBuffer buffer : Native Script Unit).run frame world =
      .perform (.print buffer) world fun _ changed => .done ((), frame) changed := rfl

end Native

end Cmsframe
