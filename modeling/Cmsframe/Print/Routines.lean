import Cmsframe.Engine.Conventions
import Cmsframe.Engine.Lit

/-!
# Printing values

The printing half of `print.c` and of `pp.c`, which was copied from it: the
callback that batches bytes in a buffer on the stack, the function that prints one
value, and the handler that prints an argument list. The two copies differ in the
conversion of a value to a string, so the shared text is written once, with the
buffer size, the callback and the conversion as parameters, and each copy is that text
applied to its own values.
-/

namespace Cmsframe

open Interaction

/-- `jerry_encoding_t`. -/
inductive Encoding where
  | cesu8
  | utf8
  deriving DecidableEq

/-- A write index into an array on the stack. -/
structure PrintBuffer (size : ℕ) where
  index : ℕ
  data : Vector UInt8 size

/-- The bytes in front of the write index. -/
def PrintBuffer.contents {size : ℕ} (buffer : PrintBuffer size) : List UInt8 :=
  buffer.data.toList.take buffer.index

namespace Native

variable {Script State : Type}

/-- The loop of `jerry_string_iterate` for UTF-8; the number of bytes left is enough fuel. -/
def iterateUtf8 (callback : ℕ → State → Native Script State) :
    ℕ → List UInt8 → State → Native Script State
  | _, [], state => pure state
  | 0, _ :: _, _ => Routine.fail .outOfFuel
  | fuel + 1, current :: rest, state =>
      if 0xE0 ≤ current.toNat then
        match litReadCodePointFromCesu8 (current :: rest) with
        | none => Routine.fail .assertion
        | some (codePoint, readSize) =>
            match litCodePointToUtf8 codePoint with
            | none => Routine.fail .assertion
            | some bytes => do
                let state ← bytes.foldlM (fun state byte => callback byte.toNat state) state
                iterateUtf8 callback fuel ((current :: rest).drop readSize) state
      else do
        let state ← callback current.toNat state
        iterateUtf8 callback fuel rest state

/-- `jerry_string_iterate`. -/
def jerryStringIterate (value : EcmaValue) (encoding : Encoding)
    (callback : ℕ → State → Native Script State) (state : State) : Native Script State := do
  match value with
  | .string string =>
      touch string.references
      match encoding with
      | .utf8 => iterateUtf8 callback string.bytes.length string.bytes state
      | .cesu8 => string.bytes.foldlM (fun state byte => callback byte.toNat state) state
  | _ => return state

/-- The callback of the iteration over a string: a value is stored, and the buffer is flushed when
it is full and at each NUL. -/
def storeValue (size : ℕ) (value : ℕ) (buffer : PrintBuffer size) :
    Native Script (PrintBuffer size) := do
  if value = 0 then
    jerryPortPrintBuffer buffer.contents
    jerryPortPrintBuffer (asciiBytes "\\u0000")
    return { buffer with index := 0 }
  else
    jerryAssert (value ≤ 255)
    if inBounds : buffer.index < size then
      let buffer : PrintBuffer size :=
        ⟨buffer.index + 1, buffer.data.set buffer.index (UInt8.ofNat value) inBounds⟩
      if size ≤ buffer.index then
        jerryPortPrintBuffer buffer.contents
        return { buffer with index := 0 }
      else
        return buffer
    else
      Routine.fail .outOfBounds

/-- The part of `jerryx_print_value` and `cms_pp_value` after the conversion. -/
def printString (size : ℕ)
    (bufferedPrint : ℕ → PrintBuffer size → Native Script (PrintBuffer size))
    (string : EcmaValue) : Native Script EcmaValue := do
  let buffer ← jerryStringIterate string .utf8 bufferedPrint ⟨0, Vector.replicate size 0⟩
  jerryValueFree string
  jerryPortPrintBuffer buffer.contents
  return .undefined

/-- `jerry_symbol_descriptive_string` on a symbol. -/
def jerrySymbolDescriptiveString (realm : Realm Script) (address : Pointer)
    (description : Option (List Unicode.CodeUnit)) : Native Script EcmaValue := do
  return .string (← ecmaGetSymbolDescriptiveString realm address description)

/-- `jerryx_print_value` and `cms_pp_value`: a failed conversion is returned, the
descriptive string of a symbol cannot fail. -/
def printValue (realm : Realm Script) (size : ℕ)
    (bufferedPrint : ℕ → PrintBuffer size → Native Script (PrintBuffer size))
    (toString : EcmaValue → Native Script EcmaValue) (value : EcmaValue) :
    Native Script EcmaValue := do
  match value with
  | .symbol address description =>
      printString size bufferedPrint (← jerrySymbolDescriptiveString realm address description)
  | _ =>
      let string ← toString value
      match string with
      | .exception .. => return string
      | _ => printString size bufferedPrint string

/-- `jerryx_handler_print` and `cms_handler_pp` from the argument with the given index on. -/
def handlePrint (print : EcmaValue → Native Script EcmaValue) (index : ℕ) :
    List ScriptValue → Native Script EcmaValue
  | [] => do
      jerryPortPrintBuffer (asciiBytes "\n")
      return .undefined
  | argument :: arguments => do
      if 0 < index then
        jerryPortPrintBuffer (asciiBytes " ")
      let result ← print argument.value
      match result with
      | .exception .. => return result
      | _ => handlePrint print (index + 1) arguments

variable (realm : Realm Script)

/-- `jerry_value_to_string`. -/
def jerryValueToString (value : EcmaValue) : Native Script EcmaValue := do
  match value with
  | .exception .. => jerryThrowSz .typeError .valueMsg
  | _ =>
      match ← ecmaOpToString realm value with
      | none => ecmaCreateExceptionFromContext
      | some string => return .string string

/-- `JERRYX_PRINT_BUFFER_SIZE`. -/
def jerryxPrintBufferSize : ℕ := 64

/-- `jerryx_print_buffer_t`. -/
abbrev JerryxPrintBuffer := PrintBuffer jerryxPrintBufferSize

/-- `jerryx_buffered_print`. -/
abbrev jerryxBufferedPrint : ℕ → JerryxPrintBuffer → Native Script JerryxPrintBuffer :=
  storeValue jerryxPrintBufferSize

/-- `jerryx_print_value`. -/
def jerryxPrintValue : EcmaValue → Native Script EcmaValue :=
  printValue realm jerryxPrintBufferSize jerryxBufferedPrint (jerryValueToString realm)

/-- `jerryx_handler_print`. -/
def jerryxHandlerPrint : List ScriptValue → Native Script EcmaValue :=
  handlePrint (jerryxPrintValue realm) 0

end Native

end Cmsframe
