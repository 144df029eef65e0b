import Cmsframe.Library.CString
import Cmsframe.Library.Radix

/-!
# The logger

`jerry_log`: a format string is interpreted with a buffer of 64 bytes, which collects the
literal text and in which numbers are written from the end. Every write to the buffer and
every read of an argument is checked in the model.
-/

namespace Cmsframe

open CString (upToNul)

/-- What a variadic call passes: a machine word, or a pointer with the memory behind it. -/
inductive LogArgument where
  | word (bits : BitVec 32)
  | pointer (memory : List UInt8)
  deriving DecidableEq

/-- What is undefined in a call. -/
inductive LogFault where
  | outOfBounds
  | missingArgument
  | overflow
  | outOfFuel
  deriving DecidableEq

/-- `JERRY_LOG_BUFFER_SIZE`. -/
def jerryLogBufferSize : ℕ := 64

/-- `jerry_log_string`, which passes a zero-terminated string to `jerry_port_log`. -/
def jerryLogString (memory : List UInt8) : Except LogFault (List UInt8) :=
  if 0 ∈ memory then return upToNul memory else throw .outOfBounds

/-- `buffer_p[index] = character` behind the bytes that are held. -/
def storeByte (held : List UInt8) (character : UInt8) : Except LogFault (List UInt8) :=
  if held.length < jerryLogBufferSize then return held ++ [character] else throw .outOfBounds

/-- The end of the string is marked in the buffer, and the string is logged. -/
def logHeld (held : List UInt8) : Except LogFault (List UInt8) := do
  let terminated ← storeByte held 0
  jerryLogString terminated

/-- `memcpy` into the empty buffer. -/
def copyToBuffer (memory : List UInt8) (size : ℕ) : Except LogFault (List UInt8) :=
  if size ≤ memory.length ∧ size ≤ jerryLogBufferSize then return memory.take size
  else throw .outOfBounds

/-- `jerry_log_string_fixed`; the fuel bounds the number of batches. -/
def jerryLogStringFixed : ℕ → List UInt8 → ℕ → Except LogFault (List (List UInt8))
  | 0, _, _ => throw .outOfFuel
  | fuel + 1, memory, size => do
      let batchSize := jerryLogBufferSize - 1
      if batchSize < size then
        let batch ← copyToBuffer memory batchSize
        let text ← logHeld batch
        let later ← jerryLogStringFixed fuel (memory.drop batchSize) (size - batchSize)
        return text :: later
      else
        let batch ← copyToBuffer memory size
        let text ← logHeld batch
        return [text]

/-- `digits[value]`. -/
def logDigit (value : ℕ) : UInt8 :=
  ([0x30, 0x31, 0x32, 0x33, 0x34, 0x35, 0x36, 0x37, 0x38, 0x39,
    0x61, 0x62, 0x63, 0x64, 0x65, 0x66] : List UInt8).getD value 0

/-- `*(--cursor_p) = character`: the text begins at the cursor. -/
def pushFront : ℕ × List UInt8 → UInt8 → Except LogFault (ℕ × List UInt8)
  | (0, _), _ => throw .outOfBounds
  | (cursor + 1, text), character => return (cursor, character :: text)

/-- The loop over the digits of a number. -/
def formatDigits (radix : ℕ) : ℕ → ℕ → List UInt8 → Except LogFault (ℕ × List UInt8)
  | 0, _, _ => throw .outOfBounds
  | cursor + 1, num, text =>
      let text := logDigit (num % radix) :: text
      if 0 < num / radix then formatDigits radix cursor (num / radix) text
      else return (cursor, text)

/-- The loop that extends a number with `count` characters to its minimum width. -/
def padNumber (padding : UInt8) (width : ℕ) : ℕ → ℕ → List UInt8 → Except LogFault (ℕ × List UInt8)
  | 0, count, text => if count < width then throw .outOfBounds else return (0, text)
  | cursor + 1, count, text =>
      if count < width then padNumber padding width cursor (count + 1) (padding :: text)
      else return (cursor + 1, text)

/-- `jerry_format_unsigned`: the cursor, and the text from it to the terminating zero. -/
def jerryFormatUnsigned (num width : ℕ) (padding : UInt8) (radix : ℕ) :
    Except LogFault (ℕ × List UInt8) := do
  let (cursor, text) ← formatDigits radix (jerryLogBufferSize - 1) num []
  padNumber padding width cursor text.length text

/-- The loop that indents a negative number. -/
def indentNumber (indent : ℤ) : ℕ → List UInt8 → Except LogFault (ℕ × List UInt8)
  | 0, text => if indent < 0 then throw .outOfBounds else return (0, text)
  | cursor + 1, text =>
      if indent < cursor + 1 then indentNumber indent cursor (0x20 :: text)
      else return (cursor + 1, text)

/-- `jerry_format_int`. The negation of the least number overflows. -/
def jerryFormatInt (num : ℤ) (width : ℕ) (padding : UInt8) : Except LogFault (ℕ × List UInt8) :=
  if 0 ≤ num then
    jerryFormatUnsigned num.toNat width padding 10
  else if num = -2 ^ 31 then
    throw .overflow
  else if padding = 0x30 ∧ 0 < width then do
    let formatted ← jerryFormatUnsigned (-num).toNat (width - 1) padding 10
    pushFront formatted 0x2D
  else do
    let formatted ← jerryFormatUnsigned (-num).toNat 0 0x20 10
    let (cursor, text) ← pushFront formatted 0x2D
    indentNumber ((jerryLogBufferSize : ℤ) - width - 1) cursor text

/-- `va_arg (vl, int)` and `va_arg (vl, unsigned int)`. -/
def nextWord : List LogArgument → Except LogFault (BitVec 32 × List LogArgument)
  | .word bits :: arguments => return (bits, arguments)
  | _ => throw .missingArgument

/-- `va_arg (vl, char *)`. -/
def nextPointer : List LogArgument → Except LogFault (List UInt8 × List LogArgument)
  | .pointer memory :: arguments => return (memory, arguments)
  | _ => throw .missingArgument

/-- The sub-modifiers of a substitution. -/
structure LogModifiers where
  padding : UInt8
  width : ℕ
  precision : ℕ
  deriving DecidableEq

/-- `JERRY_MAX (va_arg (vl, int), 10)`. The macro evaluates what it returns a second time, so the
argument behind one from 10 on is the result. -/
def maxOfArguments (arguments : List LogArgument) :
    Except LogFault (ℤ × List LogArgument) := do
  let (bits, arguments) ← nextWord arguments
  if bits.toInt < 10 then
    return (10, arguments)
  else
    let (bits, arguments) ← nextWord arguments
    return (bits.toInt, arguments)

/-- The width or the precision, with the characters and the arguments behind. -/
def readSize (padding : UInt8) (cursor : List UInt8) (arguments : List LogArgument) :
    Except LogFault (LogModifiers × List UInt8 × List LogArgument) :=
  match cursor with
  | [] => return (⟨padding, 0, 0⟩, [], arguments)
  | character :: rest =>
      if Decimal.IsDigit character then
        return (⟨padding, character.toNat - 0x30, 0⟩, rest, arguments)
      else if character = 0x2A then do
        let (width, arguments) ← maxOfArguments arguments
        return (⟨padding, (width % 2 ^ 8).toNat, 0⟩, rest, arguments)
      else if character = 0x2E ∧ rest.head? = some 0x2A then do
        let (bits, arguments) ← nextWord arguments
        return (⟨padding, 0, (bits.toInt % 2 ^ 64).toNat⟩, rest.drop 1, arguments)
      else
        return (⟨padding, 0, 0⟩, cursor, arguments)

/-- The sub-modifiers behind a percent sign. -/
def readModifiers (cursor : List UInt8) (arguments : List LogArgument) :
    Except LogFault (LogModifiers × List UInt8 × List LogArgument) :=
  match cursor with
  | 0x30 :: rest => readSize 0x30 rest arguments
  | _ => readSize 0x20 cursor arguments

/-- The formatted number in the buffer is logged. -/
def logNumber (formatted : Except LogFault (ℕ × List UInt8)) :
    Except LogFault (List (List UInt8)) := do
  let (_, text) ← formatted
  let text ← jerryLogString (text ++ [0])
  return [text]

/-- The `switch` over the specifier: what is logged, what is held afterwards, and the arguments
that are left. -/
def substitute (modifiers : LogModifiers) (specifier : UInt8) (arguments : List LogArgument) :
    Except LogFault (List (List UInt8) × List UInt8 × List LogArgument) :=
  if specifier = 0x73 then do
    let (memory, arguments) ← nextPointer arguments
    if modifiers.precision = 0 then
      let text ← jerryLogString memory
      return ([text], [], arguments)
    else
      let texts ← jerryLogStringFixed (modifiers.precision + 1) memory modifiers.precision
      return (texts, [], arguments)
  else if specifier = 0x63 then do
    let (bits, arguments) ← nextWord arguments
    return ([], [UInt8.ofNat bits.toNat], arguments)
  else if specifier = 0x64 then do
    let (bits, arguments) ← nextWord arguments
    let texts ← logNumber (jerryFormatInt bits.toInt modifiers.width modifiers.padding)
    return (texts, [], arguments)
  else if specifier = 0x75 then do
    let (bits, arguments) ← nextWord arguments
    let texts ← logNumber (jerryFormatUnsigned bits.toNat modifiers.width modifiers.padding 10)
    return (texts, [], arguments)
  else if specifier = 0x78 then do
    let (bits, arguments) ← nextWord arguments
    let texts ← logNumber (jerryFormatUnsigned bits.toNat modifiers.width modifiers.padding 16)
    return (texts, [], arguments)
  else
    return ([], [0x25], arguments)

/-- The loop over the format: the texts that are logged from here on. `held` lies in the buffer
up to `buffer_index`. -/
def jerryLogLoop : ℕ → List UInt8 → List UInt8 → List LogArgument →
    Except LogFault (List (List UInt8))
  | 0, _, _, _ => throw .outOfFuel
  | _ + 1, [], held, _ => do
      if 0 < held.length then
        let text ← logHeld held
        return [text]
      else
        return []
  | fuel + 1, character :: rest, held, arguments => do
      if character = 0x25 then
        let text ← logHeld held
        let (modifiers, cursor, arguments) ← readModifiers rest arguments
        match cursor with
        | [] =>
            -- the loop is left with a percent sign in the buffer
            let mark ← logHeld [0x25]
            return [text, mark]
        | specifier :: cursor =>
            let (texts, held, arguments) ← substitute modifiers specifier arguments
            let later ← jerryLogLoop fuel cursor held arguments
            return text :: texts ++ later
      else if jerryLogBufferSize - 2 < held.length then
        let text ← logHeld held
        let held ← storeByte [] character
        let later ← jerryLogLoop fuel rest held arguments
        return text :: later
      else
        let held ← storeByte held character
        jerryLogLoop fuel rest held arguments

/-- `jerry_log`: the strings that are passed to `jerry_port_log`. -/
def jerryLog (current level : ℕ) (format : List UInt8) (arguments : List LogArgument) :
    Except LogFault (List (List UInt8)) :=
  if current < level then
    return []
  else
    jerryLogLoop ((upToNul format).length + 1) (upToNul format) [] arguments

end Cmsframe
