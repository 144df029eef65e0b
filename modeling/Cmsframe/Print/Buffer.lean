import Cmsframe.Print.Text
import Cmsframe.Pp.Routines

/-!
# The buffer on the stack

`cms_pp_value` passes an array of 64 bytes to the callback `buffered_print`, which
stores at its write index and flushes for two reasons, a full array and a NUL byte.
`Delivered` is the invariant of that buffer between two calls of the callback. It says
that the next store is in bounds, and accounts for every byte received.
-/

namespace Cmsframe

open Interaction
open Unicode (CodeUnit utf8)

/-- What is true between two calls of the callback, after it has received some values and
handed over some buffers. -/
structure PrintBuffer.Delivered {size : ℕ} (buffer : PrintBuffer size) (received : List ℕ)
    (handed : List (List UInt8)) : Prop where
  room : buffer.index < size
  short : ∀ piece ∈ handed, piece = asciiBytes "\\u0000" ∨ piece.length ≤ size
  complete : handed.flatten ++ buffer.contents =
    received.flatMap fun value => escapeByte (UInt8.ofNat value)

namespace OpenBuffer

variable {size : ℕ}

theorem length_contents_le (buffer : PrintBuffer size) : buffer.contents.length ≤ size := by
  rw [PrintBuffer.contents, List.length_take, Vector.length_toList]
  exact Nat.min_le_right _ _

theorem receive_short (buffer : OpenBuffer size) (byte : UInt8) :
    ∀ piece ∈ (buffer.receive byte).1, piece = asciiBytes "\\u0000" ∨ piece.length ≤ size := by
  intro piece mem
  simp only [receive] at mem
  split_ifs at mem with isNul full
  · rcases List.mem_cons.mp mem with rfl | isEscape
    · exact .inr (length_contents_le _)
    · exact .inl (List.mem_singleton.mp isEscape)
  · rw [List.mem_singleton.mp mem]
    exact .inr (length_contents_le _)
  · exact absurd mem List.not_mem_nil

end OpenBuffer

namespace Native

variable {Script State : Type} {size : ℕ}

/-- The callback called with the values one after the other. -/
def bufferedPrintAll (values : List ℕ) (buffer : PrintBuffer size) :
    Native Script (PrintBuffer size) :=
  values.foldlM (fun buffer value => storeValue size value buffer) buffer

theorem delivered_start (positive : 0 < size) (data : Vector UInt8 size) :
    (⟨0, data⟩ : PrintBuffer size).Delivered [] [] where
  room := positive
  short _ mem := absurd mem List.not_mem_nil
  complete := by simp [PrintBuffer.contents]

/-- One call of the callback succeeds on a byte and keeps the invariant. -/
theorem storeValue_delivered (Script : Type) {buffer : PrintBuffer size} {received : List ℕ}
    {handed : List (List UInt8)} (delivered : buffer.Delivered received handed) {value : ℕ}
    (isByte : value ≤ 255) :
    ∃ (pieces : List (List UInt8)) (after : PrintBuffer size),
      (storeValue size value buffer : Native Script (PrintBuffer size)) = (do
        printAll pieces
        return after) ∧
      after.Delivered (received ++ [value]) (handed ++ pieces) := by
  let entered : OpenBuffer size := ⟨buffer, delivered.room⟩
  have sameValue : (UInt8.ofNat value).toNat = value := by
    rw [UInt8.toNat_ofNat']
    omega
  refine ⟨(entered.receive (UInt8.ofNat value)).1, (entered.receive (UInt8.ofNat value)).2.val,
    ?_, ?_⟩
  · have step : (storeValue size _ entered.val : Native Script (PrintBuffer size)) = _ :=
      storeValue_eq (UInt8.ofNat value) entered
    rw [sameValue] at step
    exact step
  · refine ⟨(entered.receive (UInt8.ofNat value)).2.property, ?_, ?_⟩
    · intro piece mem
      rcases List.mem_append.mp mem with earlier | now
      · exact delivered.short piece earlier
      · exact entered.receive_short _ piece now
    · calc (handed ++ (entered.receive (UInt8.ofNat value)).1).flatten ++
          (entered.receive (UInt8.ofNat value)).2.val.contents
          = handed.flatten ++ ((entered.receive (UInt8.ofNat value)).1.flatten ++
              (entered.receive (UInt8.ofNat value)).2.val.contents) := by
            rw [List.flatten_append, List.append_assoc]
        _ = handed.flatten ++ buffer.contents ++ escapeByte (UInt8.ofNat value) := by
            rw [entered.receive_flatten, List.append_assoc]
        _ = _ := by
            rw [delivered.complete, List.flatMap_append, List.flatMap_singleton]

/-- Any number of calls of the callback succeeds and keeps the invariant. -/
theorem bufferedPrintAll_delivered (Script : Type) {values : List ℕ}
    (areBytes : ∀ value ∈ values, value ≤ 255)
    {buffer : PrintBuffer size} {received : List ℕ} {handed : List (List UInt8)}
    (delivered : buffer.Delivered received handed) :
    ∃ (pieces : List (List UInt8)) (after : PrintBuffer size),
      (bufferedPrintAll values buffer : Native Script (PrintBuffer size)) = (do
        printAll pieces
        return after) ∧
      after.Delivered (received ++ values) (handed ++ pieces) := by
  induction values generalizing buffer received handed with
  | nil => exact ⟨[], buffer, rfl, by simpa using delivered⟩
  | cons value values ih =>
      rcases storeValue_delivered Script delivered
        (areBytes value List.mem_cons_self) with ⟨first, middle, called, kept⟩
      rcases ih (fun other mem => areBytes other (List.mem_cons_of_mem value mem)) kept
        with ⟨rest, after, continued, keptAll⟩
      refine ⟨first ++ rest, after, ?_, ?_⟩
      · rw [bufferedPrintAll, List.foldlM_cons, called, printAll_append]
        rw [bufferedPrintAll] at continued
        simp only [bind_assoc, pure_bind, continued]
      · simpa using keptAll

/-- The values the callback of an iteration is called with, in order. They do not depend on
what the callback does. -/
def CalledWith (string : EcmaString) (values : List ℕ) : Prop :=
  ∀ (Script State : Type) (callback : ℕ → State → Native Script State) (state : State),
    jerryStringIterate (.string string) .utf8 callback state = (do
      touch string.references
      values.foldlM (fun state value => callback value state) state)

theorem calledWith_utf8 (string : EcmaString) :
    CalledWith string ((utf8 string.units).map UInt8.toNat) := by
  intro Script State callback state
  have iterated := iterateUtf8_eq callback string.units (le_refl _) state
  rw [jerryStringIterate, EcmaString.bytes, iterated, List.foldlM_map]

/-- At every moment of the iteration over a string the callback receives a byte of its UTF-8 form
and finds room for it, and in the end every byte has been handed over once. -/
theorem printBuffer_invariant (Script : Type) (string : EcmaString) :
    ∃ values : List ℕ, values = (utf8 string.units).map UInt8.toNat ∧
      CalledWith string values ∧
      (∀ value ∈ values, value ≤ 255) ∧
      (∀ received value later, values = received ++ value :: later →
        ∃ (handed : List (List UInt8)) (before : CmsPpBuffer)
          (pieces : List (List UInt8)) (after : CmsPpBuffer),
          (bufferedPrintAll received ⟨0, Vector.replicate cmsPrintBufferSize 0⟩ :
            Native Script CmsPpBuffer) = (do
              printAll handed
              return before) ∧
          before.Delivered received handed ∧
          (bufferedPrint value before : Native Script CmsPpBuffer) = (do
              printAll pieces
              return after) ∧
          after.Delivered (received ++ [value]) (handed ++ pieces)) ∧
      ∃ (handed : List (List UInt8)) (buffer : CmsPpBuffer),
        buffer.Delivered values handed ∧
        (printString cmsPrintBufferSize bufferedPrint (.string string) : Native Script EcmaValue) = (do
          touch string.references
          printAll handed
          release string.references
          jerryPortPrintBuffer buffer.contents
          return .undefined) ∧
        buffer.contents.length ≤ cmsPrintBufferSize ∧
        (handed ++ [buffer.contents]).flatten =
          values.flatMap fun value => escapeByte (UInt8.ofNat value) := by
  have areBytes : ∀ value ∈ (utf8 string.units).map UInt8.toNat, value ≤ 255 := by
    intro value mem
    rcases List.mem_map.mp mem with ⟨byte, _, rfl⟩
    exact Nat.le_of_lt_succ byte.toNat_lt
  have start : PrintBuffer.Delivered ⟨0, Vector.replicate cmsPrintBufferSize 0⟩ [] [] :=
    delivered_start (by decide) _
  refine ⟨_, rfl, calledWith_utf8 string, areBytes, ?_, ?_⟩
  · intro received value later split
    rw [split] at areBytes
    rcases bufferedPrintAll_delivered Script
      (fun other mem => areBytes other (List.mem_append_left _ mem)) start
      with ⟨handed, before, called, kept⟩
    rcases storeValue_delivered Script kept
      (areBytes value (List.mem_append_right _ List.mem_cons_self))
      with ⟨pieces, after, calledNext, keptNext⟩
    exact ⟨handed, before, pieces, after, called, kept, calledNext, keptNext⟩
  · rcases bufferedPrintAll_delivered Script areBytes start
      with ⟨handed, buffer, called, kept⟩
    refine ⟨handed, buffer, kept, ?_, OpenBuffer.length_contents_le buffer, ?_⟩
    · rw [bufferedPrintAll] at called
      rw [printString, calledWith_utf8 string, called]
      simp only [bind_assoc, pure_bind, jerryValueFree, EcmaValue.references_string]
    · rw [List.flatten_append, List.flatten_singleton]
      exact kept.complete

end Native

end Cmsframe
