import Cmsframe.Print.Routines

/-!
# The text that reaches standard output

The bytes of a string arrive one by one in a callback that keeps some of them back,
so what is printed for a string is spread over several calls of
`jerry_port_print_buffer`. This file shows that the pieces always join to the same
text, `printedText`, wherever the buffer happens to be flushed.
-/

namespace Cmsframe

open Interaction
open Unicode (CodeUnit codePoints utf8)

/-- What one byte of a string contributes to the output. -/
def escapeByte (byte : UInt8) : List UInt8 :=
  if byte = 0 then asciiBytes "\\u0000" else [byte]

/-- The output for a string: UTF-8, with the character NUL spelled out. An unpaired
surrogate is written as a three-byte character of its own. -/
def printedText (units : List CodeUnit) : List UInt8 :=
  (codePoints units).flatMap fun codePoint =>
    if codePoint = 0 then asciiBytes "\\u0000" else Unicode.encode codePoint

theorem flatMap_escapeByte_of_pos {bytes : List UInt8}
    (positive : ∀ byte ∈ bytes, 1 ≤ byte.toNat) : bytes.flatMap escapeByte = bytes := by
  induction bytes with
  | nil => rfl
  | cons byte bytes ih =>
      have notNul : byte ≠ 0 := by
        rintro rfl
        exact absurd (positive 0 List.mem_cons_self) (by decide)
      rw [List.flatMap_cons, ih fun other mem => positive other (List.mem_cons_of_mem _ mem)]
      simp [escapeByte, notNul]

/-- NUL bytes come from NUL characters only, so escaping byte by byte is escaping
character by character. -/
theorem printedText_eq_escape (units : List CodeUnit) :
    printedText units = (utf8 units).flatMap escapeByte := by
  rw [printedText, utf8, List.flatMap_assoc]
  apply List.flatMap_congr
  intro codePoint _
  split_ifs with isNul
  · subst isNul
    decide
  · symm
    apply flatMap_escapeByte_of_pos
    intro byte mem
    exact Unicode.le_of_mem_encode (Nat.pos_of_ne_zero isNul) (by norm_num) mem

/-- A buffer with room for the next byte, which it has whenever the callback is entered. -/
abbrev OpenBuffer (size : ℕ) := { buffer : PrintBuffer size // buffer.index < size }

namespace OpenBuffer

variable {size : ℕ}

/-- The buffer on entry of `cms_pp_value`. -/
def start (positive : 0 < size) : OpenBuffer size := ⟨⟨0, Vector.replicate size 0⟩, positive⟩

/-- The buffer once its bytes have been handed over. -/
def flushed (buffer : OpenBuffer size) (data : Vector UInt8 size) : OpenBuffer size :=
  ⟨⟨0, data⟩, Nat.zero_lt_of_lt buffer.property⟩

/-- The array with one byte stored at the write index. -/
def stored (buffer : OpenBuffer size) (byte : UInt8) : Vector UInt8 size :=
  buffer.val.data.set buffer.val.index byte buffer.property

/-- Receive one byte: what is handed over, and the buffer left behind. -/
def receive (buffer : OpenBuffer size) (byte : UInt8) : List (List UInt8) × OpenBuffer size :=
  if byte = 0 then
    ([buffer.val.contents, asciiBytes "\\u0000"], buffer.flushed buffer.val.data)
  else if full : size ≤ buffer.val.index + 1 then
    ([PrintBuffer.contents ⟨buffer.val.index + 1, buffer.stored byte⟩],
      buffer.flushed (buffer.stored byte))
  else
    ([], ⟨⟨buffer.val.index + 1, buffer.stored byte⟩, by simpa using full⟩)

/-- Receive the bytes one after the other. -/
def receiveAll (buffer : OpenBuffer size) :
    List UInt8 → List (List UInt8) × OpenBuffer size
  | [] => ([], buffer)
  | byte :: bytes =>
      let step := buffer.receive byte
      let rest := step.2.receiveAll bytes
      (step.1 ++ rest.1, rest.2)

@[simp]
theorem contents_flushed (buffer : OpenBuffer size) (data : Vector UInt8 size) :
    (buffer.flushed data).val.contents = [] := rfl

theorem contents_stored (buffer : OpenBuffer size) (byte : UInt8) :
    PrintBuffer.contents ⟨buffer.val.index + 1, buffer.stored byte⟩ =
      buffer.val.contents ++ [byte] := by
  have inBounds : buffer.val.index < buffer.val.data.toList.length := by
    simpa using buffer.property
  simp only [PrintBuffer.contents, stored, Vector.toList_set]
  rw [List.take_add_one, List.take_set_of_le (le_refl _), List.getElem?_set_self inBounds]
  rfl

/-- No byte is lost, repeated or moved by the step: what was handed over and what is still
in the buffer is what was there before, followed by the byte. -/
theorem receive_flatten (buffer : OpenBuffer size) (byte : UInt8) :
    (buffer.receive byte).1.flatten ++ (buffer.receive byte).2.val.contents =
      buffer.val.contents ++ escapeByte byte := by
  simp only [receive, escapeByte]
  split_ifs with isNul full
  · simp
  · simp [contents_stored]
  · simp [contents_stored]

theorem receiveAll_flatten (buffer : OpenBuffer size) (bytes : List UInt8) :
    (buffer.receiveAll bytes).1.flatten ++ (buffer.receiveAll bytes).2.val.contents =
      buffer.val.contents ++ bytes.flatMap escapeByte := by
  induction bytes generalizing buffer with
  | nil => simp [receiveAll]
  | cons byte bytes ih =>
      simp only [receiveAll, List.flatten_append, List.append_assoc, List.flatMap_cons]
      rw [ih, ← List.append_assoc, receive_flatten, List.append_assoc]

end OpenBuffer

namespace Native

variable {Script State : Type}

/-- Hand over several buffers. -/
def printAll : List (List UInt8) → Native Script Unit
  | [] => pure ()
  | buffer :: buffers => do
      jerryPortPrintBuffer buffer
      printAll buffers

theorem printAll_append (earlier later : List (List UInt8)) :
    (printAll (earlier ++ later) : Native Script Unit) =
      printAll earlier >>= fun _ => printAll later := by
  induction earlier with
  | nil => simp [printAll]
  | cons buffer earlier ih => simp [printAll, ih]

theorem storeValue_eq {size : ℕ} (byte : UInt8) (buffer : OpenBuffer size) :
    (storeValue size byte.toNat buffer.val : Native Script (PrintBuffer size)) = do
      printAll (buffer.receive byte).1
      return (buffer.receive byte).2.val := by
  have small : byte.toNat ≤ 255 := Nat.le_of_lt_succ byte.toNat_lt
  by_cases isNul : byte = 0
  · subst isNul
    simp [storeValue, OpenBuffer.receive, OpenBuffer.flushed, printAll]
  · have notNul : byte.toNat ≠ 0 := by
      intro zero
      exact isNul (UInt8.toNat_inj.mp zero)
    by_cases full : size ≤ buffer.val.index + 1
    · simp [storeValue, OpenBuffer.receive, OpenBuffer.flushed, OpenBuffer.stored, printAll,
        isNul, notNul, small, full, jerryAssert, buffer.property]
    · simp [storeValue, OpenBuffer.receive, OpenBuffer.stored, printAll, isNul, notNul, small,
        full, jerryAssert, buffer.property]

theorem foldlM_storeValue {size : ℕ} (bytes : List UInt8) (buffer : OpenBuffer size) :
    (bytes.foldlM (fun state byte => storeValue size byte.toNat state) buffer.val :
      Native Script (PrintBuffer size)) = do
      printAll (buffer.receiveAll bytes).1
      return (buffer.receiveAll bytes).2.val := by
  induction bytes generalizing buffer with
  | nil => simp [OpenBuffer.receiveAll, printAll]
  | cons byte bytes ih =>
      simp [OpenBuffer.receiveAll, storeValue_eq, printAll_append, ih]

/-- The step of the iteration on a character that is not ASCII. -/
theorem iterateUtf8_step (callback : ℕ → State → Native Script State) (fuel : ℕ)
    {codePoint : ℕ} {bytes tail : List UInt8} (state : State)
    (large : 0xE0 ≤ (bytes.headD 0).toNat)
    (read : litReadCodePointFromCesu8 (bytes ++ tail) = some (codePoint, bytes.length))
    (bound : codePoint ≤ 0x10FFFF) :
    iterateUtf8 callback (fuel + 1) (bytes ++ tail) state =
      (Unicode.encode codePoint).foldlM (fun state byte => callback byte.toNat state) state >>=
        iterateUtf8 callback fuel tail := by
  cases bytes with
  | nil => exact absurd large (by simp)
  | cons first rest =>
      simp only [List.headD_cons] at large
      simp only [List.cons_append] at read ⊢
      simp only [iterateUtf8, large, if_true, read, litCodePointToUtf8_eq bound]
      rw [← List.cons_append, List.drop_left' rfl]

/-- Bytes below 0xE0 are passed on as they are. -/
theorem iterateUtf8_plain (callback : ℕ → State → Native Script State) (fuel : ℕ)
    {bytes : List UInt8} (plain : ∀ byte ∈ bytes, byte.toNat < 0xE0) (tail : List UInt8)
    (state : State) :
    iterateUtf8 callback (bytes.length + fuel) (bytes ++ tail) state =
      bytes.foldlM (fun state byte => callback byte.toNat state) state >>=
        iterateUtf8 callback fuel tail := by
  induction bytes generalizing state with
  | nil => simp
  | cons byte bytes ih =>
      have small : ¬0xE0 ≤ byte.toNat := Nat.not_le.mpr (plain byte List.mem_cons_self)
      have rest : ∀ other ∈ bytes, other.toNat < 0xE0 := fun other mem =>
        plain other (List.mem_cons_of_mem byte mem)
      rw [List.length_cons, Nat.add_right_comm, List.cons_append, List.foldlM_cons]
      simp only [iterateUtf8, small, if_false, ih rest, bind_assoc]

/-- The iteration over one code unit that is not the first half of a pair. The fuel is
enough as long as it covers the bytes left. -/
theorem iterateUtf8_unit (callback : ℕ → State → Native Script State) {fuel : ℕ}
    (unit : CodeUnit) (tail : List UInt8) (state : State)
    (read : litReadCodePointFromCesu8 (Unicode.encode unit.toNat ++ tail) =
      some (unit.toNat, (Unicode.encode unit.toNat).length))
    (enough : (Unicode.encode unit.toNat).length + tail.length ≤ fuel) :
    ∃ remaining, tail.length ≤ remaining ∧
      iterateUtf8 callback fuel (Unicode.encode unit.toNat ++ tail) state =
        (Unicode.encode unit.toNat).foldlM (fun state byte => callback byte.toNat state) state >>=
          iterateUtf8 callback remaining tail := by
  have bound : unit.toNat < 0x10000 := unit.toNat_lt
  by_cases large : 0x7FF < unit.toNat
  · have bytes := Unicode.encode_of_le_three large (by omega)
    have lead : 0xE0 ≤ ((Unicode.encode unit.toNat).headD 0).toNat := by
      rw [bytes, List.headD_cons, UInt8.toNat_ofNat']
      omega
    have length : (Unicode.encode unit.toNat).length = 3 := by rw [bytes]; rfl
    refine ⟨fuel - 1, by omega, ?_⟩
    have step := iterateUtf8_step callback (fuel - 1) state lead read (by omega)
    rw [show fuel - 1 + 1 = fuel by omega] at step
    exact step
  · have plain : ∀ byte ∈ Unicode.encode unit.toNat, byte.toNat < 0xE0 := by
      intro byte mem
      by_cases one : unit.toNat ≤ 0x7F
      · rw [Unicode.encode_of_le_one one, List.mem_singleton] at mem
        rw [mem, UInt8.toNat_ofNat']
        omega
      · rw [Unicode.encode_of_le_two (by omega) (by omega)] at mem
        simp only [List.mem_cons, List.not_mem_nil, or_false] at mem
        rcases mem with rfl | rfl <;> rw [UInt8.toNat_ofNat'] <;> omega
    refine ⟨fuel - (Unicode.encode unit.toNat).length, by omega, ?_⟩
    have step := iterateUtf8_plain callback
      (fuel - (Unicode.encode unit.toNat).length) plain tail state
    rw [show (Unicode.encode unit.toNat).length +
      (fuel - (Unicode.encode unit.toNat).length) = fuel by omega] at step
    exact step

/-- The callback sees the UTF-8 form of the string: the surrogates of a pair are joined,
and an unpaired one passes through. -/
theorem iterateUtf8_eq (callback : ℕ → State → Native Script State) (units : List CodeUnit)
    {fuel : ℕ} (enough : (Unicode.cesu8 units).length ≤ fuel) (state : State) :
    iterateUtf8 callback fuel (Unicode.cesu8 units) state =
      (utf8 units).foldlM (fun state byte => callback byte.toNat state) state := by
  induction units using Unicode.codePoints.induct generalizing fuel state with
  | case1 => cases fuel <;> simp [iterateUtf8]
  | case2 unit =>
      have read := litReadCodePointFromCesu8_last unit.toNat_lt
      rw [← List.append_nil (Unicode.encode unit.toNat)] at read
      simp only [Unicode.cesu8_cons, Unicode.cesu8_nil, List.append_nil] at enough ⊢
      rcases iterateUtf8_unit callback unit [] state (by simpa using read)
        (by simpa using enough) with ⟨remaining, _, step⟩
      rw [List.append_nil] at step
      rw [step, Unicode.utf8_singleton]
      cases remaining <;> simp [iterateUtf8]
  | case3 first second rest pair ih =>
      rw [Unicode.utf8_cons_pair pair.1 pair.2, List.foldlM_append]
      rw [Unicode.cesu8_cons, Unicode.cesu8_cons] at enough ⊢
      have read := litReadCodePointFromCesu8_pair pair.1 pair.2 (Unicode.cesu8 rest)
      have firstBound : 0xD800 ≤ first.toNat ∧ first.toNat ≤ 0xDBFF := pair.1
      have bytes : Unicode.encode first.toNat = _ :=
        Unicode.encode_of_le_three (by omega) (by omega)
      have lead : 0xE0 ≤ ((Unicode.encode first.toNat ++
          Unicode.encode second.toNat).headD 0).toNat := by
        rw [bytes, List.cons_append, List.headD_cons, UInt8.toNat_ofNat']
        omega
      have length : (Unicode.encode first.toNat).length = 3 := by rw [bytes]; rfl
      rw [← List.length_append, ← List.append_assoc] at read
      simp only [List.length_append, length] at enough
      have step := iterateUtf8_step callback (fuel - 1) state lead read
        (Unicode.joinSurrogates_upper pair.1 pair.2)
      rw [show fuel - 1 + 1 = fuel by omega, List.append_assoc] at step
      rw [step]
      congr 1
      funext after
      exact ih (by omega) after
  | case4 first second rest notPair ih =>
      have text : utf8 (first :: second :: rest) =
          Unicode.encode first.toNat ++ utf8 (second :: rest) := by
        by_cases isHigh : Unicode.IsHighSurrogate first.toNat
        · exact Unicode.utf8_cons_of_not_low (fun isLow => notPair ⟨isHigh, isLow⟩) rest
        · exact Unicode.utf8_cons_of_not_high isHigh (second :: rest)
      have read : litReadCodePointFromCesu8
          (Unicode.encode first.toNat ++ Unicode.cesu8 (second :: rest)) =
            some (first.toNat, (Unicode.encode first.toNat).length) := by
        by_cases isHigh : Unicode.IsHighSurrogate first.toNat
        · exact litReadCodePointFromCesu8_of_not_low first.toNat_lt second.toNat_lt
            (fun isLow => notPair ⟨isHigh, isLow⟩) (Unicode.cesu8 rest)
        · exact litReadCodePointFromCesu8_of_not_high first.toNat_lt isHigh _
      rw [text, List.foldlM_append, Unicode.cesu8_cons first] at *
      rw [List.length_append] at enough
      rcases iterateUtf8_unit callback first _ state read enough with ⟨remaining, left, step⟩
      rw [step]
      congr 1
      funext after
      exact ih left after

section PrintString

variable {size : ℕ} (positive : 0 < size)

/-- The buffers handed over for one string. -/
def stringBuffers (units : List CodeUnit) : List (List UInt8) :=
  let received := (OpenBuffer.start positive).receiveAll (utf8 units)
  received.1 ++ [received.2.val.contents]

/-- However the bytes are cut into buffers, they are the text of the string. -/
theorem stringBuffers_flatten (units : List CodeUnit) :
    (stringBuffers positive units).flatten = printedText units := by
  have law := (OpenBuffer.start positive).receiveAll_flatten (utf8 units)
  have empty : (OpenBuffer.start positive).val.contents = [] := by
    simp [OpenBuffer.start, PrintBuffer.contents]
  rw [empty, List.nil_append, ← printedText_eq_escape] at law
  simpa [stringBuffers] using law

/-- Printing a string hands its text over and releases the string before the last
buffer goes out. -/
theorem printString_eq (string : EcmaString) :
    (printString size (storeValue size) (.string string) : Native Script EcmaValue) = (do
      touch string.references
      printAll ((OpenBuffer.start positive).receiveAll (utf8 string.units)).1
      release string.references
      jerryPortPrintBuffer
        ((OpenBuffer.start positive).receiveAll (utf8 string.units)).2.val.contents
      return .undefined) := by
  have iterated : iterateUtf8 (storeValue size) _ _ _ = (_ : Native Script _) :=
    iterateUtf8_eq (storeValue size) string.units (le_refl _)
      (OpenBuffer.start positive).val
  rw [foldlM_storeValue] at iterated
  have begun : (⟨0, Vector.replicate size 0⟩ : PrintBuffer size) =
    (OpenBuffer.start positive).val := rfl
  rw [printString, begun, jerryStringIterate, EcmaString.bytes]
  simp only [iterated, bind_assoc, pure_bind, jerryValueFree, EcmaValue.references_string]

end PrintString

end Native

end Cmsframe
