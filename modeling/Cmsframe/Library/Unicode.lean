import Mathlib.Data.List.Basic
import Mathlib.Tactic.Common
import Mathlib.Tactic.IntervalCases

/-!
# UTF-16 code units and their byte encodings

A script string is any sequence of 16-bit code units, surrogates in any order
included. Two byte forms of such a sequence matter. CESU-8 encodes each code
unit by itself, so a surrogate pair takes six bytes; generalized UTF-8 first
merges each surrogate pair into one code point, and agrees with UTF-8 proper
exactly where no surrogate is left alone.

`encode` is the one encoding formula, on all numbers below 2^21. On scalar
values it is the encoding of `String.utf8EncodeChar`, through which
well-formedness of UTF-8 is stated.
-/

namespace Unicode

/-- One unit of a UTF-16 string. -/
abbrev CodeUnit := UInt16

/-- The first half of a surrogate pair. -/
def IsHighSurrogate (value : ℕ) : Prop := 0xD800 ≤ value ∧ value ≤ 0xDBFF

/-- The second half of a surrogate pair. -/
def IsLowSurrogate (value : ℕ) : Prop := 0xDC00 ≤ value ∧ value ≤ 0xDFFF

instance (value : ℕ) : Decidable (IsHighSurrogate value) :=
  inferInstanceAs (Decidable (_ ∧ _))

instance (value : ℕ) : Decidable (IsLowSurrogate value) :=
  inferInstanceAs (Decidable (_ ∧ _))

/-- The code point a surrogate pair stands for. -/
def joinSurrogates (high low : ℕ) : ℕ :=
  0x10000 + (high - 0xD800) * 0x400 + (low - 0xDC00)

/-- The one- to four-byte form of a number below 2^21. -/
def encode (value : ℕ) : List UInt8 :=
  if value ≤ 0x7F then
    [UInt8.ofNat value]
  else if value ≤ 0x7FF then
    [UInt8.ofNat (value / 64 % 0x20 + 0xC0), UInt8.ofNat (value % 0x40 + 0x80)]
  else if value ≤ 0xFFFF then
    [UInt8.ofNat (value / 4096 % 0x10 + 0xE0), UInt8.ofNat (value / 64 % 0x40 + 0x80),
      UInt8.ofNat (value % 0x40 + 0x80)]
  else
    [UInt8.ofNat (value / 262144 % 0x08 + 0xF0), UInt8.ofNat (value / 4096 % 0x40 + 0x80),
      UInt8.ofNat (value / 64 % 0x40 + 0x80), UInt8.ofNat (value % 0x40 + 0x80)]

theorem encode_toNat (character : Char) :
    encode character.toNat = String.utf8EncodeChar character := rfl

theorem encode_ne_nil (value : ℕ) : encode value ≠ [] := by
  unfold encode
  split_ifs <;> simp

theorem encode_of_le_one {value : ℕ} (bound : value ≤ 0x7F) :
    encode value = [UInt8.ofNat value] := by
  simp [encode, bound]

theorem encode_of_le_two {value : ℕ} (lower : 0x7F < value) (upper : value ≤ 0x7FF) :
    encode value = [UInt8.ofNat (value / 64 + 0xC0), UInt8.ofNat (value % 64 + 0x80)] := by
  have small : value / 64 % 0x20 = value / 64 := by omega
  simp [encode, small, show ¬value ≤ 0x7F by omega, upper]

theorem encode_of_le_three {value : ℕ} (lower : 0x7FF < value) (upper : value ≤ 0xFFFF) :
    encode value = [UInt8.ofNat (value / 4096 + 0xE0), UInt8.ofNat (value / 64 % 64 + 0x80),
      UInt8.ofNat (value % 64 + 0x80)] := by
  have small : value / 4096 % 0x10 = value / 4096 := by omega
  simp [encode, small, show ¬value ≤ 0x7F by omega, show ¬value ≤ 0x7FF by omega, upper]

theorem encode_of_le_four {value : ℕ} (lower : 0xFFFF < value) (upper : value ≤ 0x10FFFF) :
    encode value = [UInt8.ofNat (value / 262144 + 0xF0),
      UInt8.ofNat (value / 4096 % 64 + 0x80), UInt8.ofNat (value / 64 % 64 + 0x80),
      UInt8.ofNat (value % 64 + 0x80)] := by
  have small : value / 262144 % 0x08 = value / 262144 := by omega
  simp [encode, small, show ¬value ≤ 0x7F by omega, show ¬value ≤ 0x7FF by omega,
    show ¬value ≤ 0xFFFF by omega]

/-- No byte of an encoded number is smaller than both the number and 0x80: only
the number itself, encoded in one byte, can yield a control character. -/
theorem le_of_mem_encode {value limit : ℕ} (above : limit ≤ value) (small : limit ≤ 0x80)
    {byte : UInt8} (mem : byte ∈ encode value) : limit ≤ byte.toNat := by
  unfold encode at mem
  split_ifs at mem <;>
    simp only [List.mem_cons, List.not_mem_nil, or_false] at mem <;>
    rcases mem with rfl | rfl | rfl | rfl <;>
    simp only [UInt8.toNat_ofNat'] <;> omega

/-- CESU-8: every code unit encoded by itself. -/
def cesu8 (units : List CodeUnit) : List UInt8 :=
  units.flatMap fun unit => encode unit.toNat

@[simp]
theorem cesu8_nil : cesu8 [] = [] := rfl

@[simp]
theorem cesu8_cons (unit : CodeUnit) (units : List CodeUnit) :
    cesu8 (unit :: units) = encode unit.toNat ++ cesu8 units := rfl

@[simp]
theorem cesu8_append (left right : List CodeUnit) :
    cesu8 (left ++ right) = cesu8 left ++ cesu8 right := by
  simp [cesu8]

/-- ASCII bytes as code units. -/
def asciiUnits (bytes : List UInt8) : List CodeUnit :=
  bytes.map fun byte => UInt16.ofNat byte.toNat

theorem ascii_of_all {bytes : List UInt8} (all : bytes.all fun byte => byte.toNat < 0x80) :
    ∀ byte ∈ bytes, byte.toNat < 0x80 := by
  simpa using all

theorem cesu8_asciiUnits {bytes : List UInt8} (ascii : ∀ byte ∈ bytes, byte.toNat < 0x80) :
    cesu8 (asciiUnits bytes) = bytes := by
  induction bytes with
  | nil => rfl
  | cons byte bytes ih =>
      have small : byte.toNat < 0x80 := ascii byte (by simp)
      have rest := ih fun other mem => ascii other (by simp [mem])
      have same : (UInt16.ofNat byte.toNat).toNat = byte.toNat := by
        simp only [UInt16.toNat_ofNat']
        omega
      simp only [asciiUnits, List.map_cons, cesu8_cons, same] at rest ⊢
      rw [rest, encode_of_le_one (by omega)]
      simp

/-- A number whose encoding has an ASCII first byte is encoded by that byte alone. -/
theorem le_of_encode_ascii {value : ℕ}
    (ascii : ∀ byte ∈ encode value, byte.toNat < 0x80) : value ≤ 0x7F := by
  by_contra large
  unfold encode at ascii
  split_ifs at ascii with two three
  · have first := ascii _ (List.mem_cons_self ..)
    simp only [UInt8.toNat_ofNat'] at first
    omega
  · have first := ascii _ (List.mem_cons_self ..)
    simp only [UInt8.toNat_ofNat'] at first
    omega
  · have first := ascii _ (List.mem_cons_self ..)
    simp only [UInt8.toNat_ofNat'] at first
    omega

/-- Code units whose CESU-8 bytes are all ASCII are these bytes. -/
theorem asciiUnits_cesu8 {units : List CodeUnit}
    (ascii : ∀ byte ∈ cesu8 units, byte.toNat < 0x80) : asciiUnits (cesu8 units) = units := by
  induction units with
  | nil => rfl
  | cons unit units ih =>
      have rest := ih fun byte mem => ascii byte (by simp [mem])
      have small : unit.toNat ≤ 0x7F :=
        le_of_encode_ascii fun byte mem => ascii byte (by simp [mem])
      have same : (UInt8.ofNat unit.toNat).toNat = unit.toNat := by
        simp only [UInt8.toNat_ofNat']
        omega
      rw [cesu8_cons, encode_of_le_one small]
      simp only [asciiUnits, List.cons_append, List.nil_append, List.map_cons, same] at rest ⊢
      rw [rest]
      simp

/-- The code points of a sequence of code units: surrogate pairs are merged, every
other unit stands for itself. -/
def codePoints : List CodeUnit → List ℕ
  | [] => []
  | [unit] => [unit.toNat]
  | first :: second :: rest =>
      if IsHighSurrogate first.toNat ∧ IsLowSurrogate second.toNat then
        joinSurrogates first.toNat second.toNat :: codePoints rest
      else
        first.toNat :: codePoints (second :: rest)

theorem codePoints_cons_of_not_high {unit : CodeUnit}
    (plain : ¬IsHighSurrogate unit.toNat) (units : List CodeUnit) :
    codePoints (unit :: units) = unit.toNat :: codePoints units := by
  cases units with
  | nil => rfl
  | cons next rest => rw [codePoints, if_neg fun pair => plain pair.1]

/-- A unit that is not the second half of a pair begins a code point. -/
theorem codePoints_append_of_not_low (units : List CodeUnit) {next : CodeUnit}
    (plain : ¬IsLowSurrogate next.toNat) (rest : List CodeUnit) :
    codePoints (units ++ next :: rest) = codePoints units ++ codePoints (next :: rest) := by
  induction units using codePoints.induct with
  | case1 => rfl
  | case2 unit =>
      have notPair : ¬(IsHighSurrogate unit.toNat ∧ IsLowSurrogate next.toNat) :=
        fun pair => plain pair.2
      simp [codePoints, notPair]
  | case3 first second units pair ih =>
      rw [List.cons_append, List.cons_append, codePoints, if_pos pair, ih, codePoints,
        if_pos pair, List.cons_append]
  | case4 first second units notPair ih =>
      rw [List.cons_append] at ih
      rw [List.cons_append, List.cons_append, codePoints, if_neg notPair, ih, codePoints,
        if_neg notPair, List.cons_append]

theorem toNat_asciiUnit {byte : UInt8} : (UInt16.ofNat byte.toNat).toNat = byte.toNat := by
  have bound : byte.toNat < 256 := byte.toNat_lt
  simp only [UInt16.toNat_ofNat']
  omega

/-- ASCII text in front of a string is decoded by itself. -/
theorem codePoints_asciiUnits_append {bytes : List UInt8}
    (ascii : ∀ byte ∈ bytes, byte.toNat < 0x80) (units : List CodeUnit) :
    codePoints (asciiUnits bytes ++ units) = bytes.map UInt8.toNat ++ codePoints units := by
  induction bytes with
  | nil => rfl
  | cons byte bytes ih =>
      have small : byte.toNat < 0x80 := ascii byte List.mem_cons_self
      have notHigh : ¬IsHighSurrogate (UInt16.ofNat byte.toNat).toNat := by
        rw [toNat_asciiUnit]
        unfold IsHighSurrogate
        omega
      have rest := ih fun other mem => ascii other (List.mem_cons_of_mem byte mem)
      rw [asciiUnits, List.map_cons, List.cons_append, codePoints_cons_of_not_high notHigh,
        toNat_asciiUnit, ← asciiUnits, rest]
      rfl

/-- ASCII text behind a string is decoded by itself. -/
theorem codePoints_append_asciiUnits (units : List CodeUnit) {bytes : List UInt8}
    (ascii : ∀ byte ∈ bytes, byte.toNat < 0x80) :
    codePoints (units ++ asciiUnits bytes) = codePoints units ++ codePoints (asciiUnits bytes) := by
  cases bytes with
  | nil => simp [asciiUnits, codePoints]
  | cons byte bytes =>
      apply codePoints_append_of_not_low
      have small : byte.toNat < 0x80 := ascii byte List.mem_cons_self
      rw [toNat_asciiUnit]
      unfold IsLowSurrogate
      omega

/-- Generalized UTF-8: the code points encoded one by one. -/
def utf8 (units : List CodeUnit) : List UInt8 :=
  (codePoints units).flatMap encode

@[simp]
theorem utf8_nil : utf8 [] = [] := rfl

theorem utf8_cons_of_not_high {unit : CodeUnit} (plain : ¬IsHighSurrogate unit.toNat)
    (units : List CodeUnit) : utf8 (unit :: units) = encode unit.toNat ++ utf8 units := by
  cases units with
  | nil => simp [utf8, codePoints]
  | cons next rest => simp [utf8, codePoints, plain]

theorem utf8_singleton (unit : CodeUnit) : utf8 [unit] = encode unit.toNat := by
  simp [utf8, codePoints]

theorem utf8_cons_of_not_low {unit next : CodeUnit} (plain : ¬IsLowSurrogate next.toNat)
    (rest : List CodeUnit) :
    utf8 (unit :: next :: rest) = encode unit.toNat ++ utf8 (next :: rest) := by
  simp [utf8, codePoints, plain]

theorem utf8_cons_pair {high low : CodeUnit} (isHigh : IsHighSurrogate high.toNat)
    (isLow : IsLowSurrogate low.toNat) (rest : List CodeUnit) :
    utf8 (high :: low :: rest) =
      encode (joinSurrogates high.toNat low.toNat) ++ utf8 rest := by
  simp [utf8, codePoints, isHigh, isLow]

theorem utf8_asciiUnits_append {bytes : List UInt8}
    (ascii : ∀ byte ∈ bytes, byte.toNat < 0x80) (units : List CodeUnit) :
    utf8 (asciiUnits bytes ++ units) = bytes ++ utf8 units := by
  have bytesBack : (bytes.map UInt8.toNat).flatMap encode = bytes := by
    rw [List.flatMap_map]
    calc bytes.flatMap (fun byte => encode byte.toNat) = bytes.flatMap fun byte => [byte] := by
          apply List.flatMap_congr
          intro byte mem
          have small := ascii byte mem
          rw [encode_of_le_one (by omega), UInt8.ofNat_toNat]
      _ = bytes := List.flatMap_singleton' bytes
  rw [utf8, codePoints_asciiUnits_append ascii, List.flatMap_append, bytesBack, utf8]

/-- A string is encoded on its own in front of a code unit that no pair ends with. -/
theorem utf8_append_of_not_low (units : List CodeUnit) {next : CodeUnit}
    (plain : ¬IsLowSurrogate next.toNat) (rest : List CodeUnit) :
    utf8 (units ++ next :: rest) = utf8 units ++ utf8 (next :: rest) := by
  rw [utf8, codePoints_append_of_not_low units plain, List.flatMap_append, utf8, utf8]

/-- Every surrogate of the sequence belongs to a pair. -/
inductive Paired : List CodeUnit → Prop where
  | nil : Paired []
  | unit {unit : CodeUnit} {units : List CodeUnit}
      (notHigh : ¬IsHighSurrogate unit.toNat) (notLow : ¬IsLowSurrogate unit.toNat)
      (rest : Paired units) : Paired (unit :: units)
  | pair {high low : CodeUnit} {units : List CodeUnit}
      (isHigh : IsHighSurrogate high.toNat) (isLow : IsLowSurrogate low.toNat)
      (rest : Paired units) : Paired (high :: low :: units)

theorem Paired.append {left right : List CodeUnit} (pairedLeft : Paired left)
    (pairedRight : Paired right) : Paired (left ++ right) := by
  induction pairedLeft with
  | nil => exact pairedRight
  | unit notHigh notLow _ ih => exact .unit notHigh notLow ih
  | pair isHigh isLow _ ih => exact .pair isHigh isLow ih

/-- The UTF-16 form of a text. -/
def utf16 (text : List Char) : List CodeUnit :=
  text.flatMap fun character =>
    if character.toNat ≤ 0xFFFF then
      [UInt16.ofNat character.toNat]
    else
      [UInt16.ofNat (0xD800 + (character.toNat - 0x10000) / 0x400),
        UInt16.ofNat (0xDC00 + (character.toNat - 0x10000) % 0x400)]

@[simp]
theorem utf16_nil : utf16 [] = [] := rfl

theorem utf16_cons_small {character : Char} (small : character.toNat ≤ 0xFFFF)
    (text : List Char) :
    utf16 (character :: text) = UInt16.ofNat character.toNat :: utf16 text := by
  simp [utf16, small]

theorem utf16_cons_large {character : Char} (large : ¬character.toNat ≤ 0xFFFF)
    (text : List Char) :
    utf16 (character :: text) =
      UInt16.ofNat (0xD800 + (character.toNat - 0x10000) / 0x400) ::
        UInt16.ofNat (0xDC00 + (character.toNat - 0x10000) % 0x400) :: utf16 text := by
  simp [utf16, large]

theorem joinSurrogates_lower (high low : ℕ) : 0xFFFF < joinSurrogates high low := by
  unfold joinSurrogates
  omega

theorem joinSurrogates_upper {high low : ℕ} (isHigh : IsHighSurrogate high)
    (isLow : IsLowSurrogate low) : joinSurrogates high low ≤ 0x10FFFF := by
  unfold joinSurrogates
  unfold IsHighSurrogate at isHigh
  unfold IsLowSurrogate at isLow
  omega

/-- A sequence without lone surrogates is the UTF-16 form of a text, and its
generalized UTF-8 form is the UTF-8 form of that text. -/
theorem Paired.exists_text {units : List CodeUnit} (paired : Paired units) :
    ∃ text : List Char,
      utf16 text = units ∧ utf8 units = text.flatMap String.utf8EncodeChar := by
  induction paired with
  | nil => exact ⟨[], rfl, rfl⟩
  | @unit unit units notHigh notLow _ ih =>
      rcases ih with ⟨text, sameUnits, sameBytes⟩
      have bound : unit.toNat < 65536 := unit.toNat_lt
      have scalar : Nat.isValidChar unit.toNat := by
        unfold IsHighSurrogate at notHigh
        unfold IsLowSurrogate at notLow
        unfold Nat.isValidChar
        omega
      have value : (Char.ofNatAux unit.toNat scalar).toNat = unit.toNat := rfl
      refine ⟨Char.ofNatAux unit.toNat scalar :: text, ?_, ?_⟩
      · rw [utf16_cons_small (by rw [value]; omega), value, sameUnits]
        simp
      · rw [utf8_cons_of_not_high notHigh, sameBytes, List.flatMap_cons, ← encode_toNat, value]
  | @pair high low units isHigh isLow _ ih =>
      rcases ih with ⟨text, sameUnits, sameBytes⟩
      have lower := joinSurrogates_lower high.toNat low.toNat
      have scalar : Nat.isValidChar (joinSurrogates high.toNat low.toNat) := by
        have upper := joinSurrogates_upper isHigh isLow
        unfold Nat.isValidChar
        omega
      have value : (Char.ofNatAux _ scalar).toNat = joinSurrogates high.toNat low.toNat := rfl
      refine ⟨Char.ofNatAux _ scalar :: text, ?_, ?_⟩
      · rw [utf16_cons_large (by rw [value]; omega), value, sameUnits]
        unfold IsHighSurrogate at isHigh
        unfold IsLowSurrogate at isLow
        have highBack : 0xD800 + (joinSurrogates high.toNat low.toNat - 0x10000) / 0x400 =
            high.toNat := by
          unfold joinSurrogates
          omega
        have lowBack : 0xDC00 + (joinSurrogates high.toNat low.toNat - 0x10000) % 0x400 =
            low.toNat := by
          unfold joinSurrogates
          omega
        rw [highBack, lowBack]
        simp
      · rw [utf8_cons_pair isHigh isLow, sameBytes, List.flatMap_cons, ← encode_toNat, value]

/-- UTF-8 determines the text. -/
theorem utf8EncodeChar_injective {text other : List Char}
    (same : text.flatMap String.utf8EncodeChar = other.flatMap String.utf8EncodeChar) :
    text = other := by
  have encoded : text.utf8Encode = other.utf8Encode := congrArg List.toByteArray same
  have decoded := congrArg ByteArray.utf8Decode? encoded
  simpa using decoded

/-- The generalized UTF-8 form has no byte below `limit` if no code unit is. -/
theorem le_of_mem_utf8 {units : List CodeUnit} {limit : ℕ} (small : limit ≤ 0x80)
    (above : ∀ unit ∈ units, limit ≤ unit.toNat) {byte : UInt8} (mem : byte ∈ utf8 units) :
    limit ≤ byte.toNat := by
  simp only [utf8, List.mem_flatMap] at mem
  rcases mem with ⟨value, valueMem, byteMem⟩
  refine le_of_mem_encode ?_ small byteMem
  clear byteMem
  induction units using codePoints.induct with
  | case1 => simp [codePoints] at valueMem
  | case2 unit =>
      simp only [codePoints, List.mem_singleton] at valueMem
      exact valueMem ▸ above unit (by simp)
  | case3 first second rest pair ih =>
      simp only [codePoints, pair, and_self, if_true, List.mem_cons] at valueMem
      rcases valueMem with merged | valueMem
      · have lower := joinSurrogates_lower first.toNat second.toNat
        rw [merged]
        omega
      · exact ih (fun unit unitMem => above unit (by simp [unitMem])) valueMem
  | case4 first second rest noPair ih =>
      simp only [codePoints, noPair, if_false, List.mem_cons] at valueMem
      rcases valueMem with rfl | valueMem
      · exact above first (by simp)
      · exact ih (fun unit unitMem => above unit (by simp at unitMem ⊢; tauto)) valueMem

end Unicode
