import Cmsframe.Log.Rendering

/-!
# The logger shows the rendering

The loop of `jerry_log` with its buffer against the rendering of the format: a step lemma for
each turn, and both directions by induction.
-/

namespace Cmsframe

open CString (upToNul upToNul_eq_self)

/-- The strings that are logged make up the text. -/
def Shows (result : Except LogFault (List (List UInt8))) (shown : List UInt8) : Prop :=
  ∃ texts, result = .ok texts ∧ texts.flatten = shown

theorem shows_prepend {result : Except LogFault (List (List UInt8))} {first shown : List UInt8} :
    Shows (do let later ← result; return first :: later) shown ↔
      ∃ rest, Shows result rest ∧ shown = first ++ rest := by
  constructor
  · rintro ⟨texts, same, rfl⟩
    cases result with
    | error fault => cases same
    | ok later =>
        cases same
        exact ⟨later.flatten, ⟨later, rfl, rfl⟩, List.flatten_cons⟩
  · rintro ⟨rest, ⟨later, rfl, rfl⟩, rfl⟩
    exact ⟨first :: later, rfl, List.flatten_cons⟩

theorem ok_bind {First Second : Type} (value : First)
    (continuation : First → Except LogFault Second) :
    (.ok value : Except LogFault First) >>= continuation = continuation value := rfl

section Substitution

variable {modifiers : LogModifiers} {specifier : UInt8} {arguments others : List LogArgument}

theorem bits_bounds (bits : BitVec 32) :
    bits.toNat < 2 ^ 32 ∧ -2 ^ 31 ≤ bits.toInt ∧ bits.toInt < 2 ^ 31 := by
  refine ⟨bits.isLt, ?_, ?_⟩
  · have bound := @BitVec.le_toInt 32 bits
    omega
  · have bound := @BitVec.toInt_lt 32 bits
    omega

theorem logNumber_signed {bits : BitVec 32} (notNul : modifiers.padding ≠ 0)
    (negates : bits.toInt ≠ -2 ^ 31) (fits : modifiers.width ≤ 63) :
    logNumber (jerryFormatInt bits.toInt modifiers.width modifiers.padding) =
      .ok [numberText modifiers.padding modifiers.width bits.toInt] := by
  rcases bits_bounds bits with ⟨_, above, below⟩
  rcases @jerryFormatInt_eq modifiers.padding modifiers.width bits.toInt (by omega) below fits with
    ⟨cursor, formatted⟩
  rw [formatted]
  exact logNumber_eq (zero_notMem_numberText notNul _ _)

theorem logNumber_unsigned {bits : BitVec 32} {radix : ℕ} (isRadix : radix = 10 ∨ radix = 16)
    (notNul : modifiers.padding ≠ 0) (fits : modifiers.width ≤ 63) :
    logNumber (jerryFormatUnsigned bits.toNat modifiers.width modifiers.padding radix) =
      .ok [Radix.padded modifiers.padding modifiers.width (Radix.text radix bits.toNat)] := by
  rw [jerryFormatUnsigned_eq isRadix bits.isLt fits]
  exact logNumber_eq (zero_notMem_padded notNul (zero_notMem_text (by omega) (by omega)))

theorem logNumber_signed_fits {bits : BitVec 32} {texts : List (List UInt8)}
    (logged : logNumber (jerryFormatInt bits.toInt modifiers.width modifiers.padding) = .ok texts) :
    bits.toInt ≠ -2 ^ 31 ∧ modifiers.width ≤ 63 := by
  rcases bits_bounds bits with ⟨_, above, below⟩
  by_cases least : bits.toInt = -2 ^ 31
  · rw [jerryFormatInt, if_neg (by omega), if_pos least] at logged
    cases logged
  · refine ⟨least, ?_⟩
    by_contra wide
    rw [jerryFormatInt_overrun (by omega) below (by omega)] at logged
    cases logged

theorem logNumber_unsigned_fits {bits : BitVec 32} {radix : ℕ}
    (isRadix : radix = 10 ∨ radix = 16) {texts : List (List UInt8)}
    (logged : logNumber (jerryFormatUnsigned bits.toNat modifiers.width modifiers.padding radix) =
      .ok texts) : modifiers.width ≤ 63 := by
  by_contra wide
  rw [jerryFormatUnsigned_overrun isRadix bits.isLt (by omega)] at logged
  cases logged

/-- A substitution that is defined logs the text of the specifier, or holds it as a character. -/
theorem substitute_complete {shown : List UInt8} (notNul : modifiers.padding ≠ 0)
    (substitutes : Substitutes modifiers specifier arguments shown others) :
    ∃ texts held, substitute modifiers specifier arguments = .ok (texts, held, others) ∧
      held.length ≤ 1 ∧ 0 ∉ held ∧ texts.flatten ++ held = shown := by
  cases substitutes with
  | @string memory _ whole terminated =>
      refine ⟨[upToNul memory], [], ?_, by simp, by simp, by simp⟩
      have logged : jerryLogString memory = .ok (upToNul memory) := if_pos terminated
      simp only [substitute, if_true, nextPointer, pure_bind, whole, logged]
      rfl
  | @fixedString memory _ isFixed inside =>
      rcases jerryLogStringFixed_eq (Nat.lt_succ_self modifiers.precision) inside with
        ⟨texts, logged, shown⟩
      refine ⟨texts, [], ?_, by simp, by simp, by simp [shown]⟩
      simp only [substitute, if_true, nextPointer, pure_bind, if_neg isFixed, logged]
      rfl
  | @character bits _ notZero =>
      exact ⟨[], [UInt8.ofNat bits.toNat], rfl, by simp, by simpa using notZero.symm, rfl⟩
  | @signed bits _ negates fits =>
      have logged := logNumber_signed notNul negates fits
      refine ⟨[numberText modifiers.padding modifiers.width bits.toInt], [], ?_, by simp, by simp,
        by simp⟩
      change (logNumber _ >>= _) = _
      rw [logged]
      rfl
  | @unsigned bits _ fits =>
      have logged := @logNumber_unsigned modifiers bits 10 (.inl rfl) notNul fits
      refine ⟨[Radix.padded modifiers.padding modifiers.width (Radix.text 10 bits.toNat)], [], ?_,
        by simp, by simp, by simp⟩
      change (logNumber _ >>= _) = _
      rw [logged]
      rfl
  | @hexadecimal bits _ fits =>
      have logged := @logNumber_unsigned modifiers bits 16 (.inr rfl) notNul fits
      refine ⟨[Radix.padded modifiers.padding modifiers.width (Radix.text 16 bits.toNat)], [], ?_,
        by simp, by simp, by simp⟩
      change (logNumber _ >>= _) = _
      rw [logged]
      rfl
  | unknown isUnknown =>
      simp only [List.mem_cons, List.not_mem_nil, or_false, not_or] at isUnknown
      rcases isUnknown with ⟨string, character, signed, unsigned, hexadecimal⟩
      refine ⟨[], [0x25], ?_, by simp, by simp, rfl⟩
      rw [substitute, if_neg string, if_neg character, if_neg signed, if_neg unsigned,
        if_neg hexadecimal]
      rfl

/-- What a substitution without a fault has done. -/
theorem substitute_sound {texts : List (List UInt8)} {held : List UInt8}
    (notNul : modifiers.padding ≠ 0)
    (result : substitute modifiers specifier arguments = .ok (texts, held, others)) :
    (0 ∉ held ∧ held.length ≤ 1 ∧
        Substitutes modifiers specifier arguments (texts.flatten ++ held) others) ∨
      ∃ bits, specifier = 0x63 ∧ arguments = .word bits :: others ∧ UInt8.ofNat bits.toNat = 0 ∧
        texts = [] ∧ held = [0] := by
  rw [substitute] at result
  split_ifs at result with isString whole isCharacter isSigned isUnsigned isHexadecimal
  · subst isString
    left
    rcases ok_of_bind result with ⟨⟨memory, behind⟩, next, result⟩
    obtain rfl := nextPointer_ok next
    change (jerryLogString memory >>= _) = _ at result
    rcases ok_of_bind result with ⟨logged, string, result⟩
    cases result
    by_cases terminated : 0 ∈ memory
    · rw [jerryLogString, if_pos terminated] at string
      cases string
      refine ⟨by simp, by simp, ?_⟩
      rw [List.append_nil, List.flatten_singleton]
      exact .string whole terminated
    · rw [jerryLogString, if_neg terminated] at string
      cases string
  · subst isString
    left
    rcases ok_of_bind result with ⟨⟨memory, behind⟩, next, result⟩
    obtain rfl := nextPointer_ok next
    change (jerryLogStringFixed (modifiers.precision + 1) memory modifiers.precision >>= _) = _
      at result
    rcases ok_of_bind result with ⟨logged, strings, result⟩
    cases result
    by_cases inside : modifiers.precision ≤ memory.length
    · rcases jerryLogStringFixed_eq (Nat.lt_succ_self modifiers.precision) inside with
        ⟨batches, same, shown⟩
      obtain rfl := Except.ok.inj (strings.symm.trans same)
      refine ⟨by simp, by simp, ?_⟩
      rw [List.append_nil, shown]
      exact .fixedString whole inside
    · exact absurd strings (jerryLogStringFixed_outside (by omega) texts)
  · subst isCharacter
    rcases ok_of_bind result with ⟨⟨bits, behind⟩, next, result⟩
    obtain rfl := nextWord_ok next
    cases result
    by_cases isNul : UInt8.ofNat bits.toNat = 0
    · exact .inr ⟨bits, rfl, rfl, isNul, rfl, congrArg (fun byte => [byte]) isNul⟩
    · exact .inl ⟨by simpa using fun same => isNul same.symm, by simp, .character isNul⟩
  · subst isSigned
    left
    rcases ok_of_bind result with ⟨⟨bits, behind⟩, next, result⟩
    obtain rfl := nextWord_ok next
    change (logNumber _ >>= _) = _ at result
    rcases ok_of_bind result with ⟨logged, number, result⟩
    cases result
    rcases logNumber_signed_fits number with ⟨negates, fits⟩
    obtain rfl := Except.ok.inj (number.symm.trans (logNumber_signed notNul negates fits))
    refine ⟨by simp, by simp, ?_⟩
    rw [List.append_nil, List.flatten_singleton]
    exact .signed negates fits
  · subst isUnsigned
    left
    rcases ok_of_bind result with ⟨⟨bits, behind⟩, next, result⟩
    obtain rfl := nextWord_ok next
    change (logNumber _ >>= _) = _ at result
    rcases ok_of_bind result with ⟨logged, number, result⟩
    cases result
    have fits := logNumber_unsigned_fits (.inl rfl) number
    obtain rfl := Except.ok.inj (number.symm.trans (logNumber_unsigned (.inl rfl) notNul fits))
    refine ⟨by simp, by simp, ?_⟩
    rw [List.append_nil, List.flatten_singleton]
    exact .unsigned fits
  · subst isHexadecimal
    left
    rcases ok_of_bind result with ⟨⟨bits, behind⟩, next, result⟩
    obtain rfl := nextWord_ok next
    change (logNumber _ >>= _) = _ at result
    rcases ok_of_bind result with ⟨logged, number, result⟩
    cases result
    have fits := logNumber_unsigned_fits (.inr rfl) number
    obtain rfl := Except.ok.inj (number.symm.trans (logNumber_unsigned (.inr rfl) notNul fits))
    refine ⟨by simp, by simp, ?_⟩
    rw [List.append_nil, List.flatten_singleton]
    exact .hexadecimal fits
  · left
    cases result
    refine ⟨by simp, by simp, .unknown ?_⟩
    simp [isString, isCharacter, isSigned, isUnsigned, isHexadecimal]

end Substitution

section Loop

variable {fuel : ℕ} {character : UInt8} {rest held shown : List UInt8}
variable {arguments : List LogArgument}

theorem shows_end (short : held.length ≤ 63) :
    Shows (jerryLogLoop (fuel + 1) [] held arguments) shown ↔ shown = upToNul held := by
  rw [jerryLogLoop]
  split_ifs with notEmpty
  · rw [logHeld_eq short]
    constructor
    · rintro ⟨texts, same, rfl⟩
      cases same
      exact List.flatten_singleton
    · rintro rfl
      exact ⟨[upToNul held], rfl, List.flatten_singleton⟩
  · obtain rfl : held = [] := List.length_eq_zero_iff.mp (by omega)
    constructor
    · rintro ⟨texts, same, rfl⟩
      cases same
      rfl
    · rintro rfl
      exact ⟨[], rfl, rfl⟩

/-- A character is held in the buffer. -/
theorem jerryLogLoop_hold (notMark : character ≠ 0x25) (short : held.length ≤ 62) :
    jerryLogLoop (fuel + 1) (character :: rest) held arguments =
      jerryLogLoop fuel rest (held ++ [character]) arguments := by
  have size : jerryLogBufferSize = 64 := rfl
  have stored : storeByte held character = .ok (held ++ [character]) := by
    rw [storeByte, if_pos (by omega)]
    rfl
  rw [jerryLogLoop, if_neg notMark, if_neg (by omega), stored]
  rfl

/-- A full buffer is logged in front of the next character. -/
theorem shows_full (notMark : character ≠ 0x25) (full : held.length = 63) :
    Shows (jerryLogLoop (fuel + 1) (character :: rest) held arguments) shown ↔
      ∃ behind, Shows (jerryLogLoop fuel rest [character] arguments) behind ∧
        shown = upToNul held ++ behind := by
  have size : jerryLogBufferSize = 64 := rfl
  rw [jerryLogLoop, if_neg notMark, if_pos (by omega), logHeld_eq (by omega)]
  exact shows_prepend

/-- A percent sign at the end of the format. -/
theorem shows_lastMark {modifiers : LogModifiers} {others : List LogArgument}
    (short : held.length ≤ 63) (read : readModifiers rest arguments = .ok (modifiers, [], others)) :
    Shows (jerryLogLoop (fuel + 1) (0x25 :: rest) held arguments) shown ↔
      shown = upToNul held ++ [0x25] := by
  have mark : logHeld [0x25] = .ok [0x25] := logHeld_eq (by simp)
  rw [jerryLogLoop, if_pos rfl, logHeld_eq short, ok_bind, read, ok_bind]
  simp only [mark, ok_bind]
  constructor
  · rintro ⟨texts, same, rfl⟩
    cases same
    simp
  · rintro rfl
    exact ⟨[upToNul held, [0x25]], rfl, by simp⟩

/-- A percent sign with a specifier. -/
theorem shows_directive {modifiers : LogModifiers} {specifier : UInt8} {cursor : List UInt8}
    {others : List LogArgument} (short : held.length ≤ 63)
    (read : readModifiers rest arguments = .ok (modifiers, specifier :: cursor, others)) :
    Shows (jerryLogLoop (fuel + 1) (0x25 :: rest) held arguments) shown ↔
      ∃ texts next behind later, substitute modifiers specifier others = .ok (texts, next, behind) ∧
        Shows (jerryLogLoop fuel cursor next behind) later ∧
        shown = upToNul held ++ (texts.flatten ++ later) := by
  rw [jerryLogLoop, if_pos rfl, logHeld_eq short, ok_bind, read, ok_bind]
  change Shows (substitute modifiers specifier others >>= _) shown ↔ _
  constructor
  · rintro ⟨texts, same, rfl⟩
    rcases ok_of_bind same with ⟨⟨substituted, next, behind⟩, substitution, same⟩
    change (jerryLogLoop fuel cursor next behind >>= _) = _ at same
    rcases ok_of_bind same with ⟨later, logged, same⟩
    cases same
    exact ⟨substituted, next, behind, later.flatten, substitution, ⟨later, logged, rfl⟩, by simp⟩
  · rintro ⟨substituted, next, behind, _, substitution, ⟨later, logged, rfl⟩, rfl⟩
    refine ⟨upToNul held :: substituted ++ later, ?_, by simp⟩
    rw [substitution]
    change (jerryLogLoop fuel cursor next behind >>= _) = _
    rw [logged]
    rfl

theorem upToNul_zero (tail : List UInt8) : upToNul (0 :: tail) = [] := by
  simp [upToNul]

/-- What a zero hides, and the rendering behind. -/
def RendersHidden (room : ℕ) (format : List UInt8) (arguments : List LogArgument)
    (shown : List UInt8) : Prop :=
  ∃ hidden cursor, format = hidden ++ cursor ∧ 0x25 ∉ hidden ∧ hidden.length ≤ room ∧
    (hidden.length = room ∨ ∀ next ∈ cursor.head?, next = 0x25) ∧ Renders cursor arguments shown

theorem RendersHidden.cons {room : ℕ} (notMark : character ≠ 0x25)
    (hides : RendersHidden room rest arguments shown) :
    RendersHidden (room + 1) (character :: rest) arguments shown := by
  rcases hides with ⟨hidden, cursor, rfl, plain, short, ends, renders⟩
  refine ⟨character :: hidden, cursor, rfl, ?_, Nat.succ_le_succ short, ?_, renders⟩
  · simp [plain, notMark.symm]
  · exact ends.imp (congrArg Nat.succ) id

/-- The text that a format shows behind the held bytes, of which only a first zero can be one. -/
def RendersBehind (held format : List UInt8) (arguments : List LogArgument)
    (shown : List UInt8) : Prop :=
  (0 ∉ held → ∃ behind, Renders format arguments behind ∧ shown = held ++ behind) ∧
    ∀ tail, held = 0 :: tail → RendersHidden (62 - tail.length) format arguments shown

theorem not_shows_unread {fault : LogFault} (short : held.length ≤ 63)
    (read : readModifiers rest arguments = .error fault) :
    ¬Shows (jerryLogLoop (fuel + 1) (0x25 :: rest) held arguments) shown := by
  rintro ⟨texts, same, rfl⟩
  rw [jerryLogLoop, if_pos rfl, logHeld_eq short, ok_bind, read] at same
  cases same

/-- In front of a percent sign all that is held goes out. -/
theorem shows_mark (short : held.length ≤ 63) :
    Shows (jerryLogLoop (fuel + 1) (0x25 :: rest) held arguments) shown ↔
      ∃ behind, Shows (jerryLogLoop (fuel + 1) (0x25 :: rest) [] arguments) behind ∧
        shown = upToNul held ++ behind := by
  have empty : ([] : List UInt8).length ≤ 63 := by simp
  cases read : readModifiers rest arguments with
  | error fault =>
      constructor
      · exact fun shows => absurd shows (not_shows_unread short read)
      · rintro ⟨behind, shows, _⟩
        exact absurd shows (not_shows_unread empty read)
  | ok triple =>
      obtain ⟨modifiers, cursor, others⟩ := triple
      cases cursor with
      | nil =>
          rw [shows_lastMark short read]
          simp only [shows_lastMark empty read]
          constructor
          · exact fun same => ⟨[0x25], rfl, same⟩
          · rintro ⟨_, rfl, same⟩
            exact same
      | cons specifier cursor =>
          rw [shows_directive short read]
          simp only [shows_directive empty read]
          constructor
          · rintro ⟨texts, next, behind, later, substitution, shows, same⟩
            exact ⟨texts.flatten ++ later, ⟨texts, next, behind, later, substitution, shows, rfl⟩,
              same⟩
          · rintro ⟨_, ⟨texts, next, behind, later, substitution, shows, rfl⟩, same⟩
            exact ⟨texts, next, behind, later, substitution, shows, same⟩

/-- Whatever the loop shows is a rendering. -/
theorem shows_sound (noNul : 0 ∉ rest) (short : held.length ≤ 63)
    (shows : Shows (jerryLogLoop fuel rest held arguments) shown) :
    RendersBehind held rest arguments shown := by
  induction fuel generalizing rest held arguments shown with
  | zero =>
      rcases shows with ⟨texts, same, _⟩
      cases same
  | succ fuel ih =>
      cases rest with
      | nil =>
          obtain rfl := (shows_end short).mp shows
          constructor
          · intro noNul
            exact ⟨[], .done arguments, by rw [upToNul_eq_self noNul, List.append_nil]⟩
          · rintro tail rfl
            rw [upToNul_zero]
            exact ⟨[], [], rfl, by simp, by simp, .inr (by simp), .done arguments⟩
      | cons character rest =>
          have notNul : 0 ≠ character := fun same => noNul (same ▸ List.mem_cons_self)
          have noNulRest : 0 ∉ rest := fun mem => noNul (List.mem_cons_of_mem _ mem)
          by_cases isMark : character = 0x25
          · subst isMark
            obtain ⟨behind, renders, rfl⟩ : ∃ behind, Renders (0x25 :: rest) arguments behind ∧
                shown = upToNul held ++ behind := by
              cases read : readModifiers rest arguments with
              | error fault => exact absurd shows (not_shows_unread short read)
              | ok triple =>
                  obtain ⟨modifiers, cursor, others⟩ := triple
                  have modifies := readModifiers_iff.mp read
                  rcases modifies.spec with ⟨isSuffix, padding⟩
                  cases cursor with
                  | nil => exact ⟨[0x25], .lastMark modifies, (shows_lastMark short read).mp shows⟩
                  | cons specifier cursor =>
                      rcases (shows_directive short read).mp shows with
                        ⟨texts, next, behind, later, substitution, shows, same⟩
                      have noNulCursor : 0 ∉ cursor := fun mem =>
                        noNulRest (isSuffix.subset (List.mem_cons_of_mem _ mem))
                      refine ⟨texts.flatten ++ later, ?_, same⟩
                      rcases substitute_sound padding substitution with
                        ⟨noZero, one, substitutes⟩ | ⟨bits, rfl, rfl, isNul, rfl, rfl⟩
                      · rcases (ih noNulCursor (by omega) shows).1 noZero with ⟨more, renders, rfl⟩
                        rw [← List.append_assoc]
                        exact .directive modifies substitutes renders
                      · rcases (ih noNulCursor (by simp) shows).2 [] rfl with
                          ⟨hidden, cursor, rfl, plain, length, ends, renders⟩
                        exact .nul modifies isNul plain length ends renders
            constructor
            · intro noNul
              exact ⟨behind, renders, by rw [upToNul_eq_self noNul]⟩
            · rintro tail rfl
              rw [upToNul_zero]
              exact ⟨[], 0x25 :: rest, rfl, by simp, by simp, .inr (by simp), renders⟩
          · by_cases full : held.length = 63
            · rcases (shows_full isMark full).mp shows with ⟨behind, later, rfl⟩
              rcases (ih noNulRest (by simp) later).1 (by simpa using notNul) with
                ⟨more, renders, rfl⟩
              constructor
              · intro noNul
                refine ⟨character :: more, .literal isMark renders, ?_⟩
                rw [upToNul_eq_self noNul]
                rfl
              · rintro tail rfl
                have length : tail.length = 62 := by simpa using full
                rw [upToNul_zero]
                exact ⟨[], character :: rest, rfl, by simp, by simp, .inl (by simp [length]),
                  .literal isMark renders⟩
            · rw [jerryLogLoop_hold isMark (by omega)] at shows
              have longer : (held ++ [character]).length ≤ 63 := by
                rw [List.length_append, List.length_singleton]
                omega
              have behind := ih noNulRest longer shows
              constructor
              · intro noNul
                rcases behind.1 (by simp [noNul, notNul]) with ⟨more, renders, rfl⟩
                exact ⟨character :: more, .literal isMark renders, by simp⟩
              · rintro tail rfl
                have hides := behind.2 (tail ++ [character]) rfl
                have room : 62 - tail.length = 62 - (tail ++ [character]).length + 1 := by
                  simp only [List.length_cons, List.length_append, List.length_nil] at longer ⊢
                  omega
                rw [room]
                exact hides.cons isMark

/-- The loop passes over what a zero hides. -/
theorem shows_hidden {hidden cursor tail : List UInt8} (plain : 0x25 ∉ hidden)
    (short : tail.length + hidden.length ≤ 62)
    (ends : tail.length + hidden.length = 62 ∨ ∀ next ∈ cursor.head?, next = 0x25)
    (shows : Shows (jerryLogLoop (fuel + 1) cursor [] arguments) shown) :
    Shows (jerryLogLoop (fuel + 1 + hidden.length) (hidden ++ cursor) (0 :: tail) arguments)
      shown := by
  induction hidden generalizing tail with
  | nil =>
      have small : (0 :: tail).length ≤ 63 := by
        rw [List.length_nil] at short
        rw [List.length_cons]
        omega
      cases cursor with
      | nil =>
          apply (shows_end small).mpr
          rw [upToNul_zero]
          exact (shows_end (by simp)).mp shows
      | cons character cursor =>
          by_cases isMark : character = 0x25
          · subst isMark
            apply (shows_mark small).mpr
            exact ⟨shown, shows, by rw [upToNul_zero, List.nil_append]⟩
          · have full : (0 :: tail).length = 63 := by
              rcases ends with full | isHead
              · simpa using full
              · exact absurd (isHead character rfl) isMark
            apply (shows_full isMark full).mpr
            rw [jerryLogLoop_hold isMark (by simp)] at shows
            exact ⟨shown, shows, by rw [upToNul_zero, List.nil_append]⟩
  | cons character hidden ih =>
      have isPlain : character ≠ 0x25 := fun same => plain (same ▸ List.mem_cons_self)
      rw [List.length_cons] at short ends
      have small : (0 :: tail).length ≤ 62 := by
        rw [List.length_cons]
        omega
      change Shows (jerryLogLoop (fuel + 1 + hidden.length + 1) (character :: (hidden ++ cursor))
        (0 :: tail) arguments) shown
      rw [jerryLogLoop_hold isPlain small]
      have longer : (tail ++ [character]).length = tail.length + 1 := by simp
      exact @ih (tail ++ [character]) (fun mem => plain (List.mem_cons_of_mem _ mem)) (by omega)
        (ends.imp (fun same => by omega) id)

/-- Every rendering is shown. -/
theorem Renders.shows (renders : Renders rest arguments shown) (enough : rest.length < fuel)
    (noNul : 0 ∉ rest) (short : held.length ≤ 63) (noZero : 0 ∉ held) :
    Shows (jerryLogLoop fuel rest held arguments) (held ++ shown) := by
  induction renders generalizing fuel held with
  | done arguments =>
      obtain ⟨fuel, rfl⟩ : ∃ less, fuel = less + 1 := ⟨fuel - 1, by omega⟩
      apply (shows_end short).mpr
      rw [upToNul_eq_self noZero, List.append_nil]
  | @literal character format shown arguments notMark _ ih =>
      obtain ⟨fuel, rfl⟩ : ∃ less, fuel = less + 1 := ⟨fuel - 1, by omega⟩
      rw [List.length_cons] at enough
      have notNul : 0 ≠ character := fun same => noNul (same ▸ List.mem_cons_self)
      have noNulRest : 0 ∉ format := fun mem => noNul (List.mem_cons_of_mem _ mem)
      by_cases full : held.length = 63
      · apply (shows_full notMark full).mpr
        refine ⟨character :: shown, ?_, by rw [upToNul_eq_self noZero]⟩
        exact ih (by omega) noNulRest (by simp) (by simpa using notNul)
      · rw [jerryLogLoop_hold notMark (by omega)]
        have longer : (held ++ [character]).length ≤ 63 := by
          rw [List.length_append, List.length_singleton]
          omega
        have behind := @ih fuel (held ++ [character]) (by omega) noNulRest longer
          (by simp [noZero, notNul])
        rw [List.append_assoc] at behind
        exact behind
  | lastMark modifies =>
      obtain ⟨fuel, rfl⟩ : ∃ less, fuel = less + 1 := ⟨fuel - 1, by omega⟩
      apply (shows_lastMark short (readModifiers_iff.mpr modifies)).mpr
      rw [upToNul_eq_self noZero]
  | @directive format cursor substituted shown specifier arguments others behind modifiers modifies
      substitutes _ ih =>
      obtain ⟨fuel, rfl⟩ : ∃ less, fuel = less + 1 := ⟨fuel - 1, by omega⟩
      rcases modifies.spec with ⟨isSuffix, padding⟩
      have length := isSuffix.length_le
      rw [List.length_cons] at enough length
      rcases substitute_complete padding substitutes with
        ⟨texts, next, substitution, one, noZeroNext, rfl⟩
      have noNulCursor : 0 ∉ cursor := fun mem =>
        noNul (List.mem_cons_of_mem _ (isSuffix.subset (List.mem_cons_of_mem _ mem)))
      have later := ih (show cursor.length < fuel by omega) noNulCursor
        (show next.length ≤ 63 by omega) noZeroNext
      apply (shows_directive short (readModifiers_iff.mpr modifies)).mpr
      exact ⟨texts, next, behind, next ++ shown, substitution, later, by
        rw [upToNul_eq_self noZero, List.append_assoc]⟩
  | @nul format hidden cursor shown arguments others modifiers bits modifies isNul plain length
      ends _ ih =>
      obtain ⟨fuel, rfl⟩ : ∃ less, fuel = less + 1 := ⟨fuel - 1, by omega⟩
      rcases modifies.spec with ⟨isSuffix, padding⟩
      have shorter := isSuffix.length_le
      rw [List.length_cons, List.length_append] at shorter
      rw [List.length_cons] at enough
      obtain ⟨less, rfl⟩ : ∃ less, fuel = less + 1 + hidden.length :=
        ⟨fuel - 1 - hidden.length, by omega⟩
      have noNulCursor : 0 ∉ cursor := fun mem =>
        noNul (List.mem_cons_of_mem _ (isSuffix.subset
          (List.mem_cons_of_mem _ (List.mem_append_right _ mem))))
      have later := @ih (less + 1) [] (by omega) noNulCursor (by simp) (by simp)
      rw [List.nil_append] at later
      have substitution : substitute modifiers 0x63 (.word bits :: others) =
          .ok ([], [0], others) := by
        rw [← isNul]
        rfl
      apply (shows_directive short (readModifiers_iff.mpr modifies)).mpr
      refine ⟨[], [0], others, shown, substitution, ?_, by rw [upToNul_eq_self noZero]; rfl⟩
      exact shows_hidden plain (by simpa using length) (by simpa using ends) later

end Loop

theorem zero_notMem_upToNul (memory : List UInt8) : 0 ∉ upToNul memory := by
  intro mem
  have notZero := List.mem_takeWhile_imp mem
  simp at notZero

/-- `jerry_log` shows the rendering of its format, and where there is none its behaviour is
undefined. -/
theorem jerryLog_iff (current level : ℕ) (format : List UInt8) (arguments : List LogArgument)
    (shown : List UInt8) :
    Shows (jerryLog current level format arguments) shown ↔
      if current < level then shown = [] else Renders (upToNul format) arguments shown := by
  rw [jerryLog]
  split_ifs with silent
  · constructor
    · rintro ⟨texts, same, rfl⟩
      cases same
      rfl
    · rintro rfl
      exact ⟨[], rfl, rfl⟩
  · have noNul := zero_notMem_upToNul format
    constructor
    · intro shows
      rcases (shows_sound noNul (by simp) shows).1 (by simp) with ⟨behind, renders, rfl⟩
      exact renders
    · intro renders
      have shows := renders.shows (Nat.lt_succ_self _) noNul
        (show ([] : List UInt8).length ≤ 63 by simp) (by simp)
      rw [List.nil_append] at shows
      exact shows

end Cmsframe
