import Cmsframe.Log.Shown

/-!
# The log buffer is not left

With an asterisk for the width, a call can write in front of the buffer. Without one only the
caller can go wrong.
-/

namespace Cmsframe

open CString (upToNul)

section Bounds

variable {Result Other : Type} {modifiers : LogModifiers} {arguments others : List LogArgument}

/-- The only faults are those of the caller: an argument is missing, or the least number is to be
negated. -/
def StaysInside (result : Except LogFault Result) : Prop :=
  ∀ fault, result = .error fault → fault = .missingArgument ∨ fault = .overflow

theorem staysInside_ok (result : Result) : StaysInside (.ok result) := by
  intro fault same
  cases same

theorem StaysInside.bind {result : Except LogFault Result}
    {continuation : Result → Except LogFault Other} (inside : StaysInside result)
    (later : ∀ value, result = .ok value → StaysInside (continuation value)) :
    StaysInside (result >>= continuation) := by
  cases result with
  | error fault =>
      intro other same
      cases same
      exact inside fault rfl
  | ok value => exact later value rfl

theorem staysInside_nextWord : StaysInside (nextWord arguments) := by
  intro fault same
  cases arguments with
  | nil =>
      cases same
      exact .inl rfl
  | cons argument arguments =>
      cases argument with
      | word bits => cases same
      | pointer memory =>
          cases same
          exact .inl rfl

theorem staysInside_nextPointer : StaysInside (nextPointer arguments) := by
  intro fault same
  cases arguments with
  | nil =>
      cases same
      exact .inl rfl
  | cons argument arguments =>
      cases argument with
      | pointer memory => cases same
      | word bits =>
          cases same
          exact .inl rfl

/-- Without an asterisk a width has one digit, and there is no precision. -/
theorem readModifiers_plain {cursor : List UInt8} (noStar : 0x2A ∉ cursor)
    (arguments : List LogArgument) :
    ∃ modifiers rest, readModifiers cursor arguments = .ok (modifiers, rest, arguments) ∧
      modifiers.width ≤ 9 ∧ modifiers.precision = 0 := by
  have sized : ∀ padding cursor, 0x2A ∉ cursor →
      ∃ modifiers rest, readSize padding cursor arguments = .ok (modifiers, rest, arguments) ∧
        modifiers.width ≤ 9 ∧ modifiers.precision = 0 := by
    intro padding cursor noStar
    cases cursor with
    | nil => exact ⟨_, _, rfl, Nat.zero_le 9, rfl⟩
    | cons character rest =>
        rw [readSize]
        split_ifs with isDigit isStar isPrecision
        · refine ⟨_, _, rfl, ?_, rfl⟩
          unfold Decimal.IsDigit at isDigit
          simp only
          omega
        · exact absurd (isStar ▸ List.mem_cons_self) noStar
        · have mem : 0x2A ∈ rest := List.mem_of_head? isPrecision.2
          exact absurd (List.mem_cons_of_mem _ mem) noStar
        · exact ⟨_, _, rfl, Nat.zero_le 9, rfl⟩
  unfold readModifiers
  split
  · exact sized _ _ fun mem => noStar (List.mem_cons_of_mem _ mem)
  · exact sized _ _ noStar

theorem staysInside_substitute {specifier : UInt8} (notNul : modifiers.padding ≠ 0)
    (narrow : modifiers.width ≤ 9) (whole : modifiers.precision = 0)
    (terminated : ∀ memory, .pointer memory ∈ arguments → 0 ∈ memory) :
    StaysInside (substitute modifiers specifier arguments) := by
  have fits : modifiers.width ≤ 63 := by omega
  rw [substitute]
  split_ifs
  · apply staysInside_nextPointer.bind
    rintro ⟨memory, behind⟩ next
    have logged : jerryLogString memory = .ok (upToNul memory) :=
      if_pos (terminated memory (nextPointer_ok next ▸ List.mem_cons_self))
    change StaysInside (jerryLogString memory >>= _)
    rw [logged]
    exact staysInside_ok _
  · apply staysInside_nextWord.bind
    rintro ⟨bits, behind⟩ _
    exact staysInside_ok _
  · apply staysInside_nextWord.bind
    rintro ⟨bits, behind⟩ _
    change StaysInside (logNumber _ >>= _)
    by_cases least : bits.toInt = -2 ^ 31
    · have overflow : jerryFormatInt bits.toInt modifiers.width modifiers.padding =
          .error .overflow := by
        rw [jerryFormatInt, if_neg (by omega), if_pos least]
        rfl
      intro fault same
      rw [overflow] at same
      cases same
      exact .inr rfl
    · rw [logNumber_signed notNul least fits]
      exact staysInside_ok _
  · apply staysInside_nextWord.bind
    rintro ⟨bits, behind⟩ _
    change StaysInside (logNumber _ >>= _)
    rw [logNumber_unsigned (.inl rfl) notNul fits]
    exact staysInside_ok _
  · apply staysInside_nextWord.bind
    rintro ⟨bits, behind⟩ _
    change StaysInside (logNumber _ >>= _)
    rw [logNumber_unsigned (.inr rfl) notNul fits]
    exact staysInside_ok _
  · exact staysInside_ok _

theorem substitute_behind {specifier : UInt8} {texts : List (List UInt8)} {held : List UInt8}
    (notNul : modifiers.padding ≠ 0)
    (result : substitute modifiers specifier arguments = .ok (texts, held, others)) :
    held.length ≤ 1 ∧ others ⊆ arguments := by
  rcases substitute_sound notNul result with ⟨_, one, substitutes⟩ | ⟨_, _, rfl, _, _, rfl⟩
  · refine ⟨one, ?_⟩
    generalize texts.flatten ++ held = shown at substitutes
    cases substitutes with
    | unknown => exact List.Subset.refl _
    | _ => exact List.subset_cons_self _ _
  · exact ⟨le_rfl, List.subset_cons_self _ _⟩

theorem staysInside_jerryLogLoop {fuel : ℕ} {format held : List UInt8} (noStar : 0x2A ∉ format)
    (terminated : ∀ memory, .pointer memory ∈ arguments → 0 ∈ memory)
    (enough : format.length < fuel) (short : held.length ≤ 63) :
    StaysInside (jerryLogLoop fuel format held arguments) := by
  induction fuel generalizing format held arguments with
  | zero => omega
  | succ fuel ih =>
      cases format with
      | nil =>
          rw [jerryLogLoop, logHeld_eq short]
          split_ifs
          · exact staysInside_ok _
          · exact staysInside_ok _
      | cons character rest =>
          rw [List.length_cons] at enough
          have noStarRest : 0x2A ∉ rest := fun mem => noStar (List.mem_cons_of_mem _ mem)
          by_cases isMark : character = 0x25
          · rcases readModifiers_plain noStarRest arguments with
              ⟨modifiers, cursor, read, narrow, whole⟩
            rcases readModifiers_spec read with ⟨isSuffix, padding⟩
            have length := isSuffix.length_le
            rw [jerryLogLoop, if_pos isMark, logHeld_eq short, ok_bind, read, ok_bind]
            cases cursor with
            | nil =>
                have mark : logHeld [0x25] = .ok [0x25] := logHeld_eq (by simp)
                simp only [mark, ok_bind]
                exact staysInside_ok _
            | cons specifier cursor =>
                rw [List.length_cons] at length
                apply (staysInside_substitute padding narrow whole terminated).bind
                rintro ⟨texts, next, behind⟩ substitution
                rcases substitute_behind padding substitution with ⟨one, subset⟩
                have later := @ih behind cursor next
                  (fun mem => noStarRest (isSuffix.subset (List.mem_cons_of_mem _ mem)))
                  (fun memory mem => terminated memory (subset mem)) (by omega) (by omega)
                exact later.bind fun texts _ => staysInside_ok _
          · by_cases full : held.length = 63
            · have size : jerryLogBufferSize = 64 := rfl
              have later := @ih arguments rest [character] noStarRest terminated (by omega)
                (by simp)
              rw [jerryLogLoop, if_neg isMark, if_pos (by omega), logHeld_eq short]
              exact later.bind fun texts _ => staysInside_ok _
            · rw [jerryLogLoop_hold isMark (by omega)]
              have longer : (held ++ [character]).length ≤ 63 := by
                rw [List.length_append, List.length_singleton]
                omega
              exact ih noStarRest terminated (by omega) longer

end Bounds

/-- A format without an asterisk never leaves the buffer, whatever the arguments, as long as
every string that is passed has an end. -/
theorem jerryLog_staysInside {format : List UInt8} {arguments : List LogArgument}
    (noStar : 0x2A ∉ format) (terminated : ∀ memory, .pointer memory ∈ arguments → 0 ∈ memory)
    (current level : ℕ) : StaysInside (jerryLog current level format arguments) := by
  rw [jerryLog]
  split_ifs
  · exact staysInside_ok _
  · have noStarText : 0x2A ∉ upToNul format := fun mem =>
      noStar ((List.takeWhile_prefix _).subset mem)
    exact staysInside_jerryLogLoop noStarText terminated (Nat.lt_succ_self _) (by simp)

/-- With an asterisk the argument behind one from 10 on is the width, and a large one leaves the
buffer. -/
example : jerryLog 0 0 [0x25, 0x2A, 0x75] [.word 12, .word 64, .word 7] = .error .outOfBounds :=
  rfl

theorem jerryLog_staysInside_line :
    StaysInside (jerryLog 0 0 [0x25, 0x39, 0x75, 0x25, 0x73] [.word 7, .pointer [0x61, 0]]) :=
  jerryLog_staysInside (by decide) (by simp) 0 0

end Cmsframe
