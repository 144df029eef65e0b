import Mathlib.Data.List.Basic
import Mathlib.Tactic.Common

/-!
# Lines

The lines of a text, for any way to end lines: reading past line ends, and the text from a
line on.
-/

namespace Lines

universe u

/-- A way to end lines: how many symbols the line end has that a text begins with, zero if it
begins with none. -/
structure LineEnds (Symbol : Type u) where
  length : List Symbol → ℕ
  bounded : ∀ text, length text ≤ text.length

variable {Symbol : Type u} (ends : LineEnds Symbol)

/-- Reading a text up to a rest, past a number of line ends. -/
inductive Passes : List Symbol → ℕ → List Symbol → Prop where
  | refl (text : List Symbol) : Passes text 0 text
  | symbol {first : Symbol} {text rest : List Symbol} {count : ℕ}
      (plain : ends.length (first :: text) = 0) (later : Passes text count rest) :
      Passes (first :: text) count rest
  | lineEnd {text rest : List Symbol} {count : ℕ} (isEnd : 0 < ends.length text)
      (later : Passes (text.drop (ends.length text)) count rest) :
      Passes text (count + 1) rest

/-- The first line of a text, and the text behind its line end. -/
def cut : List Symbol → List Symbol × Option (List Symbol)
  | [] => ([], none)
  | first :: text =>
      if ends.length (first :: text) = 0 then
        (first :: (cut text).1, (cut text).2)
      else
        ([], some ((first :: text).drop (ends.length (first :: text))))

/-- The text from a line on, by the number of lines in front of it. -/
def dropLines : ℕ → List Symbol → Option (List Symbol)
  | 0, text => some text
  | count + 1, text => (cut ends text).2.bind (dropLines count)

variable {ends} {text middle rest start : List Symbol} {first : Symbol} {count : ℕ}

theorem Passes.trans {more : ℕ} (before : Passes ends text count middle)
    (after : Passes ends middle more rest) : Passes ends text (more + count) rest := by
  induction before with
  | refl => exact after
  | symbol plain _ ih => exact .symbol plain (ih after)
  | lineEnd isEnd _ ih => exact .lineEnd isEnd (ih after)

/-- Every line end takes at least one symbol. -/
theorem Passes.count_le (passes : Passes ends text count rest) :
    count + rest.length ≤ text.length := by
  induction passes with
  | refl => simp
  | symbol _ _ ih =>
      rw [List.length_cons]
      omega
  | @lineEnd text _ _ isEnd _ ih =>
      have bounded := ends.bounded text
      rw [List.length_drop] at ih
      omega

theorem cut_symbol (plain : ends.length (first :: text) = 0) :
    cut ends (first :: text) = (first :: (cut ends text).1, (cut ends text).2) := by
  rw [cut, if_pos plain]

theorem cut_lineEnd (isEnd : 0 < ends.length text) :
    cut ends text = ([], some (text.drop (ends.length text))) := by
  cases text with
  | nil => exact absurd (ends.bounded []) (Nat.not_le.mpr isEnd)
  | cons first text => rw [cut, if_neg (Nat.ne_of_gt isEnd)]

/-- What has been read past some line ends is in the line behind them. -/
theorem Passes.dropLines (passes : Passes ends text count rest) :
    ∃ start, dropLines ends count text = some start ∧ Passes ends start 0 rest := by
  induction passes with
  | refl text => exact ⟨text, rfl, .refl text⟩
  | @symbol first text rest count plain later ih =>
      cases count with
      | zero => exact ⟨first :: text, rfl, .symbol plain later⟩
      | succ count =>
          rcases ih with ⟨start, dropped, passes⟩
          refine ⟨start, ?_, passes⟩
          rw [Lines.dropLines, cut_symbol plain]
          exact dropped
  | lineEnd isEnd _ ih =>
      rcases ih with ⟨start, dropped, passes⟩
      refine ⟨start, ?_, passes⟩
      rw [Lines.dropLines, cut_lineEnd isEnd]
      exact dropped

/-- The last line is the rest of the text. -/
theorem eq_of_cut_none (last : (cut ends text).2 = none) : (cut ends text).1 = text := by
  induction text with
  | nil => rfl
  | cons first text ih =>
      by_cases plain : ends.length (first :: text) = 0
      · rw [cut_symbol plain] at last ⊢
        exact congrArg (first :: ·) (ih last)
      · rw [cut_lineEnd (Nat.pos_of_ne_zero plain)] at last
        cases last

/-- Every other line is followed by a line end. -/
theorem exists_of_cut_some (goesOn : (cut ends text).2 = some rest) :
    ∃ lineEnd, text = (cut ends text).1 ++ (lineEnd ++ rest) ∧
      0 < ends.length (lineEnd ++ rest) ∧ lineEnd.length = ends.length (lineEnd ++ rest) := by
  induction text with
  | nil => cases goesOn
  | cons first text ih =>
      by_cases plain : ends.length (first :: text) = 0
      · rw [cut_symbol plain] at goesOn ⊢
        rcases ih goesOn with ⟨lineEnd, split, isEnd, length⟩
        exact ⟨lineEnd, congrArg (first :: ·) split, isEnd, length⟩
      · have isEnd := Nat.pos_of_ne_zero plain
        rw [cut_lineEnd isEnd] at goesOn ⊢
        cases goesOn
        refine ⟨(first :: text).take (ends.length (first :: text)), ?_, ?_, ?_⟩
        · rw [List.take_append_drop]
          rfl
        · rwa [List.take_append_drop]
        · rw [List.take_append_drop, List.length_take, Nat.min_eq_left (ends.bounded _)]

/-- A property of all symbols that no line end begins with holds in a line. -/
theorem forall_mem_cut {Holds : Symbol → Prop}
    (plain : ∀ first text, ends.length (first :: text) = 0 → Holds first) (text : List Symbol) :
    ∀ symbol ∈ (cut ends text).1, Holds symbol := by
  induction text with
  | nil => exact List.forall_mem_nil _
  | cons first text ih =>
      by_cases isPlain : ends.length (first :: text) = 0
      · rw [cut_symbol isPlain]
        exact List.forall_mem_cons.mpr ⟨plain first text isPlain, ih⟩
      · rw [cut_lineEnd (Nat.pos_of_ne_zero isPlain)]
        exact List.forall_mem_nil _

end Lines
