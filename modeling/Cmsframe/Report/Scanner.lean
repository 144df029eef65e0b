import Cmsframe.Engine.Copy
import Cmsframe.Library.CString
import Cmsframe.Pp.Routines

/-!
# The location in a message

`cms_pp_unhandled_exception` copies the text of an exception to a buffer and looks there
for the file, the line and the column that the parser has put between brackets. Pointers
into the buffer are indices. Reading behind the terminator, moving a pointer behind it and
following a pointer that has not been set are faults.
-/

namespace Cmsframe

open Unicode (CodeUnit)

/-- The buffer of `cms_pp_unhandled_exception` up to the terminator, which is inside the
array. -/
@[ext]
structure Message where
  text : List UInt8
  fits : text.length < Native.cmsPrintBufferSize

namespace Message

/-- `string_end_p`. -/
def stringEnd (message : Message) : ℕ := message.text.length

/-- `*pointer`. -/
def read (message : Message) (pointer : ℕ) : Except Fault UInt8 :=
  match (message.text ++ [0])[pointer]? with
  | some byte => .ok byte
  | none => .error .outOfBounds

/-- `pointer++`. -/
def advance (message : Message) (pointer : ℕ) : Except Fault ℕ :=
  if pointer < message.stringEnd then .ok (pointer + 1) else .error .outOfBounds

/-- The string that begins at a pointer. -/
def stringAt (message : Message) (pointer : ℕ) : Except Fault (List UInt8) :=
  if pointer ≤ message.stringEnd then
    .ok (CString.upToNul (message.text.drop pointer))
  else
    .error .outOfBounds

/-- `strtol (pointer, &pointer, 10)`. -/
def strtol (message : Message) (pointer : ℕ) : Except Fault (ℤ × ℕ) := do
  let text ← message.stringAt pointer
  let number := CString.strtol text
  return (number.1, pointer + number.2)

/-- `*pointer = byte` in front of the terminator. -/
def write (message : Message) (pointer : ℕ) (byte : UInt8) : Except Fault Message :=
  if pointer < message.stringEnd then
    .ok ⟨message.text.set pointer byte, by
      rw [List.length_set]
      exact message.fits⟩
  else
    .error .outOfBounds

/-- The string is copied, and the terminator is stored behind it. -/
def copy (value : EcmaValue) : Except Fault Message := do
  let (bytes, copied) ← jerryStringToBuffer value (Native.cmsPrintBufferSize - 1)
  if fits : copied < Native.cmsPrintBufferSize then
    return ⟨bytes.take copied, lt_of_le_of_lt (List.length_take_le copied bytes) fits⟩
  else
    .error .outOfBounds

end Message

/-- The local variables that hold the location. -/
structure ErrorLocation where
  errLine : ℕ
  errCol : ℕ
  pathStart : Option ℕ
  pathEnd : Option ℕ
  deriving DecidableEq

/-- The variables before the scan. -/
def ErrorLocation.unset : ErrorLocation := ⟨0, 0, none, none⟩

/-- The loop over the path. -/
def scanPath (message : Message) : ℕ → ℕ → Except Fault ℕ
  | 0, _ => .error .outOfFuel
  | fuel + 1, current =>
      if current < message.stringEnd then do
        let byte ← message.read current
        if byte ≠ 0x3A then
          scanPath message fuel (← message.advance current)
        else
          return current
      else
        return current

/-- The body of the loop at an opening bracket. -/
def scanBracket (message : Message) (current : ℕ) : Except Fault ErrorLocation := do
  let current ← message.advance current
  if (← message.read current) = 0x3C then
    return .unset
  let pathStart := current
  let current ← scanPath message (message.stringEnd + 1) current
  let pathEnd := current
  if current = message.stringEnd then
    return ⟨0, 0, some pathStart, some pathEnd⟩
  let (number, current) ← message.strtol (current + 1)
  let errLine := CString.toUnsignedInt number
  if current = message.stringEnd then
    return ⟨errLine, 0, some pathStart, some pathEnd⟩
  let (number, _) ← message.strtol (current + 1)
  let errCol := CString.toUnsignedInt number
  return ⟨errLine, errCol, some pathStart, some pathEnd⟩

/-- The loop that parses the location. -/
def scanLocation (message : Message) : ℕ → ℕ → Except Fault ErrorLocation
  | 0, _ => .error .outOfFuel
  | fuel + 1, current =>
      if current < message.stringEnd then do
        if (← message.read current) = 0x5B then
          scanBracket message current
        else
          scanLocation message fuel (← message.advance current)
      else
        return .unset

/-- The scan of a whole message. -/
def locate (message : Message) : Except Fault ErrorLocation :=
  scanLocation message (message.stringEnd + 1) 0

/-- The line and the column in the text behind the path. -/
def readNumbers (numbers : List UInt8) : ℕ × ℕ :=
  let line := CString.strtol (CString.upToNul numbers)
  if line.2 = numbers.length then
    (CString.toUnsignedInt line.1, 0)
  else
    (CString.toUnsignedInt line.1, CString.toUnsignedInt
      (CString.strtol (CString.upToNul (numbers.drop (line.2 + 1)))).1)

/-- The ways a text can look to the scan, and what is found. -/
inductive Located : List UInt8 → ErrorLocation → Prop where
  | noBracket {text : List UInt8} (absent : 0x5B ∉ text) : Located text .unset
  | resourceName {before rest : List UInt8} (first : 0x5B ∉ before) :
      Located (before ++ 0x5B :: 0x3C :: rest) .unset
  | noColon {before rest : List UInt8} (first : 0x5B ∉ before) (isFile : rest.head? ≠ some 0x3C)
      (absent : 0x3A ∉ rest) :
      Located (before ++ 0x5B :: rest)
        ⟨0, 0, some (before.length + 1), some (before.length + 1 + rest.length)⟩
  | numbers {before path numbers : List UInt8} (first : 0x5B ∉ before)
      (isFile : (path ++ [0x3A]).head? ≠ some 0x3C) (noColon : 0x3A ∉ path) :
      Located (before ++ 0x5B :: (path ++ 0x3A :: numbers))
        ⟨(readNumbers numbers).1, (readNumbers numbers).2, some (before.length + 1),
          some (before.length + 1 + path.length)⟩

/-- Every text looks one of these ways. -/
theorem exists_located (text : List UInt8) : ∃ location, Located text location := by
  by_cases bracket : 0x5B ∈ text
  · rcases List.eq_append_cons_of_mem bracket with ⟨before, rest, rfl, first⟩
    by_cases colon : 0x3A ∈ rest
    · rcases List.eq_append_cons_of_mem colon with ⟨path, numbers, rfl, noColon⟩
      by_cases isFile : (path ++ [0x3A]).head? = some 0x3C
      · cases path with
        | nil => cases isFile
        | cons head path =>
            cases isFile
            exact ⟨_, .resourceName first⟩
      · exact ⟨_, .numbers first isFile noColon⟩
    · by_cases isFile : rest.head? = some 0x3C
      · cases rest with
        | nil => cases isFile
        | cons head rest =>
            cases isFile
            exact ⟨_, .resourceName first⟩
      · exact ⟨_, .noColon first isFile colon⟩
  · exact ⟨_, .noBracket bracket⟩

section Reading

variable {message : Message} {pointer : ℕ} {byte : UInt8} {rest : List UInt8}

theorem Message.lt_of_drop (here : message.text.drop pointer = byte :: rest) :
    pointer < message.stringEnd := by
  by_contra outside
  rw [List.drop_eq_nil_of_le (not_lt.mp outside)] at here
  cases here

theorem Message.drop_succ (here : message.text.drop pointer = byte :: rest) :
    message.text.drop (pointer + 1) = rest := by
  rw [← List.drop_drop, here]
  rfl

theorem Message.read_of_drop (here : message.text.drop pointer = byte :: rest) :
    message.read pointer = .ok byte := by
  have inside := message.lt_of_drop here
  have found : message.text[pointer]? = some byte := by
    rw [← List.head?_drop, here]
    rfl
  rw [read, List.getElem?_append_left inside, found]

theorem Message.read_end (message : Message) : message.read message.stringEnd = .ok 0 := by
  simp [read, stringEnd]

theorem Message.advance_of_drop (here : message.text.drop pointer = byte :: rest) :
    message.advance pointer = .ok (pointer + 1) := by
  rw [advance, if_pos (message.lt_of_drop here)]

theorem Message.stringAt_of_le (inside : pointer ≤ message.stringEnd) :
    message.stringAt pointer = .ok (CString.upToNul (message.text.drop pointer)) := by
  rw [stringAt, if_pos inside]

theorem Message.strtol_of_le (message : Message) (pointer : ℕ)
    (inside : pointer ≤ message.stringEnd) :
    message.strtol pointer =
      .ok ((CString.strtol (CString.upToNul (message.text.drop pointer))).1,
        pointer + (CString.strtol (CString.upToNul (message.text.drop pointer))).2) := by
  rw [strtol, stringAt_of_le inside]
  rfl

/-- `strtol` stays in front of the terminator. -/
theorem Message.strtol_end_le (message : Message) (pointer : ℕ)
    (inside : pointer ≤ message.stringEnd) :
    pointer + (CString.strtol (CString.upToNul (message.text.drop pointer))).2 ≤
      message.stringEnd := by
  have consumed := CString.strtol_consumed_le (CString.upToNul (message.text.drop pointer))
  have bound := CString.length_upToNul_le (message.text.drop pointer)
  rw [List.length_drop] at bound
  unfold stringEnd at inside ⊢
  omega

end Reading

section Loops

variable {message : Message}

theorem scanPath_eq {path : List UInt8} (tail : List UInt8) (noColon : 0x3A ∉ path)
    (ends : tail = [] ∨ tail.head? = some 0x3A) (fuel : ℕ) {current : ℕ}
    (here : message.text.drop current = path ++ tail) (enough : path.length < fuel) :
    scanPath message fuel current = .ok (current + path.length) := by
  induction path generalizing fuel current with
  | nil =>
      cases fuel with
      | zero => cases enough
      | succ fuel =>
          rcases ends with rfl | colon
          · have atEnd : ¬current < message.stringEnd := by
              rw [List.append_nil, List.drop_eq_nil_iff] at here
              exact not_lt.mpr here
            simp [scanPath, atEnd, pure, Except.pure]
          · cases tail with
            | nil => cases colon
            | cons byte tail =>
                cases colon
                have before := message.lt_of_drop here
                simp [scanPath, before, message.read_of_drop here, bind, Except.bind, pure,
                  Except.pure]
  | cons byte path ih =>
      cases fuel with
      | zero => cases enough
      | succ fuel =>
          have notColon : byte ≠ 0x3A := fun same => noColon (same ▸ List.mem_cons_self)
          have before := message.lt_of_drop here
          have continued := ih (fun mem => noColon (List.mem_cons_of_mem byte mem)) fuel
            (message.drop_succ here) (Nat.lt_of_succ_lt_succ enough)
          rw [scanPath, if_pos before, message.read_of_drop here, message.advance_of_drop here]
          rw [List.length_cons, ← Nat.add_assoc, Nat.add_right_comm, ← continued]
          simp [notColon, bind, Except.bind]

theorem scanLocation_bracket {before rest : List UInt8} (first : 0x5B ∉ before)
    {fuel current : ℕ} (here : message.text.drop current = before ++ 0x5B :: rest)
    (enough : before.length < fuel) :
    scanLocation message fuel current = scanBracket message (current + before.length) := by
  induction before generalizing fuel current with
  | nil =>
      cases fuel with
      | zero => cases enough
      | succ fuel =>
          have before := message.lt_of_drop here
          simp [scanLocation, before, message.read_of_drop here, bind, Except.bind]
  | cons byte before ih =>
      cases fuel with
      | zero => cases enough
      | succ fuel =>
          have notBracket : byte ≠ 0x5B := fun same => first (same ▸ List.mem_cons_self)
          have inside := message.lt_of_drop here
          have continued := ih (fun mem => first (List.mem_cons_of_mem byte mem))
            (message.drop_succ here) (Nat.lt_of_succ_lt_succ enough)
          rw [scanLocation, if_pos inside, message.read_of_drop here,
            message.advance_of_drop here]
          rw [List.length_cons, ← Nat.add_assoc, Nat.add_right_comm, ← continued]
          simp [notBracket, bind, Except.bind]

theorem scanLocation_noBracket {text : List UInt8} (absent : 0x5B ∉ text) {fuel : ℕ} (current : ℕ)
    (here : message.text.drop current = text) (enough : text.length < fuel) :
    scanLocation message fuel current = .ok .unset := by
  induction text generalizing fuel current with
  | nil =>
      cases fuel with
      | zero => cases enough
      | succ fuel =>
          have atEnd : ¬current < message.stringEnd := by
            rw [List.drop_eq_nil_iff] at here
            exact not_lt.mpr here
          simp [scanLocation, atEnd, pure, Except.pure]
  | cons byte text ih =>
      cases fuel with
      | zero => cases enough
      | succ fuel =>
          have notBracket : byte ≠ 0x5B := fun same => absent (same ▸ List.mem_cons_self)
          have before := message.lt_of_drop here
          have continued := ih (fun mem => absent (List.mem_cons_of_mem byte mem)) (current + 1)
            (message.drop_succ here) (Nat.lt_of_succ_lt_succ enough)
          rw [scanLocation, if_pos before, message.read_of_drop here,
            message.advance_of_drop here, ← continued]
          simp [notBracket, bind, Except.bind]

/-- The byte behind the bracket, which may be the terminator. -/
theorem Message.read_of_head {pointer : ℕ} {rest : List UInt8}
    (here : message.text.drop pointer = rest) (inside : pointer ≤ message.stringEnd)
    (isFile : rest.head? ≠ some 0x3C) :
    ∃ byte, message.read pointer = .ok byte ∧ byte ≠ 0x3C := by
  cases rest with
  | nil =>
      rw [List.drop_eq_nil_iff] at here
      have atEnd : pointer = message.stringEnd := le_antisymm inside here
      exact ⟨0, by rw [atEnd, message.read_end], by decide⟩
  | cons byte rest =>
      exact ⟨byte, message.read_of_drop here, fun same => isFile (congrArg some same)⟩

/-- The scan finds what the text looks like, and stays inside the buffer. -/
theorem locate_of_located {location : ErrorLocation} (located : Located message.text location) :
    locate message = .ok location := by
  generalize same : message.text = text at located
  have length : message.stringEnd = text.length := congrArg List.length same
  cases located with
  | noBracket absent =>
      apply scanLocation_noBracket absent 0 same
      rw [length]
      exact Nat.lt_succ_self _
  | @resourceName before rest first =>
      have here : message.text.drop 0 = before ++ 0x5B :: 0x3C :: rest := same
      have atBracket : message.text.drop before.length = 0x5B :: 0x3C :: rest := by
        rw [same, List.drop_left' rfl]
      rw [locate, scanLocation_bracket first here (by rw [length]; simp), Nat.zero_add,
        scanBracket, message.advance_of_drop atBracket]
      simp [message.read_of_drop (message.drop_succ atBracket), bind, Except.bind, pure,
        Except.pure]
  | @noColon before rest first isFile absent =>
      have here : message.text.drop 0 = before ++ 0x5B :: rest := same
      have atBracket : message.text.drop before.length = 0x5B :: rest := by
        rw [same, List.drop_left' rfl]
      have behind := message.drop_succ atBracket
      have total : message.stringEnd = before.length + 1 + rest.length := by
        rw [length, List.length_append, List.length_cons]
        omega
      rcases message.read_of_head behind (by omega) isFile with ⟨byte, read, notAngle⟩
      have path := scanPath_eq [] absent (.inl rfl) (message.stringEnd + 1)
        (by simpa using behind) (by omega)
      rw [locate, scanLocation_bracket first here (by omega), Nat.zero_add, scanBracket,
        message.advance_of_drop atBracket]
      simp only [bind, Except.bind, pure, Except.pure, read, if_neg notAngle, path,
        if_pos total.symm]
  | @numbers before path numbers first isFile noColon =>
      have here : message.text.drop 0 = before ++ 0x5B :: (path ++ 0x3A :: numbers) := same
      have atBracket : message.text.drop before.length = 0x5B :: (path ++ 0x3A :: numbers) := by
        rw [same, List.drop_left' rfl]
      have behind := message.drop_succ atBracket
      have atColon : message.text.drop (before.length + 1 + path.length) = 0x3A :: numbers := by
        rw [← List.drop_drop, behind, List.drop_left' rfl]
      have atNumbers := message.drop_succ atColon
      have total : message.stringEnd = before.length + 1 + path.length + 1 + numbers.length := by
        rw [length]
        simp only [List.length_append, List.length_cons]
        omega
      have isFile' : (path ++ 0x3A :: numbers).head? ≠ some 0x3C := by
        cases path with
        | nil => exact isFile
        | cons head path => exact isFile
      rcases message.read_of_head behind (by omega) isFile' with ⟨byte, read, notAngle⟩
      have scanned := scanPath_eq _ noColon (.inr rfl) (message.stringEnd + 1) behind (by omega)
      have line := message.strtol_of_le (before.length + 1 + path.length + 1) (by omega)
      have lineEnd := message.strtol_end_le (before.length + 1 + path.length + 1)
        (by omega)
      rw [atNumbers] at line lineEnd
      rw [locate, scanLocation_bracket first here (by omega), Nat.zero_add, scanBracket,
        message.advance_of_drop atBracket]
      simp only [bind, Except.bind, pure, Except.pure, read, if_neg notAngle, scanned,
        if_neg (show ¬before.length + 1 + path.length = message.stringEnd by omega), line]
      by_cases atEnd : (CString.strtol (CString.upToNul numbers)).2 = numbers.length
      · rw [if_pos (by omega), readNumbers, if_pos atEnd]
      · have column := message.strtol_of_le (before.length + 1 + path.length + 1 +
          (CString.strtol (CString.upToNul numbers)).2 + 1) (by omega)
        have skipped : message.text.drop (before.length + 1 + path.length + 1 +
            (CString.strtol (CString.upToNul numbers)).2 + 1) =
            numbers.drop ((CString.strtol (CString.upToNul numbers)).2 + 1) := by
          rw [Nat.add_assoc _ _ 1, ← List.drop_drop, atNumbers]
        rw [skipped] at column
        rw [if_neg (by omega), readNumbers, if_neg atEnd]
        simp only [column]

end Loops

end Cmsframe
