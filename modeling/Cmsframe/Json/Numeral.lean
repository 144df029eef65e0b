import Cmsframe.Json.Token

/-!
# Numbers in JSON texts

The texts that `ecma_number_to_utf8_string` writes for finite numbers are numbers of the
JSON grammar, and the scanner takes each of them as a whole.
-/

namespace Cmsframe

/-- A sequence of digits. -/
def IsDigits (bytes : List UInt8) : Prop := bytes ≠ [] ∧ ∀ byte ∈ bytes, Decimal.IsDigit byte

/-- Zero, or digits that do not begin with a zero. -/
def IsInteger (bytes : List UInt8) : Prop :=
  bytes = [0x30] ∨ IsDigits bytes ∧ bytes.head? ≠ some 0x30

def IsFraction (bytes : List UInt8) : Prop :=
  bytes = [] ∨ ∃ digits, bytes = 0x2E :: digits ∧ IsDigits digits

def IsExponent (bytes : List UInt8) : Prop :=
  bytes = [] ∨ ∃ sign digits, bytes = 0x65 :: sign :: digits ∧ (sign = 0x2B ∨ sign = 0x2D) ∧
    IsDigits digits

/-- The texts of numbers in JSON. -/
structure IsNumberText (text : List UInt8) : Prop where
  parts : ∃ sign integer fraction exponent, text = sign ++ integer ++ fraction ++ exponent ∧
    (sign = [] ∨ sign = [0x2D]) ∧ IsInteger integer ∧ IsFraction fraction ∧ IsExponent exponent

/-- What can follow a value in a JSON text. -/
def Terminated (rest : List UInt8) : Prop :=
  rest = [] ∨ ∃ first others, rest = first :: others ∧
    (first = 0x2C ∨ first = 0x5D ∨ first = 0x7D)

section Numbers

variable {rest : List UInt8}

theorem IsDigits.startsWithDigit {digits : List UInt8} (isDigits : IsDigits digits) :
    startsWithDigit (digits ++ rest) = true := by
  rcases isDigits with ⟨notEmpty, areDigits⟩
  cases digits with
  | nil => exact absurd rfl notEmpty
  | cons first others =>
      have isDigit := areDigits first List.mem_cons_self
      simp [Cmsframe.startsWithDigit, isDigit]

theorem skipDigits_append {digits : List UInt8}
    (areDigits : ∀ byte ∈ digits, Decimal.IsDigit byte) (stop : startsWithDigit rest = false) :
    skipDigits (digits ++ rest) = rest := by
  rw [skipDigits, List.dropWhile_append_of_pos]
  · cases rest with
    | nil => rfl
    | cons first others =>
        rw [List.dropWhile_cons_of_neg]
        simpa [startsWithDigit] using stop
  · intro byte mem
    simpa using areDigits byte mem

theorem skipInteger_append {integer : List UInt8} (isInteger : IsInteger integer)
    (stop : startsWithDigit rest = false) : skipInteger (integer ++ rest) = some rest := by
  rcases isInteger with rfl | ⟨⟨notEmpty, areDigits⟩, noZero⟩
  · simp [skipInteger, stop]
  · have skipped := skipDigits_append areDigits stop
    cases integer with
    | nil => exact absurd rfl notEmpty
    | cons first others =>
        have other : first ≠ 0x30 := by
          rintro rfl
          exact noZero rfl
        rw [List.cons_append] at skipped ⊢
        rw [skipInteger, if_neg other, skipped]

theorem skipFraction_append {fraction : List UInt8} (isFraction : IsFraction fraction)
    (stop : startsWithDigit rest = false) (noPoint : rest.head? ≠ some 0x2E) :
    skipFraction (fraction ++ rest) = some rest := by
  rcases isFraction with rfl | ⟨digits, rfl, isDigits⟩
  · rw [List.nil_append]
    unfold skipFraction
    split
    · exact absurd rfl noPoint
    · rfl
  · rw [List.cons_append, skipFraction, if_pos isDigits.startsWithDigit,
      skipDigits_append isDigits.2 stop]

theorem skipExponent_append {exponent : List UInt8} (isExponent : IsExponent exponent)
    (stop : startsWithDigit rest = false) (noSmall : rest.head? ≠ some 0x65)
    (noCapital : rest.head? ≠ some 0x45) : skipExponent (exponent ++ rest) = some rest := by
  rcases isExponent with rfl | ⟨sign, digits, rfl, isSign, isDigits⟩
  · rw [List.nil_append]
    unfold skipExponent
    split
    · exact absurd rfl noSmall
    · exact absurd rfl noCapital
    · rfl
  · have signed : skipSign (sign :: (digits ++ rest)) = digits ++ rest := by
      rcases isSign with rfl | rfl <;> rfl
    rw [List.cons_append, List.cons_append, skipExponent, signed,
      if_pos isDigits.startsWithDigit, skipDigits_append isDigits.2 stop]

theorem Terminated.heads (terminated : Terminated rest) :
    startsWithDigit rest = false ∧ rest.head? ≠ some 0x2E ∧ rest.head? ≠ some 0x65 ∧
      rest.head? ≠ some 0x45 := by
  rcases terminated with rfl | ⟨first, others, rfl, rfl | rfl | rfl⟩
  · exact ⟨rfl, nofun, nofun, nofun⟩
  · exact ⟨rfl, by simp, by simp, by simp⟩
  · exact ⟨rfl, by simp, by simp, by simp⟩
  · exact ⟨rfl, by simp, by simp, by simp⟩

/-- A number is read up to its end. -/
theorem skipNumber_append {text : List UInt8} (isNumber : IsNumberText text)
    (terminated : Terminated rest) : skipNumber (text ++ rest) = some rest := by
  rcases isNumber.parts with
    ⟨sign, integer, fraction, exponent, rfl, isSign, isInteger, isFraction, isExponent⟩
  rcases terminated.heads with ⟨stop, noPoint, noSmall, noCapital⟩
  have afterFraction : startsWithDigit (exponent ++ rest) = false ∧
      (exponent ++ rest).head? ≠ some 0x2E := by
    rcases isExponent with rfl | ⟨_, _, rfl, _⟩
    · exact ⟨stop, noPoint⟩
    · exact ⟨rfl, by simp⟩
  have afterInteger : startsWithDigit (fraction ++ (exponent ++ rest)) = false := by
    rcases isFraction with rfl | ⟨_, rfl, _⟩
    · exact afterFraction.1
    · rfl
  have unsigned : skipMinus (sign ++ (integer ++ (fraction ++ (exponent ++ rest)))) =
      integer ++ (fraction ++ (exponent ++ rest)) := by
    rcases isSign with rfl | rfl
    · rw [List.nil_append]
      rcases isInteger with rfl | ⟨⟨notEmpty, areDigits⟩, _⟩
      · rfl
      · cases integer with
        | nil => exact absurd rfl notEmpty
        | cons first others =>
            have isDigit := areDigits first List.mem_cons_self
            unfold skipMinus
            split
            · next isMinus =>
                cases isMinus
                exact absurd isDigit (by decide)
            · rfl
    · rfl
  simp only [skipNumber, List.append_assoc, unsigned, skipInteger_append isInteger afterInteger,
    Option.bind_eq_bind, Option.bind_some,
    skipFraction_append isFraction afterFraction.1 afterFraction.2]
  exact skipExponent_append isExponent stop noSmall noCapital

theorem isDigits_decimal (number : ℕ) : IsDigits (Decimal.decimal number) :=
  ⟨Decimal.decimal_ne_nil number, fun _ => Decimal.isDigit_of_mem_decimal⟩

theorem isInteger_decimal (number : ℕ) : IsInteger (Decimal.decimal number) := by
  by_cases isZero : number = 0
  · subst isZero
    exact .inl rfl
  · refine .inr ⟨isDigits_decimal number, ?_⟩
    intro isHead
    have head := Decimal.head_decimal_ne_zero isZero
    rw [List.head?_eq_some_head (Decimal.decimal_ne_nil number), Option.some.injEq] at isHead
    exact head isHead

theorem isDigits_replicate (count : ℕ) {digits : List UInt8} (isDigits : IsDigits digits) :
    IsDigits (List.replicate count 0x30 ++ digits) := by
  refine ⟨by simp [isDigits.1], ?_⟩
  intro byte mem
  rcases List.mem_append.mp mem with inZeros | inDigits
  · rw [List.eq_of_mem_replicate inZeros]
    decide
  · exact isDigits.2 byte inDigits

/-- The first digits of a sequence that does not begin with a zero. -/
theorem isInteger_take {digits : List UInt8} (isDigits : IsDigits digits)
    (noZero : digits.head? ≠ some 0x30) {count : ℕ} (positive : 0 < count) :
    IsInteger (digits.take count) := by
  obtain ⟨count, rfl⟩ : ∃ less, count = less + 1 := ⟨count - 1, by omega⟩
  rcases isDigits with ⟨notEmpty, areDigits⟩
  cases digits with
  | nil => exact absurd rfl notEmpty
  | cons first others =>
      refine .inr ⟨⟨by simp, ?_⟩, ?_⟩
      · intro byte mem
        exact areDigits byte (List.mem_of_mem_take mem)
      · rw [List.take_succ_cons]
        exact noZero

theorem isDigits_drop {digits : List UInt8} (isDigits : IsDigits digits) {count : ℕ}
    (less : count < digits.length) : IsDigits (digits.drop count) := by
  refine ⟨by simpa using less, ?_⟩
  intro byte mem
  exact isDigits.2 byte (List.mem_of_mem_drop mem)

theorem isFraction_point {digits : List UInt8} (isDigits : IsDigits digits) :
    IsFraction ([0x2E] ++ digits) :=
  .inr ⟨digits, rfl, isDigits⟩

end Numbers

/-- What a number is read back as. -/
def EcmaNumber.readBack : EcmaNumber → EcmaNumber
  | .negativeZero => .finite 0
  | number => number

/-- The two conversions fit together on a number: it has digits, which do not begin with a
zero, and its text is read as the number. -/
structure NumberConversion.ReadsBack (numbers : NumberConversion) (number : EcmaNumber) : Prop where
  isDigits : ∀ value, number = .finite value → value ≠ 0 → IsDigits (numbers.toDecimal |value|).1
  noZero : ∀ value, number = .finite value → value ≠ 0 →
    (numbers.toDecimal |value|).1.head? ≠ some 0x30
  reads : numbers.fromDecimal (ecmaNumberToUtf8String numbers number) = number.readBack

/-- Digits with a point behind the first, if there are more. -/
theorem exists_mantissa {digits : List UInt8} (isDigits : IsDigits digits)
    (noZero : digits.head? ≠ some 0x30) :
    ∃ integer fraction, IsInteger integer ∧ IsFraction fraction ∧
      (if (digits.length : ℤ) = 1 then digits else digits.take 1 ++ [0x2E] ++ digits.drop 1) =
        integer ++ fraction := by
  have positive : 0 < digits.length := List.length_pos_of_ne_nil isDigits.1
  split_ifs with single
  · exact ⟨digits, [], .inr ⟨isDigits, noZero⟩, .inl rfl, (List.append_nil digits).symm⟩
  · exact ⟨digits.take 1, [0x2E] ++ digits.drop 1, isInteger_take isDigits noZero Nat.one_pos,
      isFraction_point (isDigits_drop isDigits (by omega)), List.append_assoc _ _ _⟩

theorem isExponent_decimal (positive : Prop) [Decidable positive] (number : ℕ) :
    IsExponent ([0x65] ++ ((if positive then [0x2B] else [0x2D]) ++ Decimal.decimal number)) := by
  refine .inr ⟨if positive then 0x2B else 0x2D, Decimal.decimal number, ?_, ?_,
    isDigits_decimal number⟩
  · split_ifs <;> rfl
  · split_ifs
    · exact .inl rfl
    · exact .inr rfl

/-- The text of a positive number. -/
theorem isNumberText_digits {digits : List UInt8} (isDigits : IsDigits digits)
    (noZero : digits.head? ≠ some 0x30) {sign : List UInt8} (isSign : sign = [] ∨ sign = [0x2D])
    (n : ℤ) :
    IsNumberText (sign ++
      if (digits.length : ℤ) ≤ n ∧ n ≤ 21 then
        digits ++ List.replicate (n - digits.length).toNat 0x30
      else if 0 < n ∧ n ≤ 21 then
        digits.take n.toNat ++ [0x2E] ++ digits.drop n.toNat
      else if -6 < n ∧ n ≤ 0 then
        [0x30, 0x2E] ++ List.replicate (-n).toNat 0x30 ++ digits
      else
        (if (digits.length : ℤ) = 1 then digits else digits.take 1 ++ [0x2E] ++ digits.drop 1) ++
          [0x65] ++ (if 1 ≤ n then [0x2B] else [0x2D]) ++
          Decimal.decimal (if 1 ≤ n then n - 1 else -(n - 1)).toNat) := by
  have positive : 0 < digits.length := List.length_pos_of_ne_nil isDigits.1
  by_cases whole : (digits.length : ℤ) ≤ n ∧ n ≤ 21
  · rw [if_pos whole]
    refine ⟨sign, digits ++ List.replicate (n - digits.length).toNat 0x30, [], [], by simp, isSign,
      .inr ⟨⟨by simp [isDigits.1], ?_⟩, ?_⟩, .inl rfl, .inl rfl⟩
    · intro byte mem
      rcases List.mem_append.mp mem with inDigits | inZeros
      · exact isDigits.2 byte inDigits
      · rw [List.eq_of_mem_replicate inZeros]
        decide
    · rw [List.head?_append_of_ne_nil _ isDigits.1]
      exact noZero
  · rw [if_neg whole]
    by_cases pointed : 0 < n ∧ n ≤ 21
    · rw [if_pos pointed]
      exact ⟨sign, digits.take n.toNat, [0x2E] ++ digits.drop n.toNat, [], by simp, isSign,
        isInteger_take isDigits noZero (by omega),
        isFraction_point (isDigits_drop isDigits (by omega)), .inl rfl⟩
    · rw [if_neg pointed]
      by_cases small : -6 < n ∧ n ≤ 0
      · rw [if_pos small]
        exact ⟨sign, [0x30], [0x2E] ++ (List.replicate (-n).toNat 0x30 ++ digits), [], by simp,
          isSign, .inl rfl, isFraction_point (isDigits_replicate _ isDigits), .inl rfl⟩
      · rw [if_neg small]
        rcases exists_mantissa isDigits noZero with ⟨integer, fraction, isInteger, isFraction, same⟩
        rw [same]
        refine ⟨sign, integer, fraction, _, ?_, isSign, isInteger, isFraction,
          isExponent_decimal (1 ≤ n) (if 1 ≤ n then n - 1 else -(n - 1)).toNat⟩
        simp only [List.append_assoc]

/-- The text of a finite number. -/
theorem isNumberText_ecmaNumberToUtf8String {numbers : NumberConversion} {number : EcmaNumber}
    (isFinite : number.isFinite = true) (readsBack : numbers.ReadsBack number) :
    IsNumberText (ecmaNumberToUtf8String numbers number) := by
  have isZero : IsNumberText [0x30] :=
    ⟨[], [0x30], [], [], rfl, .inl rfl, .inl rfl, .inl rfl, .inl rfl⟩
  cases number with
  | nan => cases isFinite
  | infinity negative => cases isFinite
  | negativeZero => exact isZero
  | finite value =>
      have isDigits := readsBack.isDigits value rfl
      have noZero := readsBack.noZero value rfl
      obtain ⟨sign, isSign, same⟩ : ∃ sign : List UInt8, (sign = [] ∨ sign = [0x2D]) ∧
          (if value < 0 then [0x2D] else []) = sign := by
        split_ifs
        · exact ⟨[0x2D], .inr rfl, rfl⟩
        · exact ⟨[], .inl rfl, rfl⟩
      rw [ecmaNumberToUtf8String]
      by_cases zero : value = 0
      · rw [if_pos zero]
        exact isZero
      · rw [if_neg zero]
        simp only [same]
        by_cases isUint : EcmaNumber.eqInt (.finite |value|) (EcmaNumber.toUint32 (.finite |value|))
        · rw [if_pos isUint]
          exact ⟨sign, Decimal.decimal (EcmaNumber.finite |value|).toUint32, [], [],
            by simp only [List.append_nil], isSign, isInteger_decimal _,
            .inl rfl, .inl rfl⟩
        · rw [if_neg isUint]
          exact isNumberText_digits (isDigits zero) (noZero zero) isSign _

/-- The first character of a number. -/
theorem IsNumberText.exists_first {text : List UInt8} (isNumber : IsNumberText text) :
    ∃ first others, text = first :: others ∧ (first = 0x2D ∨ Decimal.IsDigit first) := by
  rcases isNumber.parts with ⟨sign, integer, fraction, exponent, rfl, isSign, isInteger, _⟩
  rcases isSign with rfl | rfl
  · rcases isInteger with rfl | ⟨⟨notEmpty, areDigits⟩, _⟩
    · exact ⟨0x30, fraction ++ exponent, by simp, .inr (by decide)⟩
    · cases integer with
      | nil => exact absurd rfl notEmpty
      | cons first others =>
          exact ⟨first, others ++ fraction ++ exponent, by simp,
            .inr (areDigits first List.mem_cons_self)⟩
  · exact ⟨0x2D, integer ++ fraction ++ exponent, by simp, .inl rfl⟩

/-- A number is scanned as a whole. -/
theorem ecmaBuiltinJsonParseNumber_append (numbers : NumberConversion) {text rest : List UInt8}
    (isNumber : IsNumberText text) (terminated : Terminated rest) :
    ecmaBuiltinJsonParseNumber numbers (text ++ rest) =
      (.number (numbers.fromDecimal text), rest) := by
  rw [ecmaBuiltinJsonParseNumber, skipNumber_append isNumber terminated]
  simp

/-- What follows a number is a character that cannot belong to it. -/
theorem nextToken_number (numbers : NumberConversion) (parseString : Bool)
    {text rest : List UInt8} (isNumber : IsNumberText text) (terminated : Terminated rest) :
    ecmaBuiltinJsonParseNextToken numbers (text ++ rest) parseString =
      .ok (.number (numbers.fromDecimal text), rest) := by
  have scanned := ecmaBuiltinJsonParseNumber_append numbers isNumber terminated
  rcases isNumber.exists_first with ⟨first, others, rfl, isFirst⟩
  have other : ∀ byte : UInt8, byte ≠ 0x2D → ¬Decimal.IsDigit byte → first ≠ byte := by
    rintro byte notMinus notDigit rfl
    rcases isFirst with isMinus | isDigit
    · exact notMinus isMinus
    · exact notDigit isDigit
  have noSpace : isJsonSpace first = false := by
    simp [isJsonSpace, other 0x20 (by decide) (by decide), other 0x0D (by decide) (by decide),
      other 0x0A (by decide) (by decide), other 0x09 (by decide) (by decide)]
  have current : (first :: others ++ rest).dropWhile isJsonSpace = first :: others ++ rest := by
    rw [List.cons_append, List.dropWhile_cons_of_neg]
    simp [noSpace]
  rw [ecmaBuiltinJsonParseNextToken, current]
  simp only [List.cons_append] at scanned ⊢
  simp only [if_neg (other 0x7B (by decide) (by decide)),
    if_neg (other 0x7D (by decide) (by decide)), if_neg (other 0x5B (by decide) (by decide)),
    if_neg (other 0x5D (by decide) (by decide)), if_neg (other 0x2C (by decide) (by decide)),
    if_neg (other 0x3A (by decide) (by decide)), if_neg (other 0x22 (by decide) (by decide)),
    if_neg (other 0x6E (by decide) (by decide)), if_neg (other 0x74 (by decide) (by decide)),
    if_neg (other 0x66 (by decide) (by decide)), if_pos isFirst, scanned]
  rfl

end Cmsframe
