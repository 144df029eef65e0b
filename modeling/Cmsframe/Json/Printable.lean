import Cmsframe.Json.RoundTrip

/-!
# Printable texts

The text of a readable tree is a text: surrogates occur in pairs only, since quoting escapes
the other ones, and control characters do not occur at all. Its UTF-8 form has the same two
properties, so the printer has nothing to escape in it.
-/

namespace Cmsframe

open Unicode (CodeUnit Paired asciiUnits utf8 IsHighSurrogate IsLowSurrogate)

/-- A text without control characters. -/
structure Printable (units : List CodeUnit) : Prop where
  paired : Paired units
  noControl : ∀ unit ∈ units, 0x20 ≤ unit.toNat

namespace Printable

theorem nil : Printable [] := ⟨.nil, List.forall_mem_nil _⟩

theorem append {left right : List CodeUnit} (printableLeft : Printable left)
    (printableRight : Printable right) : Printable (left ++ right) := by
  refine ⟨printableLeft.paired.append printableRight.paired, ?_⟩
  intro unit mem
  rcases List.mem_append.mp mem with inLeft | inRight
  · exact printableLeft.noControl unit inLeft
  · exact printableRight.noControl unit inRight

theorem flatMap {Piece : Type} {pieces : List Piece} {text : Piece → List CodeUnit}
    (each : ∀ piece ∈ pieces, Printable (text piece)) : Printable (pieces.flatMap text) := by
  induction pieces with
  | nil => exact nil
  | cons piece pieces ih =>
      rw [List.flatMap_cons]
      apply (each piece List.mem_cons_self).append
      apply ih
      intro other mem
      exact each other (List.mem_cons_of_mem piece mem)

/-- A character that is written with one code unit. -/
theorem singleton {unit : CodeUnit} (notHigh : ¬IsHighSurrogate unit.toNat)
    (notLow : ¬IsLowSurrogate unit.toNat) (above : 0x20 ≤ unit.toNat) : Printable [unit] := by
  refine ⟨.unit notHigh notLow .nil, ?_⟩
  intro other mem
  rwa [List.mem_singleton.mp mem]

theorem ofAscii {bytes : List UInt8}
    (ascii : ∀ byte ∈ bytes, 0x20 ≤ byte.toNat ∧ byte.toNat < 0x80) :
    Printable (asciiUnits bytes) := by
  rw [asciiUnits, List.map_eq_flatMap]
  apply flatMap
  intro byte mem
  have bounds := ascii byte mem
  apply singleton
  · rw [Unicode.toNat_asciiUnit, IsHighSurrogate]
    omega
  · rw [Unicode.toNat_asciiUnit, IsLowSurrogate]
    omega
  · rw [Unicode.toNat_asciiUnit]
    exact bounds.1

theorem commaSeparated {pieces : List (List CodeUnit)}
    (each : ∀ piece ∈ pieces, Printable piece) : Printable (commaSeparated pieces) := by
  have comma : Printable [0x2C] := singleton (by decide) (by decide) (by decide)
  cases pieces with
  | nil => exact nil
  | cons piece pieces =>
      rw [commaSeparated_cons]
      apply (each piece List.mem_cons_self).append
      apply flatMap
      intro other mem
      exact comma.append (each other (List.mem_cons_of_mem piece mem))

end Printable

theorem printable_escapeUnit (unit : CodeUnit) : Printable (escapeUnit unit) := by
  have escaped : Printable (asciiUnits (escapeControl unit.toNat)) :=
    .ofAscii (escapeControl_bounds unit.toNat)
  unfold escapeUnit
  split_ifs with surrogate quoted control
  · exact escaped
  · have backslash : Printable [0x5C] := .singleton (by decide) (by decide) (by decide)
    have character : Printable [unit] := by
      apply Printable.singleton
      · intro isHigh
        exact surrogate (.inl isHigh)
      · intro isLow
        exact surrogate (.inr isLow)
      · omega
    exact backslash.append character
  · exact escaped
  · apply Printable.singleton
    · intro isHigh
      exact surrogate (.inl isHigh)
    · intro isLow
      exact surrogate (.inr isLow)
    · omega

/-- Pairs of surrogates are copied, and everything else is escaped unit by unit. -/
theorem printable_escapeUnits (units : List CodeUnit) : Printable (escapeUnits units) := by
  induction units using escapeUnits.induct with
  | case1 => exact .nil
  | case2 unit => exact printable_escapeUnit unit
  | case3 first second rest pair ih =>
      rw [escapeUnits, if_pos pair]
      refine ⟨.pair pair.1 pair.2 ih.paired, ?_⟩
      intro unit mem
      rcases pair with ⟨isHigh, isLow⟩
      unfold IsHighSurrogate at isHigh
      unfold IsLowSurrogate at isLow
      rcases List.mem_cons.mp mem with rfl | mem
      · omega
      · rcases List.mem_cons.mp mem with rfl | inRest
        · omega
        · exact ih.noControl unit inRest
  | case4 first second rest noPair ih =>
      rw [escapeUnits, if_neg noPair]
      exact (printable_escapeUnit first).append ih

theorem printable_quotedUnits (units : List CodeUnit) : Printable (quotedUnits units) := by
  have quote : Printable [0x22] := .singleton (by decide) (by decide) (by decide)
  exact (quote.append (printable_escapeUnits units)).append quote

theorem printable_magicText {text : String} (isAscii : magicText text = asciiUnits (asciiBytes text))
    (bounds : ((asciiBytes text).all fun byte => 0x20 ≤ byte.toNat ∧ byte.toNat < 0x80) = true) :
    Printable (magicText text) := by
  rw [isAscii]
  apply Printable.ofAscii
  simpa using bounds

/-- The text of a readable tree has no control characters and no lone surrogates. -/
theorem Json.Readable.printable {numbers : NumberConversion} {json : Json}
    (readable : json.Readable numbers) : Printable (json.units numbers) := by
  have mark : ∀ {unit : CodeUnit}, 0x20 ≤ unit.toNat → unit.toNat < 0x80 → Printable [unit] := by
    intro unit above below
    apply Printable.singleton _ _ above
    · unfold IsHighSurrogate
      omega
    · unfold IsLowSurrogate
      omega
  induction readable with
  | null => exact printable_magicText rfl rfl
  | boolean value =>
      cases value with
      | true => exact printable_magicText rfl rfl
      | false => exact printable_magicText rfl rfl
  | @number value isFinite readsBack =>
      rw [units, numberUnits_eq]
      exact .ofAscii (isNumberText_ecmaNumberToUtf8String isFinite readsBack).ascii
  | string units => exact printable_quotedUnits units
  | @array items _ ih =>
      rw [units, itemUnits_eq]
      apply ((mark (by decide) (by decide)).append _).append (mark (by decide) (by decide))
      apply Printable.commaSeparated
      intro piece mem
      rcases List.mem_map.mp mem with ⟨item, isItem, rfl⟩
      exact ih item isItem
  | @object members _ _ ih =>
      rw [units, memberUnits_eq]
      apply ((mark (by decide) (by decide)).append _).append (mark (by decide) (by decide))
      apply Printable.commaSeparated
      intro piece mem
      rcases List.mem_map.mp mem with ⟨member, isMember, rfl⟩
      apply ((printable_quotedUnits member.1).append (mark (by decide) (by decide))).append
      exact ih member isMember

end Cmsframe
