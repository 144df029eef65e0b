import Cmsframe.Engine.Conventions
import Cmsframe.Json.Quote

/-!
# JSON texts

The trees that JSON texts denote, and the text of a tree as the serialiser writes it
without a gap. Sharing is not visible in a tree: what is written twice occurs twice.
-/

namespace Cmsframe

open Unicode (CodeUnit)

/-- A JSON value. Objects keep the order of their members. -/
inductive Json where
  | null
  | boolean (value : Bool)
  | number (value : EcmaNumber)
  | string (units : List CodeUnit)
  | array (items : List Json)
  | object (members : List (List CodeUnit × Json))

/-- A string literal. -/
def quotedUnits (units : List CodeUnit) : List CodeUnit := [0x22] ++ escapeUnits units ++ [0x22]

/-- Pieces with commas between them. -/
def commaSeparated (pieces : List (List CodeUnit)) : List CodeUnit := List.intercalate [0x2C] pieces

mutual

/-- The text of a value. -/
def Json.units (numbers : NumberConversion) : Json → List CodeUnit
  | .null => magicText "null"
  | .boolean true => magicText "true"
  | .boolean false => magicText "false"
  | .number value => numberUnits numbers value
  | .string units => quotedUnits units
  | .array items => [0x5B] ++ commaSeparated (Json.itemUnits numbers items) ++ [0x5D]
  | .object members => [0x7B] ++ commaSeparated (Json.memberUnits numbers members) ++ [0x7D]

/-- The texts of the items of an array. -/
def Json.itemUnits (numbers : NumberConversion) : List Json → List (List CodeUnit)
  | [] => []
  | item :: items => item.units numbers :: Json.itemUnits numbers items

/-- The texts of the members of an object. -/
def Json.memberUnits (numbers : NumberConversion) :
    List (List CodeUnit × Json) → List (List CodeUnit)
  | [] => []
  | (key, value) :: members =>
      (quotedUnits key ++ [0x3A] ++ value.units numbers) :: Json.memberUnits numbers members

end

namespace Json

variable (numbers : NumberConversion)

/-- The text of one member. -/
def memberText (member : List CodeUnit × Json) : List CodeUnit :=
  quotedUnits member.1 ++ [0x3A] ++ member.2.units numbers

theorem itemUnits_eq (items : List Json) : itemUnits numbers items = items.map (units numbers) := by
  induction items with
  | nil => rw [itemUnits, List.map_nil]
  | cons item items ih => rw [itemUnits, ih, List.map_cons]

theorem memberUnits_eq (members : List (List CodeUnit × Json)) :
    memberUnits numbers members = members.map (memberText numbers) := by
  induction members with
  | nil => rw [memberUnits, List.map_nil]
  | cons member members ih => rw [memberUnits, ih, List.map_cons, memberText]

end Json

/-- Writing a comma after every piece is writing the separated pieces and one more comma. -/
theorem flatMap_comma {pieces : List (List CodeUnit)} (nonempty : pieces ≠ []) :
    (pieces.flatMap fun piece => piece ++ [0x2C]) = commaSeparated pieces ++ [0x2C] := by
  induction pieces with
  | nil => exact absurd rfl nonempty
  | cons piece pieces ih =>
      cases pieces with
      | nil => simp [commaSeparated, List.intercalate]
      | cons next pieces =>
          rw [List.flatMap_cons, ih (List.cons_ne_nil next pieces)]
          simp [commaSeparated, List.intercalate]

theorem commaSeparated_cons (piece : List CodeUnit) (pieces : List (List CodeUnit)) :
    commaSeparated (piece :: pieces) = piece ++ pieces.flatMap fun other => [0x2C] ++ other := by
  induction pieces generalizing piece with
  | nil => simp [commaSeparated, List.intercalate]
  | cons next pieces ih =>
      have rest := ih next
      simp only [commaSeparated, List.intercalate] at rest
      simp [commaSeparated, List.intercalate, rest]

/-- The separated pieces, split at one of them. -/
theorem commaSeparated_split {pieces : List (List CodeUnit)} {index : ℕ} {piece : List CodeUnit}
    (isPiece : pieces[index]? = some piece) :
    commaSeparated pieces =
      ((pieces.take index).flatMap fun other => other ++ [0x2C]) ++ piece ++
        (pieces.drop (index + 1)).flatMap fun other => [0x2C] ++ other := by
  induction pieces generalizing index with
  | nil => cases isPiece
  | cons first pieces ih =>
      cases index with
      | zero =>
          cases isPiece
          simp [commaSeparated_cons]
      | succ index =>
          rw [List.getElem?_cons_succ] at isPiece
          cases pieces with
          | nil => cases isPiece
          | cons second pieces =>
              have rest := ih isPiece
              rw [commaSeparated_cons] at rest
              simp only [commaSeparated_cons, List.flatMap_cons, List.append_assoc, rest]
              simp

/-- The pieces before a later one include the earlier one and its comma. -/
theorem length_before_lt {pieces : List (List CodeUnit)} {index later : ℕ}
    {piece : List CodeUnit} (isPiece : pieces[index]? = some piece) (less : index < later) :
    ((pieces.take index).flatMap fun other => other ++ [0x2C]).length + piece.length <
      ((pieces.take later).flatMap fun other => other ++ [0x2C]).length := by
  obtain ⟨between, rfl⟩ : ∃ between, later = index + 1 + between := ⟨later - (index + 1), by omega⟩
  have split : pieces.take (index + 1 + between) =
      pieces.take index ++ [piece] ++ (pieces.drop (index + 1)).take between := by
    rw [List.take_add, List.take_add_one, isPiece]
    rfl
  rw [split]
  simp only [List.flatMap_append, List.flatMap_cons, List.flatMap_nil, List.length_append,
    List.length_singleton, List.append_nil]
  omega

namespace Json

variable (numbers : NumberConversion)

/-- A value directly below another one, with the text before and after it. Items and
members are counted from zero. -/
def child : Json → ℕ → Option (List CodeUnit × Json × List CodeUnit)
  | .array items, index => items[index]?.map fun item =>
      ([0x5B] ++ ((itemUnits numbers items).take index).flatMap fun piece => piece ++ [0x2C],
        item,
        (((itemUnits numbers items).drop (index + 1)).flatMap fun piece => [0x2C] ++ piece) ++
          [0x5D])
  | .object members, index => members[index]?.map fun member =>
      ([0x7B] ++ (((memberUnits numbers members).take index).flatMap fun piece =>
          piece ++ [0x2C]) ++ (quotedUnits member.1 ++ [0x3A]),
        member.2,
        (((memberUnits numbers members).drop (index + 1)).flatMap fun piece => [0x2C] ++ piece) ++
          [0x7D])
  | _, _ => none

/-- A value somewhere below another one, with the text before and after it. -/
def locate : List ℕ → Json → Option (List CodeUnit × Json × List CodeUnit)
  | [], json => some ([], json, [])
  | index :: indices, json =>
      match json.child numbers index with
      | none => none
      | some (before, value, after) =>
          (locate indices value).map fun place =>
            (before ++ place.1, place.2.1, place.2.2 ++ after)

variable {numbers} {json value other : Json} {before after earlier later : List CodeUnit}

theorem child_units {index : ℕ} (isChild : json.child numbers index = some (before, value, after)) :
    json.units numbers = before ++ value.units numbers ++ after := by
  cases json with
  | array items =>
      simp only [child, Option.map_eq_some_iff, Prod.mk.injEq] at isChild
      rcases isChild with ⟨item, isItem, rfl, rfl, rfl⟩
      have isPiece : (itemUnits numbers items)[index]? = some (item.units numbers) := by
        rw [itemUnits_eq, List.getElem?_map, isItem, Option.map_some]
      rw [units, commaSeparated_split isPiece]
      simp
  | object members =>
      simp only [child, Option.map_eq_some_iff, Prod.mk.injEq] at isChild
      rcases isChild with ⟨member, isMember, rfl, rfl, rfl⟩
      have isPiece : (memberUnits numbers members)[index]? = some (memberText numbers member) := by
        rw [memberUnits_eq, List.getElem?_map, isMember, Option.map_some]
      rw [units, commaSeparated_split isPiece]
      simp [memberText]
  | _ => cases isChild

theorem child_before_ne_nil {index : ℕ}
    (isChild : json.child numbers index = some (before, value, after)) : before ≠ [] := by
  cases json with
  | array items =>
      simp only [child, Option.map_eq_some_iff, Prod.mk.injEq] at isChild
      rcases isChild with ⟨item, _, rfl, _, _⟩
      exact List.cons_ne_nil _ _
  | object members =>
      simp only [child, Option.map_eq_some_iff, Prod.mk.injEq] at isChild
      rcases isChild with ⟨member, _, rfl, _, _⟩
      exact List.cons_ne_nil _ _
  | _ => cases isChild

/-- A value is written before the values after it. -/
theorem child_order {index next : ℕ} (less : index < next)
    (isChild : json.child numbers index = some (before, value, after))
    (isNext : json.child numbers next = some (earlier, other, later)) :
    before.length + (value.units numbers).length < earlier.length := by
  cases json with
  | array items =>
      simp only [child, Option.map_eq_some_iff, Prod.mk.injEq] at isChild isNext
      rcases isChild with ⟨item, isItem, rfl, rfl, _⟩
      rcases isNext with ⟨_, _, rfl, _, _⟩
      have isPiece : (itemUnits numbers items)[index]? = some (item.units numbers) := by
        rw [itemUnits_eq, List.getElem?_map, isItem, Option.map_some]
      have longer := length_before_lt isPiece less
      simp only [List.length_append, List.length_singleton]
      omega
  | object members =>
      simp only [child, Option.map_eq_some_iff, Prod.mk.injEq] at isChild isNext
      rcases isChild with ⟨member, isMember, rfl, rfl, _⟩
      rcases isNext with ⟨_, _, rfl, _, _⟩
      have isPiece : (memberUnits numbers members)[index]? = some (memberText numbers member) := by
        rw [memberUnits_eq, List.getElem?_map, isMember, Option.map_some]
      have longer := length_before_lt isPiece less
      simp only [memberText, List.length_append, List.length_singleton] at longer ⊢
      omega
  | _ => cases isChild

theorem locate_cons {index : ℕ} {indices : List ℕ}
    (located : json.locate numbers (index :: indices) = some (before, value, after)) :
    ∃ first middle last inner rest, json.child numbers index = some (first, middle, last) ∧
      middle.locate numbers indices = some (inner, value, rest) ∧
        before = first ++ inner ∧ after = rest ++ last := by
  rw [locate] at located
  cases isChild : json.child numbers index with
  | none =>
      rw [isChild] at located
      cases located
  | some place =>
      rcases place with ⟨first, middle, last⟩
      rw [isChild] at located
      simp only [Option.map_eq_some_iff, Prod.mk.injEq] at located
      rcases located with ⟨⟨inner, found, rest⟩, isInner, rfl, rfl, rfl⟩
      exact ⟨first, middle, last, inner, rest, rfl, isInner, rfl, rfl⟩

/-- The text of a value contains the texts of all values below it. -/
theorem locate_units {indices : List ℕ}
    (located : json.locate numbers indices = some (before, value, after)) :
    json.units numbers = before ++ value.units numbers ++ after := by
  induction indices generalizing json before after with
  | nil =>
      cases located
      simp
  | cons index indices ih =>
      rcases locate_cons located with ⟨first, middle, last, inner, rest, isChild, isInner, rfl, rfl⟩
      rw [child_units isChild, ih isInner]
      simp

/-- A value below an item or member begins within its text. -/
theorem locate_before_lt {index next : ℕ} {indices others : List ℕ} (less : index < next)
    (located : json.locate numbers (index :: indices) = some (before, value, after))
    (alsoLocated : json.locate numbers (next :: others) = some (earlier, other, later)) :
    before.length < earlier.length := by
  rcases locate_cons located with ⟨first, middle, last, inner, rest, isChild, isInner, rfl, rfl⟩
  rcases locate_cons alsoLocated with ⟨begun, _, _, further, _, isNext, _, rfl, rfl⟩
  have ordered := child_order less isChild isNext
  have within := congrArg List.length (locate_units isInner)
  simp only [List.length_append] at within ⊢
  omega

/-- Values at different places begin at different positions of the text. -/
theorem locate_injective {indices others : List ℕ}
    (located : json.locate numbers indices = some (before, value, after))
    (alsoLocated : json.locate numbers others = some (earlier, other, later))
    (samePosition : before.length = earlier.length) : indices = others := by
  induction indices generalizing json others before earlier after later with
  | nil =>
      cases others with
      | nil => rfl
      | cons next others =>
          cases located
          rcases locate_cons alsoLocated with ⟨first, _, _, inner, _, isChild, _, rfl, rfl⟩
          have notEmpty := List.length_pos_of_ne_nil (child_before_ne_nil isChild)
          rw [List.length_append, List.length_nil] at samePosition
          omega
  | cons index indices ih =>
      cases others with
      | nil =>
          cases alsoLocated
          rcases locate_cons located with ⟨first, _, _, inner, _, isChild, _, rfl, rfl⟩
          have notEmpty := List.length_pos_of_ne_nil (child_before_ne_nil isChild)
          rw [List.length_append, List.length_nil] at samePosition
          omega
      | cons next others =>
          rcases lt_trichotomy index next with less | rfl | less
          · have ordered := locate_before_lt less located alsoLocated
            omega
          · rcases locate_cons located with
              ⟨first, middle, last, inner, rest, isChild, isInner, rfl, rfl⟩
            rcases locate_cons alsoLocated with
              ⟨begun, center, ended, further, trailing, isNext, isFurther, rfl, rfl⟩
            rw [isChild] at isNext
            cases isNext
            rw [List.length_append, List.length_append] at samePosition
            rw [ih isInner isFurther (by omega)]
          · have ordered := locate_before_lt less alsoLocated located
            omega

end Json

end Cmsframe
