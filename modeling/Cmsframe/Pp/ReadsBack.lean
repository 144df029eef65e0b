import Cmsframe.Json.Printable
import Cmsframe.Plain.Data
import Cmsframe.Pp.Agreement
import Cmsframe.Print.Buffer

/-!
# Reading the output of `pp` back

What a call of `pp` prints for data is the UTF-8 form of a JSON text. The printer changes
nothing in it, and the parser of the engine rebuilds the tree of the value from it, so
values that are printed alike are alike.
-/

namespace Cmsframe

open Interaction
open Unicode (CodeUnit cesu8 utf8 utf16)

/-- The call of `pp` with an object. -/
def callPp (numbers : NumberConversion) (isMagicString : List CodeUnit → Bool) (fuel : ℕ)
    (nested : NestedCall PlainHeap (List UInt8)) (heap : PlainHeap) (root : EcmaObject)
    (next : Pointer) : Outcome (List UInt8) Fault ((EcmaValue × Frame) × World PlainHeap) :=
  (Native.cmsHandlerPp (plainRealm numbers isMagicString) fuel [.ofObject root]).observe
    (environment id nested) (Frame.initial (argumentReferences [.ofObject root])) ⟨heap, next⟩

/-- The parser on a text, which is the string of its code units to the engine. -/
def parseText (numbers : NumberConversion) (fuel : ℕ) (text : List Char) :
    Except ParseStop (Option Json) :=
  ecmaBuiltinJsonParseBuffer numbers fuel (cesu8 (utf16 text))

/-- A printed line that is read as a tree: it is the UTF-8 form of a text without control
characters, from which the parser rebuilds the tree. -/
def ReadAs (numbers : NumberConversion) (line : List UInt8) (json : Json) : Prop :=
  (∀ byte ∈ line, 0x20 ≤ byte.toNat) ∧
    ∃ text : List Char, line = text.flatMap String.utf8EncodeChar ∧
      ∀ fuel, (utf16 text).length ≤ fuel → parseText numbers fuel text = .ok (some json)

section Lines

variable {numbers : NumberConversion} {line : List UInt8} {json other : Json}

/-- A line is read in one way. -/
theorem ReadAs.unique (read : ReadAs numbers line json) (readOther : ReadAs numbers line other) :
    json = other := by
  rcases read.2 with ⟨text, encoded, parsed⟩
  rcases readOther.2 with ⟨otherText, otherEncoded, otherParsed⟩
  rw [encoded] at otherEncoded
  have same : text = otherText := Unicode.utf8EncodeChar_injective otherEncoded
  subst same
  have results := parsed _ le_rfl
  rw [otherParsed _ le_rfl] at results
  cases results
  rfl

/-- The text of a readable tree is printed without a change, and read back. -/
theorem Json.Readable.readAs (readable : json.Readable numbers) :
    ReadAs numbers (utf8 (json.units numbers)) json.readBack := by
  have printable := readable.printable
  refine ⟨fun byte mem => Unicode.le_of_mem_utf8 (by norm_num) printable.noControl mem, ?_⟩
  rcases printable.paired.exists_text with ⟨text, sameUnits, sameBytes⟩
  refine ⟨text, sameBytes, ?_⟩
  intro fuel enough
  rw [sameUnits] at enough
  rw [parseText, sameUnits]
  exact readable.parseBuffer enough

theorem printedText_of_printable {units : List CodeUnit} (printable : Printable units) :
    printedText units = utf8 units := by
  rw [printedText_eq_escape]
  apply flatMap_escapeByte_of_pos
  intro byte mem
  have above := Unicode.le_of_mem_utf8 (by norm_num) printable.noControl mem
  omega

end Lines

section Calls

variable {numbers : NumberConversion} {isMagicString : List CodeUnit → Bool} {fuel : ℕ}
variable {heap : PlainHeap} {root : EcmaObject}

/-- The output of a call with an object that is converted to a string. -/
theorem callPp_of_stringifies {turns : ℕ} {text : List CodeUnit}
    (stringifies : Native.StringifiesTo (plainRealm numbers isMagicString) turns fuel heap root
      text) (nested : NestedCall PlainHeap (List UInt8)) (next : Pointer) :
    ∃ (string : EcmaString) (after : World PlainHeap), string.units = text ∧
      callPp numbers isMagicString fuel nested heap root next =
        ⟨cmsBuffers string.units ++ [asciiBytes "\n"],
          .ok ((.undefined, Frame.initial (argumentReferences [.ofObject root])), after)⟩ := by
  have alive := alive_of_mem (List.mem_singleton_self (ScriptValue.ofObject root))
  rcases Native.conversion_of_stringifies (plainRealm numbers isMagicString) fuel id nested
    stringifies alive next with ⟨string, after, converted, isText⟩
  refine ⟨string, ⟨heap, after⟩, isText, ?_⟩
  rw [callPp, Native.cmsHandlerPp, Native.observe_handlePrint_cons _ _ _ _ _ _ alive,
    converted, Outcome.bind_pure]
  simp [Native.observe_handlePrint_nil, Native.separator, Outcome.prepend, Frame.initial]

theorem owns_root (isData : heap.IsData numbers (.object root)) : heap.Owns (.object root) := by
  rcases (isData.datum _ .refl).cases with ⟨_, _, isCell⟩ | ⟨_, _, isCell⟩
  · exact .of_cell isCell
  · exact .of_cell isCell

/-- What `pp` prints for a value that is data. -/
theorem callPp_data (isMagicString : List CodeUnit → Bool)
    (isData : heap.IsData numbers (.object root)) (acyclic : ¬heap.ReachesCycle root)
    (enough : heap.cells.length < fuel) (nested : NestedCall PlainHeap (List UInt8))
    (next : Pointer) :
    ∃ (json : Json) (string : EcmaString) (after : World PlainHeap),
      heap.Represents json (.object root) ∧
      (∀ other, heap.Represents other (.object root) → other = json) ∧
      json.Readable numbers ∧ string.units = json.units numbers ∧
      callPp numbers isMagicString fuel nested heap root next =
        ⟨cmsBuffers string.units ++ [asciiBytes "\n"],
          .ok ((.undefined, Frame.initial (argumentReferences [.ofObject root])), after)⟩ := by
  rcases PlainHeap.explore_data isData acyclic enough with
    ⟨json, represents, unique, explored⟩
  have stringifies := @Native.stringifiesTo_plain heap numbers isMagicString 0 fuel root json
    (owns_root isData) explored
  rcases callPp_of_stringifies stringifies nested next with ⟨string, after, isText, printed⟩
  exact ⟨json, string, after, represents, unique, represents.readable isData, isText, printed⟩

/-- The line without the newline. -/
theorem flatten_output {string : EcmaString} (printable : Printable string.units) :
    (cmsBuffers string.units ++ [asciiBytes "\n"]).flatten =
      utf8 string.units ++ asciiBytes "\n" := by
  rw [List.flatten_append, cmsBuffers_flatten, printedText_of_printable printable,
    List.flatten_singleton]

end Calls

/-- For every object that is data without a cycle `pp` prints one line: the bytes of a string
that the printer takes as they are, none of them a NUL or another control character. They are
the UTF-8 form of a text that the parser of the engine reads as the tree of the object, with
zero for the negative zero and with all keys in their order. Two objects for which the same
line is printed are therefore the same, up to the sign of zero. -/
theorem callPp_readsBack (numbers : NumberConversion) (isMagicString : List CodeUnit → Bool)
    (fuel : ℕ) (nested : NestedCall PlainHeap (List UInt8)) (heap : PlainHeap) (root : EcmaObject)
    (next : Pointer) (isData : heap.IsData numbers (.object root))
    (acyclic : ¬heap.ReachesCycle root) (enough : heap.cells.length < fuel) :
    ∃ (json : Json) (string : EcmaString) (line : List UInt8),
      heap.Represents json (.object root) ∧
      (callPp numbers isMagicString fuel nested heap root next).output.flatten =
        line ++ asciiBytes "\n" ∧
      (callPp numbers isMagicString fuel nested heap root next).output =
        cmsBuffers string.units ++ [asciiBytes "\n"] ∧
      Native.CalledWith string (line.map UInt8.toNat) ∧ 0 ∉ line.map UInt8.toNat ∧
      ReadAs numbers line json.readBack ∧ json.readBack.InOrder ∧
      ∀ (other : PlainHeap) (otherRoot : EcmaObject) (otherNext : Pointer),
        other.IsData numbers (.object otherRoot) → ¬other.ReachesCycle otherRoot →
        other.cells.length < fuel →
        (callPp numbers isMagicString fuel nested other otherRoot otherNext).output.flatten =
          line ++ asciiBytes "\n" →
        ∀ otherJson, other.Represents otherJson (.object otherRoot) →
          otherJson.readBack = json.readBack := by
  rcases callPp_data isMagicString isData acyclic enough nested next with
    ⟨json, string, after, represents, _, readable, isText, printed⟩
  have printable : Printable string.units := isText ▸ readable.printable
  have read : ReadAs numbers (utf8 string.units) json.readBack := isText ▸ readable.readAs
  have flat := flatten_output printable
  refine ⟨json, string, utf8 string.units, represents, by rw [printed, flat], by rw [printed],
    Native.calledWith_utf8 string, ?_, read, represents.inOrder, ?_⟩
  · intro mem
    rcases List.mem_map.mp mem with ⟨byte, inLine, isNul⟩
    have above := read.1 byte inLine
    omega
  · intro other otherRoot otherNext otherData otherAcyclic otherEnough sameLine tree representsTree
    rcases callPp_data isMagicString otherData otherAcyclic otherEnough nested otherNext with
      ⟨otherJson, otherString, _, _, unique, otherReadable, otherIsText, otherPrinted⟩
    have otherRead : ReadAs numbers (utf8 otherString.units) otherJson.readBack :=
      otherIsText ▸ otherReadable.readAs
    rw [otherPrinted, flatten_output (otherIsText ▸ otherReadable.printable)] at sameLine
    rw [List.append_cancel_right sameLine] at otherRead
    rw [unique tree representsTree]
    exact otherRead.unique read

/-- A value that is spelled out. -/
def literal (value : EcmaValue) : ScriptValue :=
  if valid : value.specDefined = true then ⟨value, valid⟩ else .undefined

/-- `root = { b: [null, true, -0, 1.5, "\0\uD800"], 1: {}, __proto__: 7 }`. -/
def dataCells : List PlainCell :=
  [.object [(.magic (magicText "b"), .ofObject ⟨1, none⟩), (.uint 1, .ofObject ⟨2, none⟩),
      (.magic (magicText "__proto__"), literal (.integer 7))] [],
    .array [some (literal (.simple .null)), some (literal (.simple .true)),
      some (literal (.float 8 .negativeZero)), some (literal (.float 9 (.finite (3 / 2)))),
      some (literal (.string (.heap 10 [0, 0xD800])))] [],
    .object [] []]

def dataHeap : PlainHeap where
  cells := dataCells
  isPlain := by
    constructor
    · decide
    · simp [dataCells, PlainCell.values, literal, EcmaValue.specDefined]
    · intro properties hidden mem
      simp only [dataCells, List.mem_cons, reduceCtorEq, PlainCell.object.injEq, List.not_mem_nil,
        or_false, false_or] at mem
      rcases mem with ⟨rfl, _⟩ | ⟨rfl, _⟩
      · decide +kernel
      · simp
    · intro elements hidden mem
      simp only [dataCells, List.mem_cons, reduceCtorEq, PlainCell.array.injEq, List.not_mem_nil,
        or_false, false_or] at mem
      rcases mem with ⟨rfl, _⟩
      simp
    · have noMethod : ∀ cell ∈ dataCells,
          (cell.read (.magic (magicText "toJSON"))).value = .undefined := by
        decide +kernel
      intro cell mem object isRead
      rw [noMethod cell mem] at isRead
      cases isRead

/-- The conversions of the numbers in the heap. -/
def dataNumbers : NumberConversion where
  toDecimal value := if value = 3 / 2 then ([0x31, 0x35], 1) else (Decimal.decimal value.floor.toNat, 1)
  fromDecimal text :=
    if text = asciiBytes "1.5" then .finite (3 / 2) else .finite (Decimal.value text)

/-- All values below the root. -/
def dataValues : List EcmaValue :=
  [.object ⟨0, none⟩, .object ⟨1, none⟩, .object ⟨2, none⟩, .integer 7, .simple .null,
    .simple .true, .float 8 .negativeZero, .float 9 (.finite (3 / 2)),
    .string (.heap 10 [0, 0xD800])]

theorem mem_dataValues {value : EcmaValue} (reached : dataHeap.Reaches (.object ⟨0, none⟩) value) :
    value ∈ dataValues := by
  have closed : ∀ parent ∈ dataValues, ∀ child ∈ dataHeap.successors parent,
      child ∈ dataValues := by
    decide +kernel
  induction reached with
  | refl => exact List.mem_cons_self
  | tail _ edge ih => exact closed _ ih _ edge

theorem readsBack_dataNumbers :
    dataNumbers.ReadsBack (.finite 7) ∧ dataNumbers.ReadsBack .negativeZero ∧
      dataNumbers.ReadsBack (.finite (3 / 2)) := by
  have seven : (dataNumbers.toDecimal |7|).1 = [0x37] := by decide +kernel
  have half : (dataNumbers.toDecimal |3 / 2|).1 = [0x31, 0x35] := by decide +kernel
  refine ⟨⟨?_, ?_, by decide +kernel⟩, ⟨?_, ?_, by decide +kernel⟩, ⟨?_, ?_, by decide +kernel⟩⟩
  · rintro _ ⟨⟩ _
    rw [seven]
    exact isDigits_decimal 7
  · rintro _ ⟨⟩ _
    rw [seven]
    decide
  · rintro _ ⟨⟩
  · rintro _ ⟨⟩
  · rintro _ ⟨⟩ _
    rw [half]
    exact isDigits_decimal 15
  · rintro _ ⟨⟩ _
    rw [half]
    decide

theorem isData_dataHeap : dataHeap.IsData dataNumbers (.object ⟨0, none⟩) := by
  rcases readsBack_dataNumbers with ⟨seven, zero, half⟩
  constructor
  · intro other reached
    have mem := mem_dataValues reached
    simp only [dataValues, List.mem_cons, List.not_mem_nil, or_false] at mem
    rcases mem with rfl | rfl | rfl | rfl | rfl | rfl | rfl | rfl | rfl
    · exact trivial
    · intro element inArray
      revert element
      decide
    · exact trivial
    · exact trivial
    · exact trivial
    · exact trivial
    · exact rfl
    · exact rfl
    · exact trivial
  · intro other number reached isNumber
    have mem := mem_dataValues reached
    simp only [dataValues, List.mem_cons, List.not_mem_nil, or_false] at mem
    rcases mem with rfl | rfl | rfl | rfl | rfl | rfl | rfl | rfl | rfl <;> cases isNumber
    · exact seven
    · exact zero
    · exact half

theorem callPp_dataHeap : ∃ (json : Json) (line : List UInt8),
    dataHeap.Represents json (.object ⟨0, none⟩) ∧
    (callPp dataNumbers (fun _ => false) 4 (fun _ _ => .fail .assertion) dataHeap ⟨0, none⟩
      3).output.flatten = line ++ asciiBytes "\n" ∧
    ReadAs dataNumbers line json.readBack := by
  have acyclic : ¬dataHeap.ReachesCycle ⟨0, none⟩ :=
    PlainHeap.not_reachesCycle_of_explore (show (Traversal.explore dataHeap.successors
      dataHeap.combine 4 [] (.object ⟨0, none⟩)).isOk = true by decide +kernel)
  rcases callPp_readsBack dataNumbers (fun _ => false) 4 (fun _ _ => .fail .assertion) dataHeap
    ⟨0, none⟩ 3 isData_dataHeap acyclic (by decide) with
    ⟨json, _, line, represents, printed, _, _, _, read, _⟩
  exact ⟨json, line, represents, printed, read⟩

end Cmsframe
