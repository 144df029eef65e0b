import Mathlib.Data.List.Sort
import Cmsframe.Json.Serialize
import Cmsframe.Json.Text
import Cmsframe.Library.Traversal

/-!
# Heaps of plain objects

A heap without accessors, proxies, callable `toJSON` and BigInts: objects with data
properties, arrays and callable objects, shared and cyclic at will. No operation on
such a heap runs user code, so the realm of a plain heap only reads. The children of a
value and the tree it unfolds to are given next to it: they are what the traversal of
the serialiser is compared with.
-/

namespace Cmsframe

open Interaction
open Unicode (CodeUnit)

/-- A property and its key. -/
abbrev Property := EcmaString × ScriptValue

/-- The value of the first property with the given key. -/
def findProperty (properties : List Property) (key : List CodeUnit) : Option ScriptValue :=
  (properties.find? fun property => property.1.units = key).map Prod.snd

/-- An object. `hidden` are the other data properties a read can find: those that are not
enumerable or inherited. An array inherits no indexed properties. -/
inductive PlainCell where
  | object (properties hidden : List Property)
  | array (elements : List (Option ScriptValue)) (hidden : List Property)
  | callable (hidden : List Property)

/-- `ecma_string_get_array_index`; the largest 32-bit number is no index. -/
def EcmaString.arrayIndex (string : EcmaString) : Option ℕ :=
  (ecmaStringToArrayIndex string.bytes).filter fun index => index < 2 ^ 32 - 1

/-- The order of `ecma_op_object_own_property_keys`: array indices first, in ascending order,
then the other keys in the order of their creation. -/
def enumerationOrder {α : Type} (properties : List (EcmaString × α)) : List (EcmaString × α) :=
  List.insertionSort (fun left right => left.1.arrayIndex.getD 0 ≤ right.1.arrayIndex.getD 0)
      (properties.filter fun property => property.1.arrayIndex.isSome) ++
    properties.filter fun property => property.1.arrayIndex.isNone

namespace PlainCell

/-- The value a read of a key yields. -/
def read (cell : PlainCell) (key : EcmaString) : ScriptValue :=
  match cell with
  | .object properties hidden =>
      ((findProperty properties key.units).or (findProperty hidden key.units)).getD
        .undefined
  | .array elements hidden =>
      match key.arrayIndex with
      | some index => (elements[index]?.join).getD .undefined
      | none => (findProperty hidden key.units).getD .undefined
  | .callable hidden => (findProperty hidden key.units).getD .undefined

/-- The values a serialisation visits, in its order. -/
def children : PlainCell → List ScriptValue
  | .object properties _ => (enumerationOrder properties).map Prod.snd
  | .array elements _ => elements.map fun element => element.getD .undefined
  | .callable _ => []

/-- All values in the cell. -/
def values : PlainCell → List ScriptValue
  | .object properties hidden => (properties ++ hidden).map Prod.snd
  | .array elements hidden => elements.filterMap id ++ hidden.map Prod.snd
  | .callable hidden => hidden.map Prod.snd

def isCallable : PlainCell → Bool
  | .callable _ => true
  | _ => false

def isArray : PlainCell → Bool
  | .array .. => true
  | _ => false

end PlainCell

/-- Values of a plain heap: no BigInts, and small numbers in the encoding for integers. -/
def EcmaValue.plain : EcmaValue → Bool
  | .integer number => isIntegerNumber number
  | .bigintZero | .bigint .. => false
  | .object target => target.nativeError.isNone
  | value => value.specDefined

/-- What makes a list of cells a heap of plain objects; addresses are positions. -/
structure IsPlainHeap (cells : List PlainCell) : Prop where
  plain : ∀ cell ∈ cells, ∀ value ∈ cell.values, value.value.plain = true
  closed : ∀ cell ∈ cells, ∀ value ∈ cell.values, ∀ object, value.value = .object object →
    object.address < cells.length
  distinctKeys : ∀ properties hidden, .object properties hidden ∈ cells →
    (properties.map fun property : Property => property.1.units).Nodup
  arrayLength : ∀ elements hidden, .array elements hidden ∈ cells → elements.length < 2 ^ 32
  noToJson : ∀ cell ∈ cells, ∀ object,
    (cell.read (.magic (magicText "toJSON"))).value = .object object →
      ∀ target, cells[object.address]? = some target → target.isCallable = false

/-- A heap of plain objects. -/
structure PlainHeap where
  cells : List PlainCell
  isPlain : IsPlainHeap cells

namespace PlainHeap

variable (heap : PlainHeap)

/-- The cell of an object. Errors made by native code are not in the heap. -/
def cell (object : EcmaObject) : Option PlainCell :=
  if object.nativeError.isNone then heap.cells[object.address]? else none

def read (object : EcmaObject) (key : EcmaString) : ScriptValue :=
  match heap.cell object with
  | some cell => cell.read key
  | none => .undefined

def isCallable (object : EcmaObject) : Bool := (heap.cell object).any PlainCell.isCallable

def isArray (object : EcmaObject) : Bool := (heap.cell object).any PlainCell.isArray

/-- A value that can be called. -/
def isFunction : EcmaValue → Bool
  | .object object => heap.isCallable object
  | _ => false

/-- The values below a value: callable objects and primitive values have none. -/
def successors : EcmaValue → List EcmaValue
  | .object object =>
      match heap.cell object with
      | some cell => cell.children.map ScriptValue.value
      | none => []
  | _ => []

/-- The members of an object, without those that have no JSON form. -/
def members (properties : List Property) (results : List (Option Json)) :
    List (List CodeUnit × Json) :=
  (properties.zip results).filterMap fun item =>
    item.2.map fun json => (item.1.1.units, json)

/-- The JSON form of a value, from the forms of the values below it. -/
def combine (value : EcmaValue) (results : List (Option Json)) : Option Json :=
  match value with
  | .simple .null => some .null
  | .simple .true => some (.boolean true)
  | .simple .false => some (.boolean false)
  | .integer number => some (.number (EcmaNumber.ofInt number))
  | .float _ number => some (if number.isFinite then .number number else .null)
  | .string string => some (.string string.units)
  | .object object =>
      match heap.cell object with
      | some (.object properties _) => some (.object (members (enumerationOrder properties) results))
      | some (.array ..) => some (.array (results.map fun result => result.getD .null))
      | _ => none
  | _ => none

/-- The tree a value unfolds to. -/
abbrev Unfolds : EcmaValue → Option Json → Prop :=
  Traversal.Expands heap.successors heap.combine

end PlainHeap

/-- The realm of plain heaps. -/
def plainRealm (numbers : NumberConversion) (isMagicString : List CodeUnit → Bool) :
    Realm PlainHeap where
  numbers := numbers
  isMagicString := isMagicString
  bigintFits _ := true
  get object key _ world := .done (.ok (world.script.read object key)) world
  enumerablePropertyNames object world :=
    .done (.ok (match world.script.cell object with
      | some (.object properties _) => (enumerationOrder properties).map Prod.fst
      | some (.array elements _) => (List.range elements.length).map .uint
      | _ => [])) world
  getLength object world :=
    .done (.ok (match world.script.cell object with
      | some (.array elements _) => elements.length
      | _ => 0)) world
  call _ _ _ world := .done (.ok .undefined) world
  defaultValue _ world := .done (.ok ⟨.undefined, ScriptValue.undefined_not_object⟩) world
  toNumber _ world := .done (.ok .nan) world
  isCallable world object := world.script.isCallable object
  isArray world object := some (world.script.isArray object)
  classOf _ _ := .other
  create _ world := (world.next, { world with next := world.next + 1 })

end Cmsframe
