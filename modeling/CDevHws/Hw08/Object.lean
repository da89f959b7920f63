import CDevHws.Lib.CString
import CDevHws.Lib.Probing

/-!
# JSON objects (`parson.c`)

An object keeps its names and values in the order of their insertion, and finds a name with a hash
table of indices: open addressing with linear probing, from which names are removed by backward
shifting.

The functions return `none` where the C code has no result, that is, where it would read or write
outside an array, or where a loop does not end. The arrays `names`, `values`, `hashes` and
`cell_ixs` are one list of items here, as long as `count`. `malloc` succeeds. Values are of any
type; whether the value that is set has a `parent` is an argument of the call.

An object never has 2 ^ 32 cells, so the counters of the type `unsigned int` do not wrap around
except where `json_object_init` is to make such an object.
-/

namespace CDevHws.Hw08

/-- `STARTING_CAPACITY`. -/
def startingCapacity : ℕ := 16

/-- `JSON_Status`. -/
inductive JsonStatus where
  | success
  | failure
deriving DecidableEq, Repr

/-- `hash_string`. -/
def hashString (string : List UInt8) : UInt64 :=
  (CString.ofBytes string).foldl (fun hash c => (hash <<< 5) + hash + c.toUInt64) 5381

/-- What the arrays of an object hold at one index. -/
structure Item (V : Type) where
  name : List UInt8
  value : V
  hash : UInt64
  cellIx : ℕ
deriving Repr

/-- `json_object_t`. -/
structure JsonObject (V : Type) where
  /-- Indices of items; `none` is `OBJECT_INVALID_IX`. -/
  cells : List (Option ℕ)
  items : List (Item V)
  itemCapacity : ℕ
deriving Repr

variable {V : Type}

/-- `object->count`. -/
def JsonObject.count (object : JsonObject V) : ℕ := object.items.length

/-- `object->cell_capacity`. -/
def JsonObject.cellCapacity (object : JsonObject V) : ℕ := object.cells.length

/-- `json_object_init`. With 2 ^ 32 cells or more, its loop over the cells does not end: the counter
is an `unsigned int`. -/
def jsonObjectInit (V : Type) (capacity : ℕ) : Option (JsonObject V) :=
  if capacity < 2 ^ 32 then
    some {
      cells := List.replicate capacity none
      items := []
      itemCapacity := capacity * 7 / 10 % 2 ^ 32 }
  else none

/-- `json_object_make`, which calls `json_object_init` for no cells. -/
def jsonObjectMake (V : Type) : JsonObject V := ⟨[], [], 0⟩

example (V : Type) : jsonObjectInit V 0 = some (jsonObjectMake V) := rfl

/-- The loop of `json_object_get_cell_ix`, with `left` rounds to go. -/
def getCellIxLoop (object : JsonObject V) (key : List UInt8) (hash : UInt64) :
    ℕ → ℕ → Option (Option ℕ × Bool)
  | 0, _ => some (none, false)
  | left + 1, i => do
    let cellIx := hash.toNat &&& (object.cellCapacity - 1)
    let ix := (cellIx + i) &&& (object.cellCapacity - 1)
    match ← object.cells[ix]? with
    | none => return (some ix, false)
    | some cell =>
      let item ← object.items[cell]?
      if hash ≠ item.hash then getCellIxLoop object key hash left (i + 1)
      else if item.name = key then return (some ix, true)
      else getCellIxLoop object key hash left (i + 1)

/-- `json_object_get_cell_ix`: the cell, and whether the key is there. -/
def jsonObjectGetCellIx (object : JsonObject V) (key : List UInt8) (hash : UInt64) :
    Option (Option ℕ × Bool) :=
  getCellIxLoop object key hash object.cellCapacity 0

/-- The stores with which `json_object_add` and `json_object_set_value` end. -/
def JsonObject.append (object : JsonObject V) (name : List UInt8) (value : V) (hash : UInt64)
    (cellIx : Option ℕ) : Option (JsonObject V) := do
  let cellIx ← cellIx
  if cellIx < object.cellCapacity ∧ object.count < object.itemCapacity then
    return { object with
      cells := object.cells.set cellIx (some object.count)
      items := object.items ++ [{ name, value, hash, cellIx }] }
  else none

/-- A call that adds a name and a value to an object. -/
abbrev Add (V : Type) := JsonObject V → List UInt8 → V → Option (JsonObject V × JsonStatus)

/-- A call that makes room in an object. -/
abbrev Grow (V : Type) := JsonObject V → Option (JsonObject V × JsonStatus)

/-- The end of `json_object_add` and of `json_object_set_value`, for a name that is new. -/
def appendGrowing (grow : Grow V) (object : JsonObject V) (name : List UInt8) (value : V)
    (hash : UInt64) (cellIx : Option ℕ) : Option (JsonObject V × JsonStatus) := do
  if object.count ≥ object.itemCapacity then
    match ← grow object with
    | (object, .success) =>
      let (cellIx, _) ← jsonObjectGetCellIx object name hash
      return (← object.append name value hash cellIx, .success)
    | (object, .failure) => return (object, .failure)
  else return (← object.append name value hash cellIx, .success)

/-- The body of `json_object_add`, which calls `json_object_grow_and_rehash`. -/
def addBody (grow : Grow V) : Add V := fun object name value => do
  let hash := hashString name
  let (cellIx, found) ← jsonObjectGetCellIx object name hash
  if found then return (object, .failure)
  else appendGrowing grow object name value hash cellIx

/-- The loop of `json_object_grow_and_rehash`. -/
def rehash (add : Add V) : List (Item V) → JsonObject V → Option (JsonObject V × JsonStatus)
  | [], newObject => some (newObject, .success)
  | item :: items, newObject => do
    match ← add newObject item.name item.value with
    | (newObject, .success) => rehash add items newObject
    | (newObject, .failure) => return (newObject, .failure)

/-- The new object that `json_object_grow_and_rehash` begins with. -/
def JsonObject.grown (object : JsonObject V) : Option (JsonObject V) :=
  let newCapacity := max (object.cellCapacity * 2) startingCapacity
  jsonObjectInit V newCapacity

/-- The body of `json_object_grow_and_rehash`, which calls `json_object_add`. -/
def growBody (add : Add V) : Grow V := fun object => do
  match ← rehash add object.items (← object.grown) with
  | (newObject, .success) => return (newObject, .success)
  | (_, .failure) => return (object, .failure)

/-- `json_object_grow_and_rehash`. The new object has room for all the items, so that no call of
`json_object_add` makes it grow. -/
def jsonObjectGrowAndRehash : Grow V := growBody (addBody fun _ => none)

/-- `json_object_add`. -/
def jsonObjectAdd : Add V := addBody jsonObjectGrowAndRehash

/-- `json_object_getn_value`, where `key` is the first `name_len` bytes of `name`. -/
def jsonObjectGetnValue (object : JsonObject V) (key : List UInt8) : Option (Option V) := do
  let (cellIx, found) ← jsonObjectGetCellIx object key (hashString key)
  if found then
    let cell ← object.cells[← cellIx]?
    let item ← object.items[← cell]?
    return some item.value
  else return none

/-- `json_object_set_value`; `hasParent` says whether `value->parent` is set. -/
def jsonObjectSetValue (object : JsonObject V) (name : List UInt8) (value : V) (hasParent : Bool) :
    Option (JsonObject V × JsonStatus) := do
  if hasParent then return (object, .failure)
  let hash := hashString name
  let (cellIx, found) ← jsonObjectGetCellIx object name hash
  if found then
    let cell ← object.cells[← cellIx]?
    let itemIx ← cell
    let item ← object.items[itemIx]?
    return ({ object with items := object.items.set itemIx { item with value } }, .success)
  else appendGrowing jsonObjectGrowAndRehash object name value hash cellIx

/-- The loop of `json_object_remove_internal`, with `left` rounds to go: the object and the last
value of `i`. -/
def shiftLoop : ℕ → JsonObject V → ℕ → ℕ → Option (JsonObject V × ℕ)
  | 0, object, i, _ => some (object, i)
  | left + 1, object, i, j => do
    let j := (j + 1) &&& (object.cellCapacity - 1)
    match ← object.cells[j]? with
    | none => return (object, i)
    | some cell =>
      let item ← object.items[cell]?
      let k := item.hash.toNat &&& (object.cellCapacity - 1)
      if (j > i ∧ (k ≤ i ∨ k > j)) ∨ (j < i ∧ (k ≤ i ∧ k > j)) then
        shiftLoop left { object with
          cells := object.cells.set i (some cell)
          items := object.items.set cell { item with cellIx := i } } j j
      else shiftLoop left object i j

/-- The last item takes the place of item `itemIx`. -/
def JsonObject.removeItem (object : JsonObject V) (itemIx : ℕ) : Option (JsonObject V) := do
  let lastItemIx := object.count - 1
  if itemIx < lastItemIx then
    let last ← object.items[lastItemIx]?
    if last.cellIx < object.cellCapacity then
      return { object with
        cells := object.cells.set last.cellIx (some itemIx)
        items := (object.items.set itemIx last).dropLast }
    else none
  else return { object with items := object.items.dropLast }

/-- `json_object_remove_internal`. -/
def jsonObjectRemove (object : JsonObject V) (name : List UInt8) :
    Option (JsonObject V × JsonStatus) := do
  let (cellIx, found) ← jsonObjectGetCellIx object name (hashString name)
  if found then
    let cell ← cellIx
    let itemIx ← (← object.cells[cell]?)
    let object ← object.removeItem itemIx
    let (object, i) ← shiftLoop (object.cellCapacity - 1) object cell cell
    return ({ object with cells := object.cells.set i none }, .success)
  else return (object, .failure)

/-- `json_object_clear`. -/
def jsonObjectClear (object : JsonObject V) : JsonObject V where
  cells := List.replicate object.cellCapacity none
  items := []
  itemCapacity := object.itemCapacity

/-! ## The invariant -/

/-- The most items that an object can hold: for one more, `json_object_grow_and_rehash` would have
to make an object with 2 ^ 32 cells. -/
def maxItems : ℕ := 2 ^ 31 * 7 / 10

/-- The name in a cell. -/
def keysOf (cells : List (Option ℕ)) (names : List (List UInt8)) (c : ℕ) : Option (List UInt8) :=
  cells[c]?.join.bind fun ix => names[ix]?

def JsonObject.names (object : JsonObject V) : List (List UInt8) := object.items.map Item.name

def JsonObject.keys (object : JsonObject V) : ℕ → Option (List UInt8) :=
  keysOf object.cells object.names

/-- Where the search for a name starts. -/
def home (name : List UInt8) : ℕ := (hashString name).toNat

/-- Cells and items point to each other. -/
structure JsonObject.Linked (object : JsonObject V) : Prop where
  hash : ∀ item ∈ object.items, item.hash = hashString item.name
  cell_of_item : ∀ (ix : ℕ) (item : Item V), object.items[ix]? = some item →
    object.cells[item.cellIx]? = some (some ix)
  item_of_cell : ∀ c ix, object.cells[c]? = some (some ix) →
    ∃ item : Item V, object.items[ix]? = some item ∧ item.cellIx = c

/-- The invariant of an object. -/
structure JsonObject.Inv (object : JsonObject V) : Prop extends object.Linked where
  capacity : object.cellCapacity = 0 ∨ ∃ e, object.cellCapacity = startingCapacity * 2 ^ e
  limit : object.cellCapacity < 2 ^ 32
  itemCapacity : object.itemCapacity = object.cellCapacity * 7 / 10
  room : object.count ≤ object.itemCapacity
  probed : Probing.WellProbed object.cellCapacity home object.keys

/-! ## Sequences of calls -/

/-- A call of a function on an object. -/
inductive ObjectCall (V : Type) where
  | getnValue (key : List UInt8)
  | add (name : List UInt8) (value : V)
  | setValue (name : List UInt8) (value : V) (hasParent : Bool)
  | remove (name : List UInt8)
  | clear

/-- What a call returns. -/
inductive ObjectResult (V : Type) where
  | value (value : Option V)
  | status (status : JsonStatus)

/-- A call on an object. -/
def JsonObject.call (object : JsonObject V) :
    ObjectCall V → Option (JsonObject V × ObjectResult V)
  | .getnValue key => do return (object, .value (← jsonObjectGetnValue object key))
  | .add name value => do
    let (object, status) ← jsonObjectAdd object name value
    return (object, .status status)
  | .setValue name value hasParent => do
    let (object, status) ← jsonObjectSetValue object name value hasParent
    return (object, .status status)
  | .remove name => do
    let (object, status) ← jsonObjectRemove object name
    return (object, .status status)
  | .clear => some (jsonObjectClear object, .status .success)

/-- A sequence of calls on an object, with all that they return. -/
def JsonObject.callAll (object : JsonObject V) :
    List (ObjectCall V) → Option (JsonObject V × List (ObjectResult V))
  | [] => some (object, [])
  | call :: calls => do
    let (object, result) ← object.call call
    let (object, results) ← object.callAll calls
    return (object, result :: results)

end CDevHws.Hw08
