import CDevHws.Hw08.Json

/-!
# Copying, comparing and validating values (`parson.c`)

The functions call themselves for the values inside of a value. They are given here with the number
of levels that they may go down. Where it does not suffice, they return `none`, as they do where the
C code has no defined result.
-/

namespace CDevHws.Hw08

variable {N : Type}

/-- `JSON_Value_Type`, without `JSONError`. -/
inductive JsonValueType where
  | null
  | string
  | number
  | object
  | array
  | boolean
deriving DecidableEq, Repr

/-- `json_value_get_type`. -/
def jsonValueGetType : JsonValue N → JsonValueType
  | .null => .null
  | .boolean _ => .boolean
  | .number _ => .number
  | .string _ => .string
  | .array _ => .array
  | .object _ => .object

/-- `json_object_get_value`; the inner `none` is `NULL`. -/
def jsonObjectGetValue (object : JsonObject (JsonValue N)) (name : List UInt8) :
    Option (Option (JsonValue N)) :=
  jsonObjectGetnValue object (CString.ofBytes name)

/-! ## Copies -/

/-- The loop of `json_value_deep_copy` over the names of an object. -/
def copyMembers (deepCopy : JsonValue N → Option (JsonValue N))
    (object : JsonObject (JsonValue N)) :
    List (Item (JsonValue N)) → JsonObject (JsonValue N) → Option (JsonObject (JsonValue N))
  | [], objectCopy => some objectCopy
  | item :: items, objectCopy => do
    let value ← (← jsonObjectGetValue object item.name)
    let valueCopy ← deepCopy value
    match ← jsonObjectAdd objectCopy (CString.ofBytes item.name) valueCopy with
    | (objectCopy, .success) => copyMembers deepCopy object items objectCopy
    | (_, .failure) => none

/-- `json_value_deep_copy`, also `none` for `NULL`. -/
def jsonValueDeepCopy : ℕ → JsonValue N → Option (JsonValue N)
  | 0, _ => none
  | _ + 1, .null => some .null
  | _ + 1, .boolean boolean => some (.boolean boolean)
  | _ + 1, .number number => some (.number number)
  | _ + 1, .string chars => some (.string chars)
  | levels + 1, .array items => do
    return .array (← items.mapM (jsonValueDeepCopy levels))
  | levels + 1, .object object => do
    return .object (← copyMembers (jsonValueDeepCopy levels) object object.items
      (jsonObjectMake (JsonValue N)))

/-! ## Comparisons -/

/-- The loop of `json_value_equals` over two arrays with the same count. -/
def equalItems (equals : JsonValue N → JsonValue N → Option Bool) :
    List (JsonValue N) → List (JsonValue N) → Option Bool
  | a :: as, b :: bs => do if ← equals a b then equalItems equals as bs else return false
  | _, _ => some true

/-- `json_value_equals` for two pointers, of which both or one may be `NULL`. -/
def equalPointers (equals : JsonValue N → JsonValue N → Option Bool) :
    Option (JsonValue N) → Option (JsonValue N) → Option Bool
  | some a, some b => equals a b
  | none, none => some true
  | _, _ => some false

/-- The loop of `json_value_equals` over the names of an object. -/
def equalMembers (equals : JsonValue N → JsonValue N → Option Bool)
    (a b : JsonObject (JsonValue N)) : List (Item (JsonValue N)) → Option Bool
  | [] => some true
  | item :: items => do
    if ← equalPointers equals (← jsonObjectGetValue a item.name) (← jsonObjectGetValue b item.name)
    then equalMembers equals a b items
    else return false

/-- `json_value_equals`, where `close` is the comparison of two numbers with `EPSILON`. -/
def jsonValueEquals (close : N → N → Bool) : ℕ → JsonValue N → JsonValue N → Option Bool
  | 0, _, _ => none
  | levels + 1, a, b =>
    if jsonValueGetType a ≠ jsonValueGetType b then some false
    else match a, b with
    | .array a, .array b =>
      if a.length ≠ b.length then some false
      else equalItems (jsonValueEquals close levels) a b
    | .object a, .object b =>
      if a.count ≠ b.count then some false
      else equalMembers (jsonValueEquals close levels) a b a.items
    | .string a, .string b => some (a = b)
    | .boolean a, .boolean b => some (a = b)
    | .number a, .number b => some (close a b)
    | _, _ => some true

/-! ## Schemas -/

/-- The loop of `json_validate` over an array. -/
def validateItems (validate : JsonValue N → Option JsonStatus) :
    List (JsonValue N) → Option JsonStatus
  | [] => some .success
  | item :: items => do
    match ← validate item with
    | .success => validateItems validate items
    | .failure => return .failure

/-- `json_validate` for two pointers, of which both or one may be `NULL`. -/
def validatePointers (validate : JsonValue N → JsonValue N → Option JsonStatus) :
    Option (JsonValue N) → Option (JsonValue N) → Option JsonStatus
  | some schema, some value => validate schema value
  | _, _ => some .failure

/-- The loop of `json_validate` over the names of a schema. -/
def validateMembers (validate : JsonValue N → JsonValue N → Option JsonStatus)
    (schema value : JsonObject (JsonValue N)) : List (Item (JsonValue N)) → Option JsonStatus
  | [] => some .success
  | item :: items => do
    match ← validatePointers validate (← jsonObjectGetValue schema item.name)
      (← jsonObjectGetValue value item.name) with
    | .success => validateMembers validate schema value items
    | .failure => return .failure

/-- `json_validate`. -/
def jsonValidate : ℕ → JsonValue N → JsonValue N → Option JsonStatus
  | 0, _, _ => none
  | levels + 1, schema, value =>
    if jsonValueGetType schema ≠ jsonValueGetType value ∧ jsonValueGetType schema ≠ .null then
      some .failure
    else match schema, value with
    | .array [], .array _ => some .success
    | .array (first :: _), .array items => validateItems (jsonValidate levels first) items
    | .object schema, .object value =>
      if schema.count = 0 then some .success
      else if value.count < schema.count then some .failure
      else validateMembers (jsonValidate levels) schema value schema.items
    | _, _ => some .success

/-! ## What is decided -/

/-- Two trees are the same but for the order of the members of objects, if `close` numbers count as
the same. -/
inductive Json.Same (close : N → N → Bool) : Json N → Json N → Prop
  | null : Same close .null .null
  | boolean (boolean : Bool) : Same close (.boolean boolean) (.boolean boolean)
  | number {x y : N} (h : close x y) : Same close (.number x) (.number y)
  | string (chars : List UInt8) : Same close (.string chars) (.string chars)
  | array {a b : List (Json N)} (hlen : a.length = b.length)
      (h : ∀ x y, (x, y) ∈ a.zip b → Same close x y) : Same close (.array a) (.array b)
  | object {a b : List (List UInt8 × Json N)}
      (hnames : ∀ name, name ∈ a.map Prod.fst ↔ name ∈ b.map Prod.fst)
      (h : ∀ name x y, (name, x) ∈ a → (name, y) ∈ b → Same close x y) :
      Same close (.object a) (.object b)

/-- A tree has the form of a schema: `null` stands for everything, the first item of an array for
all items, and an object for all objects that have its members. -/
inductive Json.Conforms : Json N → Json N → Prop
  | any (value : Json N) : Conforms .null value
  | boolean (boolean boolean' : Bool) : Conforms (.boolean boolean) (.boolean boolean')
  | number (x y : N) : Conforms (.number x) (.number y)
  | string (chars chars' : List UInt8) : Conforms (.string chars) (.string chars')
  | arrays (items : List (Json N)) : Conforms (.array []) (.array items)
  | array {first : Json N} {rest items : List (Json N)} (h : ∀ item ∈ items, Conforms first item) :
      Conforms (.array (first :: rest)) (.array items)
  | object {schema value : List (List UInt8 × Json N)}
      (hnames : ∀ name ∈ schema.map Prod.fst, name ∈ value.map Prod.fst)
      (h : ∀ name x y, (name, x) ∈ schema → (name, y) ∈ value → Conforms x y) :
      Conforms (.object schema) (.object value)

end CDevHws.Hw08
