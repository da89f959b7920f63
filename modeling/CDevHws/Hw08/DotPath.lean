import CDevHws.Hw08.ValueOps

/-!
# Names with dots (`parson.c`)

The `dot` functions take a name in which dots lead from an object to an object inside of it. The
inner objects are changed in place; here they are put back under their names.
-/

namespace CDevHws.Hw08

variable {N : Type}

/-- The parts of a name before, between and after its dots, as the calls of `strchr(name, '.')` find
them one after the other. -/
def dotParts : List UInt8 → List (List UInt8)
  | [] => [[]]
  | c :: name =>
    if c = 46 then [] :: dotParts name
    else (c :: (dotParts name).headD []) :: (dotParts name).tail

example : dotParts [97, 46, 98, 99] = [[97], [98, 99]] := rfl

/-- `json_object_dotget_value` on the parts of a name. -/
def dotgetParts : JsonObject (JsonValue N) → List (List UInt8) → Option (Option (JsonValue N))
  | _, [] => some none
  | object, [name] => jsonObjectGetnValue object name
  | object, name :: part :: parts => do
    match ← jsonObjectGetnValue object name with
    | some (.object inner) => dotgetParts inner (part :: parts)
    | _ => return none

/-- `json_object_dotget_value`. -/
def jsonObjectDotgetValue (object : JsonObject (JsonValue N)) (name : List UInt8) :
    Option (Option (JsonValue N)) :=
  dotgetParts object (dotParts (CString.ofBytes name))

/-- An object in which the inner object under a name has changed. -/
def JsonObject.putBack (object : JsonObject (JsonValue N)) (name : List UInt8)
    (inner : JsonObject (JsonValue N)) : Option (JsonObject (JsonValue N)) :=
  (jsonObjectSetValue object name (.object inner) false).map Prod.fst

/-- `json_object_dotset_value` on the parts of a name. -/
def dotsetParts (value : JsonValue N) (hasParent : Bool) : JsonObject (JsonValue N) →
    List (List UInt8) → Option (JsonObject (JsonValue N) × JsonStatus)
  | object, [] => some (object, .failure)
  | object, [name] => jsonObjectSetValue object name value hasParent
  | object, name :: part :: parts => do
    match ← jsonObjectGetnValue object name with
    | some (.object inner) =>
      let (inner, status) ← dotsetParts value hasParent inner (part :: parts)
      return (← object.putBack name inner, status)
    | some _ => return (object, .failure)
    | none =>
      match ← dotsetParts value hasParent (jsonObjectMake (JsonValue N)) (part :: parts) with
      | (newObject, .success) => jsonObjectAdd object name (.object newObject)
      | (_, .failure) => return (object, .failure)

/-- `json_object_dotset_value`; `hasParent` says whether `value->parent` is set. -/
def jsonObjectDotsetValue (object : JsonObject (JsonValue N)) (name : List UInt8)
    (value : JsonValue N) (hasParent : Bool) : Option (JsonObject (JsonValue N) × JsonStatus) :=
  dotsetParts value hasParent object (dotParts (CString.ofBytes name))

/-- `json_object_dotremove_internal` on the parts of a name. -/
def dotremoveParts : JsonObject (JsonValue N) → List (List UInt8) →
    Option (JsonObject (JsonValue N) × JsonStatus)
  | object, [] => some (object, .failure)
  | object, [name] => jsonObjectRemove object name
  | object, name :: part :: parts => do
    match ← jsonObjectGetnValue object name with
    | some (.object inner) =>
      let (inner, status) ← dotremoveParts inner (part :: parts)
      return (← object.putBack name inner, status)
    | _ => return (object, .failure)

/-- `json_object_dotremove`. -/
def jsonObjectDotremove (object : JsonObject (JsonValue N)) (name : List UInt8) :
    Option (JsonObject (JsonValue N) × JsonStatus) :=
  dotremoveParts object (dotParts (CString.ofBytes name))

end CDevHws.Hw08
