import CDevHws.Hw08.ValueOps
import Mathlib.Algebra.Group.Int.Defs

/-!
# The weather report (`weather.c`)

`main` from the calls that libcurl makes to `WriteMemoryCallback` to the report, which is taken from
the JSON text with the functions of `parson.c`.
-/

namespace CDevHws.Hw08

open CString (ofBytes scanInt)

/-- How a run ends before the report is printed. -/
inductive Stop where
  /-- The C code has no defined result. -/
  | undefined
  /-- `exit(EXIT_FAILURE)`, with this written to `stderr`. -/
  | exit (stderr : String)

/-! ## `WriteMemoryCallback` -/

/-- `struct MemoryStruct`. -/
structure MemoryStruct where
  memory : List UInt8
  size : ℕ

/-- `WriteMemoryCallback`, where `realloc` succeeds or not. -/
def writeMemoryCallback (contents : List UInt8) (reallocated : Bool) (mem : MemoryStruct) :
    ℕ × MemoryStruct :=
  let realsize := contents.length
  if reallocated then
    (realsize, ⟨mem.memory.take mem.size ++ contents ++ [0], mem.size + realsize⟩)
  else (0, mem)

/-- `read_data`, where `malloc(1)` has returned a byte with any value. libcurl calls the callback,
each time with some bytes, and `realloc` succeeds or not. -/
def readData (byte : UInt8) (calls : List (List UInt8 × Bool)) : MemoryStruct :=
  calls.foldl (fun mem (contents, reallocated) => (writeMemoryCallback contents reallocated mem).2)
    ⟨[byte], 0⟩

/-! ## `parse_data` -/

/-- `weather_t`. -/
structure Weather where
  temp : ℤ
  windSpd : ℤ
  windDir : List UInt8
  desc : List UInt8
deriving DecidableEq

/-- `atoi`, which is undefined if the number is not an `int`. -/
def atoi (s : List UInt8) : Option ℤ :=
  let n := (scanInt s).getD 0
  if -2 ^ 31 ≤ n ∧ n < 2 ^ 31 then some n else none

/-- `lround(kmph * 1000.0 / 3600.0)`. A quotient that is not half an odd number is too far away from
all of these for the rounding of the division to matter. -/
def lroundSpeed (kmph : ℤ) : ℤ := kmph.sign * ((kmph.natAbs * 1000 + 1800) / 3600 : ℕ)

/-- What the loop over the points of the compass appends: two bytes for each of the four letters. -/
def windLetter (c : UInt8) : List UInt8 :=
  if c = 78 then [0xD0, 0xA1]
  else if c = 87 then [0xD0, 0x97]
  else if c = 69 then [0xD0, 0x92]
  else if c = 83 then [0xD0, 0xAE]
  else []

/-- Whether the two calls of `malloc` in `parse_data` succeed, which does not look at that. -/
structure Mallocs where
  str2 : Bool
  desc : Bool

/-- `str2`, for which `strlen(str) * sizeof("Ф") + 1` bytes are allocated. If they are not, its
first byte is written through `NULL`. -/
def windDir (allocated : Bool) (str : List UInt8) : Option (List UInt8) :=
  let str2 := str.flatMap windLetter
  if allocated = true ∧ str2.length < str.length * 3 + 1 then some str2 else none

/-- The copy of `desc`, which has at least one byte. If it is not allocated, it is written through
`NULL`. -/
def descCopy (allocated : Bool) (desc : List UInt8) : Option (List UInt8) :=
  if allocated then some desc else none

/-- `get_js_type_str`. -/
def getJsTypeStr : JsonValueType → String
  | .null => "JSONNull"
  | .string => "JSONString"
  | .number => "JSONNumber"
  | .object => "JSONObject"
  | .array => "JSONArray"
  | .boolean => "JSONBoolean"

/-- What is needed, or else `exit` with a message. -/
def orExit {α : Type} (message : String) : Option α → Except Stop α
  | some a => .ok a
  | none => .error (.exit message)

/-- `exit` with a message, in this case. -/
def exitIf (c : Prop) [Decidable c] (message : String) : Except Stop Unit :=
  if c then .error (.exit message) else .ok ()

/-- What must be defined. -/
def defined {α : Type} : Option α → Except Stop α
  | some a => .ok a
  | none => .error .undefined

variable {N : Type}

/-- The object in a value that must be one. -/
def expectObject (what : String) : JsonValue N → Except Stop (JsonObject (JsonValue N))
  | .object object => .ok object
  | value => .error (.exit ("Parse error: incorrect " ++ what ++ ". Expected JSONObject, got " ++
      getJsTypeStr (jsonValueGetType value) ++ "\n"))

/-- The items of a value that must be an array. -/
def expectArray (what : String) : JsonValue N → Except Stop (List (JsonValue N))
  | .array items => .ok items
  | value => .error (.exit ("Parse error: incorrect " ++ what ++ ". Expected JSONArray, got " ++
      getJsTypeStr (jsonValueGetType value) ++ "\n"))

/-- `json_value_get_string`. -/
def jsonValueGetString : JsonValue N → Option (List UInt8)
  | .string chars => some (ofBytes chars)
  | _ => none

/-- `json_value_get_array`. -/
def jsonValueGetArray : JsonValue N → Option (List (JsonValue N))
  | .array items => some items
  | _ => none

/-- `json_object_get_string`. -/
def jsonObjectGetString (object : JsonObject (JsonValue N)) (name : String) :
    Except Stop (Option (List UInt8)) := do
  return (← defined (jsonObjectGetValue object (bytes name))).bind jsonValueGetString

/-- `json_object_get_array`. -/
def jsonObjectGetArray (object : JsonObject (JsonValue N)) (name : String) :
    Except Stop (Option (List (JsonValue N))) := do
  return (← defined (jsonObjectGetValue object (bytes name))).bind jsonValueGetArray

/-- The part of `parse_data` that takes the values from the object with them. -/
def parseValues (mallocs : Mallocs) (values : JsonObject (JsonValue N)) :
    Except Stop Weather := do
  exitIf (values.count = 0)
    "Parse error: current condition array doesn't contain any key-val pairs.\n"
  let str ← orExit "Parse error: can't get temperature value!\n"
    (← jsonObjectGetString values "temp_C")
  let temp ← defined (atoi str)
  let str ← orExit "Parse error: can't get wind speed value!\n"
    (← jsonObjectGetString values "windspeedKmph")
  let kmph ← defined (atoi str)
  let str ← orExit "Parse error: can't get wind direction value!\n"
    (← jsonObjectGetString values "winddir16Point")
  let str2 ← defined (windDir mallocs.str2 str)
  let descArray ← orExit "Parse error: weather description array doesn't contain value.\n"
    (← jsonObjectGetArray values "lang_ru")
  exitIf (descArray.length = 0)
    "Parse error: weather description array doesn't contain any objects.\n"
  let descArrayValue ← orExit
    "Parse error: weather description array[0] doesn't contain values.\n" descArray.head?
  let descObject ← expectObject "desc_array_value" descArrayValue
  let desc ← orExit "Got null weather desc!\n" (← jsonObjectGetString descObject "value")
  let desc ← defined (descCopy mallocs.desc desc)
  return { temp, windSpd := lroundSpeed kmph, windDir := str2, desc }

/-- `parse_data`. -/
def parseData (format : NumberFormat N) (mallocs : Mallocs) (json : List UInt8) :
    Except Stop Weather := do
  let rootValue ← orExit "Parse error: got empty root_value.\n" (jsonParseString format json)
  let rootObject ← expectObject "root_value" rootValue
  exitIf (rootObject.count = 0) "Parse error: root_object has no values\n"
  let currCondValue ← orExit "Parse error: root_object has no current weather condition value.\n"
    (← defined (jsonObjectGetValue rootObject (bytes "current_condition")))
  let currCondArray ← expectArray "current condition value" currCondValue
  let value ← orExit "Parse error: current weather condition array has no values.!\n"
    currCondArray.head?
  let values ← expectObject "value of current condition array object" value
  parseValues mallocs values

/-- `main`, up to the report that `print_result` prints. -/
def weather (format : NumberFormat N) (byte : UInt8) (calls : List (List UInt8 × Bool))
    (mallocs : Mallocs) : Except Stop Weather :=
  let chunk := readData byte calls
  if chunk.size = 0 then .error (.exit "Got empty response from server, exiting.\n")
  else parseData format mallocs chunk.memory

/-! ## What is reported -/

/-- Why there is no report. -/
inductive Fault where
  /-- The text or something in it is missing, or has another type. -/
  | missing
  /-- A number is not an `int`. -/
  | overflow
deriving DecidableEq

/-- The bytes that `read_data` keeps: those of all calls but the failed ones. libcurl makes no call
after a failed one, but for one with no bytes at all, so that these are the bytes until then. -/
def received (calls : List (List UInt8 × Bool)) : List UInt8 :=
  (calls.filter Prod.snd).flatMap Prod.fst

/-- The member of an object with this name. -/
def Json.member (name : String) : Json N → Option (Json N)
  | .object members => members.lookup (bytes name)
  | _ => none

/-- The first item of an array. -/
def Json.first : Json N → Option (Json N)
  | .array items => items.head?
  | _ => none

/-- The characters of a string, as a C string. -/
def Json.text : Json N → Option (List UInt8)
  | .string chars => some (ofBytes chars)
  | _ => none

/-- What must not be missing. -/
def needed {α : Type} (a : Option α) : Except Fault α := a.elim (.error .missing) .ok

/-- A number that must be an `int`. -/
def intOf (s : List UInt8) : Except Fault ℤ := (atoi s).elim (.error .overflow) .ok

/-- The temperature, and the speed and the direction of the wind. -/
def windOfCurrent (current : Json N) : Except Fault (ℤ × ℤ × List UInt8) := do
  let temp ← intOf (← needed ((current.member "temp_C").bind Json.text))
  let kmph ← intOf (← needed ((current.member "windspeedKmph").bind Json.text))
  let points ← needed ((current.member "winddir16Point").bind Json.text)
  return (temp, lroundSpeed kmph, points.flatMap windLetter)

/-- The description of the weather. -/
def descOfCurrent (current : Json N) : Except Fault (List UInt8) := do
  let described ← needed ((current.member "lang_ru").bind Json.first)
  needed ((described.member "value").bind Json.text)

/-- What the tree of the current condition has to report. -/
def reportOfCurrent (current : Json N) : Except Fault Weather := do
  let (temp, windSpd, windDir) ← windOfCurrent current
  let desc ← descOfCurrent current
  return { temp, windSpd, windDir, desc }

/-- The tree of the current condition. -/
def Json.current (tree : Json N) : Option (Json N) :=
  (tree.member "current_condition").bind Json.first

/-- What the tree of the whole text has to report. -/
def reportOf (tree : Json N) : Except Fault Weather := do reportOfCurrent (← needed tree.current)

/-- The part of it that comes before the description. -/
def windOf (tree : Json N) : Except Fault (ℤ × ℤ × List UInt8) := do
  windOfCurrent (← needed tree.current)

end CDevHws.Hw08
