import CDevHws.Hw08.Object

/-!
# Reading and writing JSON (`parson.c`)

A pointer into a string is the rest of the string from there on, without the NUL at its end. A
parsing function returns the value and the rest, or `none` for `NULL` (also if it does not return,
because an object has too many members). `malloc` succeeds, and values have no `parent`.

Numbers are of any type `N`: what the C library makes of them is a parameter, `NumberFormat`. The
settings that a program can change (slashes are escaped, `%1.17g`) are the default ones.
-/

namespace CDevHws.Hw08

open CString (isspace isdigit)

/-- `JSON_Value`. An array is the list of its items. -/
inductive JsonValue (N : Type) where
  | null
  | boolean (boolean : Bool)
  | number (number : N)
  | string (chars : List UInt8)
  | array (items : List (JsonValue N))
  | object (object : JsonObject (JsonValue N))

/-- What the C library makes of numbers. -/
structure NumberFormat (N : Type) where
  /-- `strtod`: the number, and how many bytes of the string are read. `none` if the number is not
  finite, or if `errno` is set other than for a number that is too small. -/
  strtod : List UInt8 → Option (N × ℕ)
  /-- `parson_sprintf(num_buf, float_format, num)`. -/
  sprintf : N → List UInt8

/-- `MAX_NESTING`. -/
def maxNesting : ℕ := 2048

/-- The bytes of a string literal. -/
def bytes (s : String) : List UInt8 := s.toList.map fun c => c.toNat.toUInt8

/-! ## Strings -/

/-- `hex_char_to_int`, with `none` for -1. -/
def hexCharToInt (c : UInt8) : Option ℕ :=
  if 48 ≤ c ∧ c ≤ 57 then some (c.toNat - 48)
  else if 97 ≤ c ∧ c ≤ 102 then some (c.toNat - 97 + 10)
  else if 65 ≤ c ∧ c ≤ 70 then some (c.toNat - 65 + 10)
  else none

/-- `parse_utf16_hex`. -/
def parseUtf16Hex : List UInt8 → Option ℕ
  | c1 :: c2 :: c3 :: c4 :: _ => do
    let x1 ← hexCharToInt c1
    let x2 ← hexCharToInt c2
    let x3 ← hexCharToInt c3
    let x4 ← hexCharToInt c4
    return x1 <<< 12 ||| x2 <<< 8 ||| x3 <<< 4 ||| x4
  | _ => none

/-- The bits of a code point from `shift` on, under `mask`, with the bits `tag` set. -/
def utf8Byte (cp shift mask tag : ℕ) : UInt8 := ((cp >>> shift &&& mask) ||| tag).toUInt8

/-- `parse_utf16` after a lead surrogate, on the string behind it. -/
def parseTrail (lead : ℕ) (s : List UInt8) : Option (List UInt8) :=
  if s.take 2 = [92, 117] then do
    let trail ← parseUtf16Hex (s.drop 2)
    if trail < 0xDC00 ∨ trail > 0xDFFF then none
    else
      let cp := (((lead - 0xD800) &&& 0x3FF) <<< 10 ||| ((trail - 0xDC00) &&& 0x3FF)) + 0x010000
      return [utf8Byte cp 18 0x07 0xF0, utf8Byte cp 12 0x3F 0x80, utf8Byte cp 6 0x3F 0x80,
        utf8Byte cp 0 0x3F 0x80]
  else none

/-- `parse_utf16`, on the string behind the `u`: the bytes it writes, and how many it reads. -/
def parseUtf16 (s : List UInt8) : Option (List UInt8 × ℕ) := do
  let cp ← parseUtf16Hex s
  if cp < 0x80 then return ([cp.toUInt8], 4)
  else if cp < 0x800 then return ([utf8Byte cp 6 0x1F 0xC0, utf8Byte cp 0 0x3F 0x80], 4)
  else if cp < 0xD800 ∨ cp > 0xDFFF then
    return ([utf8Byte cp 12 0x0F 0xE0, utf8Byte cp 6 0x3F 0x80, utf8Byte cp 0 0x3F 0x80], 4)
  else if cp ≥ 0xD800 ∧ cp ≤ 0xDBFF then
    return (← parseTrail cp (s.drop 4), 10)
  else none

/-- The byte that a backslash and a character other than `u` stand for. -/
def unescape (c : UInt8) : Option UInt8 :=
  if c = 34 then some 34
  else if c = 92 then some 92
  else if c = 47 then some 47
  else if c = 98 then some 8
  else if c = 102 then some 12
  else if c = 110 then some 10
  else if c = 114 then some 13
  else if c = 116 then some 9
  else none

/-- `process_string`, with `left` bytes of the input to go. -/
def processString : List UInt8 → ℕ → Option (List UInt8)
  | [], _ => some []
  | _ :: _, 0 => some []
  | c :: s, left + 1 =>
    if c = 92 then
      if s.head? = some 117 then do
        let (written, read) ← parseUtf16 s.tail
        let output ← processString (s.tail.drop read) (left - 1 - read)
        return written ++ output
      else do
        let c ← s.head?.bind unescape
        let output ← processString s.tail (left - 1)
        return c :: output
    else if c < 0x20 then none
    else do
      let output ← processString s left
      return c :: output
termination_by _ left => left

/-- The loop of `skip_quotes`: the string behind the closing quote. -/
def skipQuotesLoop : List UInt8 → Option (List UInt8)
  | [] => none
  | [c] => if c = 34 then some [] else none
  | c :: d :: s =>
    if c = 34 then some (d :: s)
    else if c = 92 then skipQuotesLoop s
    else skipQuotesLoop (d :: s)

/-- `get_quoted_string`, which begins with `skip_quotes`. -/
def getQuotedString (string : List UInt8) : Option (List UInt8 × List UInt8) :=
  match string with
  | [] => none
  | c :: stringStart =>
    if c ≠ 34 then none
    else do
      let string ← skipQuotesLoop stringStart
      let inputStringLen := stringStart.length - string.length - 1
      let output ← processString stringStart inputStringLen
      return (output, string)

/-- A text in which every backslash has its character, and every quote a backslash. -/
inductive Quoted : List UInt8 → Prop
  | nil : Quoted []
  | plain {c : UInt8} {s : List UInt8} (h34 : c ≠ 34) (h92 : c ≠ 92) (h : Quoted s) :
      Quoted (c :: s)
  | escaped {c : UInt8} {s : List UInt8} (h : Quoted s) : Quoted (92 :: c :: s)

/-! ## Parsing -/

section Parsing

variable {N : Type}

/-- A parsing function: the value and the rest of the string. -/
abbrev Parser (N : Type) := List UInt8 → Option (JsonValue N × List UInt8)

/-- `SKIP_WHITESPACES`. -/
def skipWhitespaces (string : List UInt8) : List UInt8 := string.dropWhile isspace

/-- `is_decimal`. -/
def isDecimal (string : List UInt8) (length : ℕ) : Bool :=
  if length > 1 ∧ string[0]? = some 48 ∧ string[1]? ≠ some 46 then false
  else if length > 2 ∧ string.take 2 = [45, 48] ∧ string[2]? ≠ some 46 then false
  else (string.take length).all fun c => c ≠ 120 ∧ c ≠ 88

/-- `parse_string_value`. -/
def parseStringValue : Parser N := fun string => do
  let (newString, string) ← getQuotedString string
  return (.string newString, string)

/-- `parse_boolean_value`. -/
def parseBooleanValue : Parser N := fun string =>
  if bytes "true" <+: string then some (.boolean true, string.drop 4)
  else if bytes "false" <+: string then some (.boolean false, string.drop 5)
  else none

/-- `parse_null_value`. -/
def parseNullValue : Parser N := fun string =>
  if bytes "null" <+: string then some (.null, string.drop 4) else none

/-- `parse_number_value`. -/
def parseNumberValue (format : NumberFormat N) : Parser N := fun string => do
  let (number, read) ← format.strtod string
  if isDecimal string read then return (.number number, string.drop read) else none

/-- The end of `parse_array_value`. -/
def closeArray (items : List (JsonValue N)) : Parser N := fun string =>
  let string := skipWhitespaces string
  if string.head? = some 93 then some (.array items, string.tail) else none

/-- The loop of `parse_array_value`, which calls `parse_value`; `fuel` bounds the number of rounds,
each of which reads a byte. -/
def arrayLoop (parseValue : Parser N) : ℕ → List (JsonValue N) → Parser N
  | 0, _, _ => none
  | fuel + 1, items, string =>
    if string = [] then closeArray items string
    else do
      let (newArrayValue, string) ← parseValue string
      let items := items ++ [newArrayValue]
      let string := skipWhitespaces string
      if string.head? = some 44 then
        let string := skipWhitespaces string.tail
        if string.head? = some 93 then closeArray items string
        else arrayLoop parseValue fuel items string
      else closeArray items string

/-- `parse_array_value`, on the string behind the bracket. -/
def parseArrayValue (parseValue : Parser N) : Parser N := fun string =>
  let string := skipWhitespaces string
  if string.head? = some 93 then some (.array [], string.tail)
  else arrayLoop parseValue (string.length + 1) [] string

/-- The end of `parse_object_value`. -/
def closeObject (object : JsonObject (JsonValue N)) : Parser N := fun string =>
  let string := skipWhitespaces string
  if string.head? = some 125 then some (.object object, string.tail) else none

/-- The loop of `parse_object_value`, which calls `parse_value`; `fuel` bounds the number of rounds,
each of which reads a byte. -/
def objectLoop (parseValue : Parser N) : ℕ → JsonObject (JsonValue N) → Parser N
  | 0, _, _ => none
  | fuel + 1, object, string =>
    if string = [] then closeObject object string
    else do
      let (newKey, string) ← getQuotedString string
      -- the length of the key, and the length up to a NUL in it
      if newKey.length ≠ (CString.ofBytes newKey).length then none
      else
        let string := skipWhitespaces string
        if string.head? ≠ some 58 then none
        else do
          let (newValue, string) ← parseValue string.tail
          match ← jsonObjectAdd object newKey newValue with
          | (_, .failure) => none
          | (object, .success) =>
            let string := skipWhitespaces string
            if string.head? = some 44 then
              let string := skipWhitespaces string.tail
              if string.head? = some 125 then closeObject object string
              else objectLoop parseValue fuel object string
            else closeObject object string

/-- `parse_object_value`, on the string behind the brace. -/
def parseObjectValue (parseValue : Parser N) : Parser N := fun string =>
  let string := skipWhitespaces string
  if string.head? = some 125 then some (.object (jsonObjectMake _), string.tail)
  else objectLoop parseValue (string.length + 1) (jsonObjectMake _) string

/-- `parse_value`, with `left` for `MAX_NESTING + 1 - nesting`. -/
def parseValue (format : NumberFormat N) : ℕ → Parser N
  | 0, _ => none
  | left + 1, string =>
    match skipWhitespaces string with
    | [] => none
    | c :: string =>
      if c = 123 then parseObjectValue (parseValue format left) string
      else if c = 91 then parseArrayValue (parseValue format left) string
      else if c = 34 then parseStringValue (c :: string)
      else if c = 102 ∨ c = 116 then parseBooleanValue (c :: string)
      else if c = 45 ∨ isdigit c then parseNumberValue format (c :: string)
      else if c = 110 then parseNullValue (c :: string)
      else none

/-- `json_parse_string`, on the bytes from `string` on. -/
def jsonParseString (format : NumberFormat N) (string : List UInt8) : Option (JsonValue N) :=
  let string := CString.ofBytes string
  let string := if [0xEF, 0xBB, 0xBF] <+: string then string.drop 3 else string
  (parseValue format (maxNesting + 1) string).map Prod.fst

end Parsing

/-! ## Serialization -/

section Serialization

variable {N : Type}

/-- A lower case hexadecimal digit. -/
def hexDigit (n : UInt8) : UInt8 := if n < 10 then 48 + n else 87 + n

/-- What `json_serialize_string` writes for one byte; the source has a case for each of the control
characters. -/
def escape (c : UInt8) : List UInt8 :=
  if c = 34 then bytes "\\\""
  else if c = 92 then bytes "\\\\"
  else if c = 8 then bytes "\\b"
  else if c = 12 then bytes "\\f"
  else if c = 10 then bytes "\\n"
  else if c = 13 then bytes "\\r"
  else if c = 9 then bytes "\\t"
  else if c < 0x20 then bytes "\\u00" ++ [hexDigit (c / 16), hexDigit (c % 16)]
  else if c = 47 then bytes "\\/"
  else [c]

/-- `json_serialize_string`. -/
def jsonSerializeString (string : List UInt8) : List UInt8 :=
  [34] ++ string.flatMap escape ++ [34]

/-- `APPEND_INDENT`. -/
def indent (level : ℕ) : List UInt8 := (List.replicate level (bytes "    ")).flatten

/-- A text that is written if `is_pretty`. -/
def whenPretty (isPretty : Bool) (text : List UInt8) : List UInt8 := if isPretty then text else []

mutual

/-- `json_serialize_to_buffer_r`: the bytes it writes. -/
def serialize (format : NumberFormat N) (isPretty : Bool) (level : ℕ) :
    JsonValue N → List UInt8
  | .null => bytes "null"
  | .boolean true => bytes "true"
  | .boolean false => bytes "false"
  | .number number => format.sprintf number
  | .string chars => jsonSerializeString chars
  | .array items =>
    bytes "[" ++ whenPretty (isPretty && !items.isEmpty) (bytes "\n") ++
      serializeItems format isPretty level items ++
      whenPretty (isPretty && !items.isEmpty) (indent level) ++ bytes "]"
  | .object object => serializeObject format isPretty level object

/-- The loop over the items of an array. -/
def serializeItems (format : NumberFormat N) (isPretty : Bool) (level : ℕ) :
    List (JsonValue N) → List UInt8
  | [] => []
  | item :: items =>
    whenPretty isPretty (indent (level + 1)) ++ serialize format isPretty (level + 1) item ++
      (if items.isEmpty then [] else bytes ",") ++ whenPretty isPretty (bytes "\n") ++
      serializeItems format isPretty level items

/-- The case of an object. -/
def serializeObject (format : NumberFormat N) (isPretty : Bool) (level : ℕ) :
    JsonObject (JsonValue N) → List UInt8
  | ⟨_, items, _⟩ =>
    bytes "\x7b" ++ whenPretty (isPretty && !items.isEmpty) (bytes "\n") ++
      serializeMembers format isPretty level items ++
      whenPretty (isPretty && !items.isEmpty) (indent level) ++ bytes "\x7d"

/-- The loop over the items of an object. -/
def serializeMembers (format : NumberFormat N) (isPretty : Bool) (level : ℕ) :
    List (Item (JsonValue N)) → List UInt8
  | [] => []
  | item :: items =>
    whenPretty isPretty (indent (level + 1)) ++ serializeMember format isPretty level item ++
      (if items.isEmpty then [] else bytes ",") ++ whenPretty isPretty (bytes "\n") ++
      serializeMembers format isPretty level items

/-- A name and its value. -/
def serializeMember (format : NumberFormat N) (isPretty : Bool) (level : ℕ) :
    Item (JsonValue N) → List UInt8
  | ⟨name, value, _, _⟩ =>
    jsonSerializeString (CString.ofBytes name) ++ bytes ":" ++ whenPretty isPretty (bytes " ") ++
      serialize format isPretty (level + 1) value

end

/-- `INT_MAX`. -/
def intMax : ℕ := 2 ^ 31 - 1

/-- `json_serialization_size` and `json_serialization_size_pretty`: the size of the text with the
NUL. The bytes are counted in the `int` `written_total`, which overflows if and only if the whole
text is longer than `INT_MAX`; then there is no result. -/
def jsonSerializationSize (format : NumberFormat N) (isPretty : Bool) (value : JsonValue N) :
    Option ℕ :=
  let res := (serialize format isPretty 0 value).length
  if res ≤ intMax then some (res + 1) else none

/-- The two functions that write to a string, which return `NULL` for the size 0. -/
def serializeToString (format : NumberFormat N) (isPretty : Bool) (value : JsonValue N) :
    Option (List UInt8) := do
  let bufSizeBytes ← jsonSerializationSize format isPretty value
  if bufSizeBytes = 0 then none
  else return serialize format isPretty 0 value

/-- `json_serialize_to_string`, without the NUL at the end. -/
def jsonSerializeToString (format : NumberFormat N) (value : JsonValue N) : Option (List UInt8) :=
  serializeToString format false value

/-- `json_serialize_to_string_pretty`, without the NUL at the end. -/
def jsonSerializeToStringPretty (format : NumberFormat N) (value : JsonValue N) :
    Option (List UInt8) :=
  serializeToString format true value

end Serialization

end CDevHws.Hw08
