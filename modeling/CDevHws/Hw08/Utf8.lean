import CDevHws.Hw08.Parson

/-!
# The check of strings (`parson.c`)

`json_value_init_string` and the functions that call it take valid UTF-8 only. The check reads on
behind the end of the string if the last character seems to go on there, so that it is given the
memory from the string on, as a function of the index.
-/

namespace CDevHws.Hw08

/-- `IS_CONT`. -/
def isCont (b : UInt8) : Bool := b &&& 0xC0 = 0x80

/-- `num_bytes_in_utf8_sequence`. -/
def numBytesInUtf8Sequence (c : UInt8) : ℕ :=
  if c = 0xC0 ∨ c = 0xC1 ∨ c > 0xF4 ∨ isCont c then 0
  else if c &&& 0x80 = 0 then 1
  else if c &&& 0xE0 = 0xC0 then 2
  else if c &&& 0xF0 = 0xE0 then 3
  else if c &&& 0xF8 = 0xF0 then 4
  else 0

/-- `(cp << 6) | (b & 0x3F)`. -/
def addBits (cp : ℕ) (b : UInt8) : ℕ := cp <<< 6 ||| (b.toNat &&& 0x3F)

/-- The code point in `verify_utf8_sequence`, if it is a sequence of `len` bytes. -/
def sequenceBits (string : ℕ → UInt8) (len : ℕ) : Option ℕ :=
  let first := (string 0).toNat
  if len = 1 then some first
  else if len = 2 ∧ isCont (string 1) then
    some (addBits (first &&& 0x1F) (string 1))
  else if len = 3 ∧ isCont (string 1) ∧ isCont (string 2) then
    some (addBits (addBits (first &&& 0xF) (string 1)) (string 2))
  else if len = 4 ∧ isCont (string 1) ∧ isCont (string 2) ∧ isCont (string 3) then
    some (addBits (addBits (addBits (first &&& 0x7) (string 1)) (string 2)) (string 3))
  else none

/-- `verify_utf8_sequence`: the number of bytes, or `none` for `JSONFailure`. -/
def verifyUtf8Sequence (string : ℕ → UInt8) : Option ℕ := do
  let len := numBytesInUtf8Sequence (string 0)
  let cp ← sequenceBits string len
  if cp < 0x80 ∧ len > 1 ∨ cp < 0x800 ∧ len > 2 ∨ cp < 0x10000 ∧ len > 3 then none
  else if cp > 0x10FFFF then none
  else if cp ≥ 0xD800 ∧ cp ≤ 0xDFFF then none
  else some len

/-- The loop of `is_valid_utf8`, with `left` for `string_end - string` (0 also behind the end). Each
round takes a byte at least, so that there are no more rounds than bytes. -/
def validLoop : ℕ → (ℕ → UInt8) → ℕ → Bool
  | _, _, 0 => true
  | 0, _, _ + 1 => false
  | rounds + 1, string, left + 1 =>
    match verifyUtf8Sequence string with
    | some len => validLoop rounds (fun i => string (len + i)) (left + 1 - len)
    | none => false

/-- `is_valid_utf8`. -/
def isValidUtf8 (string : ℕ → UInt8) (stringLen : ℕ) : Bool := validLoop stringLen string stringLen

/-- The first bytes from a place in memory on. -/
def firstBytes (string : ℕ → UInt8) (n : ℕ) : List UInt8 := (List.range n).map string

/-- `json_value_init_string_with_len`. -/
def jsonValueInitStringWithLen {N : Type} (string : ℕ → UInt8) (length : ℕ) :
    Option (JsonValue N) :=
  if isValidUtf8 string length then some (.string (firstBytes string length)) else none

/-- The memory of a string, with a NUL behind it. -/
def memoryOf (string : List UInt8) (i : ℕ) : UInt8 := string.getD i 0

/-- `json_value_init_string`. -/
def jsonValueInitString {N : Type} (string : List UInt8) : Option (JsonValue N) :=
  jsonValueInitStringWithLen (memoryOf string) (CString.ofBytes string).length

/-- `is_valid_utf8` on a string with a NUL behind it. -/
def isValidString (string : List UInt8) : Bool := isValidUtf8 (memoryOf string) string.length

/-- All strings in a value, and all names, have this property. -/
inductive JsonValue.Strings {N : Type} (p : List UInt8 → Prop) : JsonValue N → Prop
  | null : Strings p .null
  | boolean {boolean : Bool} : Strings p (.boolean boolean)
  | number {number : N} : Strings p (.number number)
  | string {chars : List UInt8} (h : p chars) : Strings p (.string chars)
  | array {items : List (JsonValue N)} (h : ∀ item ∈ items, Strings p item) :
      Strings p (.array items)
  | object {object : JsonObject (JsonValue N)} (hnames : ∀ item ∈ object.items, p item.name)
      (h : ∀ item ∈ object.items, Strings p item.value) : Strings p (.object object)

end CDevHws.Hw08
