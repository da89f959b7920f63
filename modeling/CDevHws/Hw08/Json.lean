import CDevHws.Hw08.Parson

/-!
# What JSON values stand for

A value of the C code holds its objects as hash tables. What it stands for is a tree, in which an
object is the list of its names and values.
-/

namespace CDevHws.Hw08

/-- A tree of JSON values. -/
inductive Json (N : Type) where
  | null
  | boolean (boolean : Bool)
  | number (number : N)
  | string (chars : List UInt8)
  | array (items : List (Json N))
  | object (members : List (List UInt8 × Json N))

variable {N : Type}

mutual

/-- The tree that a value stands for. -/
def JsonValue.tree : JsonValue N → Json N
  | .null => .null
  | .boolean boolean => .boolean boolean
  | .number number => .number number
  | .string chars => .string chars
  | .array items => .array (itemTrees items)
  | .object object => .object (objectTrees object)

def itemTrees : List (JsonValue N) → List (Json N)
  | [] => []
  | item :: items => item.tree :: itemTrees items

def objectTrees : JsonObject (JsonValue N) → List (List UInt8 × Json N)
  | ⟨_, items, _⟩ => memberTrees items

def memberTrees : List (Item (JsonValue N)) → List (List UInt8 × Json N)
  | [] => []
  | item :: items => memberTree item :: memberTrees items

def memberTree : Item (JsonValue N) → List UInt8 × Json N
  | ⟨name, value, _, _⟩ => (name, value.tree)

end

mutual

/-- How deep the containers of a tree are nested: 0 for a tree with nothing inside. -/
def Json.depth : Json N → ℕ
  | .array items => itemsDepth items
  | .object members => membersDepth members
  | _ => 0

def itemsDepth : List (Json N) → ℕ
  | [] => 0
  | item :: items => max (item.depth + 1) (itemsDepth items)

def membersDepth : List (List UInt8 × Json N) → ℕ
  | [] => 0
  | member :: members => max (memberDepth member + 1) (membersDepth members)

def memberDepth : List UInt8 × Json N → ℕ
  | (_, value) => value.depth

end

/-- The values that the functions of the library build: all objects keep their invariant, and their
names are C strings. -/
inductive JsonValue.WellFormed : JsonValue N → Prop
  | null : WellFormed .null
  | boolean {boolean : Bool} : WellFormed (.boolean boolean)
  | number {number : N} : WellFormed (.number number)
  | string {chars : List UInt8} : WellFormed (.string chars)
  | array {items : List (JsonValue N)} (hitems : ∀ item ∈ items, WellFormed item) :
      WellFormed (.array items)
  | object {object : JsonObject (JsonValue N)} (hobject : object.Inv)
      (hnames : ∀ item ∈ object.items, 0 ∉ item.name)
      (hvalues : ∀ item ∈ object.items, WellFormed item.value) : WellFormed (.object object)

/-- What may follow a number in a text. -/
def Delimited (rest : List UInt8) : Prop :=
  ∀ c, rest.head? = some c → c = 44 ∨ c = 93 ∨ c = 125 ∨ CString.isspace c

/-- A number is written in decimal, and `strtod` reads the same number from what is written. -/
structure NumberFormat.ReadsBack (format : NumberFormat N) (number : N) : Prop where
  head : ∃ c s, format.sprintf number = c :: s ∧ (c = 45 ∨ CString.isdigit c)
  no_nul : 0 ∉ format.sprintf number
  decimal : isDecimal (format.sprintf number) (format.sprintf number).length
  strtod : ∀ rest, Delimited rest → format.strtod (format.sprintf number ++ rest) =
    some (number, (format.sprintf number).length)

end CDevHws.Hw08
