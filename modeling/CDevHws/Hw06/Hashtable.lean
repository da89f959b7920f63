import Mathlib.Algebra.Group.Nat.Defs
import Mathlib.Data.List.Basic

/-!
# The hash table of words (`hashtable.c`)

Open addressing with linear probing. The functions return `none` where the C code has no defined
result: a remainder modulo an empty table, or an access outside the array of cells. `malloc`
succeeds.
-/

namespace CDevHws.Hw06

/-- `MAX_WORD_LENGTH`. -/
abbrev maxWordLength : ℕ := 64

/-- `HASHTABLE_SIZE`. -/
def hashtableSize : UInt32 := 4

/-- `HASH_P`. -/
def hashP : UInt64 := 163

/-- `HASH_BASE_SYMBOL`. -/
def hashBaseSymbol : Int := 32

/-- `EXTEND_FACTOR`. -/
def extendFactor : UInt32 := 2

/-- The string in a `char[MAX_WORD_LENGTH]`, without the NUL that ends it. -/
@[ext] structure Word where
  bytes : List UInt8
  noNul : 0 ∉ bytes
  fits : bytes.length < maxWordLength
deriving DecidableEq

/-- The empty string, which marks a free cell. -/
def Word.empty : Word := ⟨[], by decide, by decide⟩

/-- `wcnt_t`: a cell. -/
structure Wcnt where
  word : Word
  count : UInt32
deriving DecidableEq

/-- `hashtable_t`. -/
structure Hashtable where
  size : UInt32
  occupied : UInt32
  maxOccupied : UInt32
  words : List Wcnt
  /-- The array has `size` cells. -/
  length_words : words.length = size.toNat

/-- `size * MAX_LOAD_FACTOR`, the product of type `double` cut to an `unsigned int`. -/
def maxLoad (size : UInt32) : UInt32 := UInt32.ofNat (size.toNat * 3 / 4)

/-- `hashtable_new`. -/
def hashtableNew (size : UInt32) : Hashtable where
  size := size
  occupied := 0
  maxOccupied := maxLoad size
  words := List.replicate size.toNat { word := .empty, count := 0 }
  length_words := List.length_replicate

/-- `hash`, with the running power of `HASH_P` as the second component of the loop. A `char` is
signed. -/
def hash (word : Word) : UInt64 :=
  (word.bytes.foldl (fun (hash, pPow) c =>
    (hash + UInt64.ofInt (c.toInt8.toInt - hashBaseSymbol) * pPow, pPow * hashP))
    ((0, 1) : UInt64 × UInt64)).1

/-- `get_hash_index`. -/
def getHashIndex (word : Word) (size : UInt32) : Option UInt32 :=
  if size = 0 then none else some (UInt32.ofNat ((hash word).toNat % size.toNat))

/-- `empty_cell`: the cell is free or holds the same word. -/
def emptyCell (words : List Wcnt) (word : Word) (index : UInt32) : Option Bool :=
  (words[index.toNat]?).map fun cell => cell.word = .empty || word = cell.word

/-- The loop of `search_word`, with `left` rounds to go; the inner `none` is its end without a
`return`. -/
def searchLoop (t : Hashtable) (word : Word) : ℕ → UInt32 → Option (Option UInt32)
  | 0, _ => some none
  | left + 1, index => do
    if ← emptyCell t.words word index then
      return some index
    let index := index + 1
    searchLoop t word left (if index = t.size then 0 else index)

/-- `search_word`: the index converted to `int`, or -1. -/
def searchWord (t : Hashtable) (word : Word) : Option Int32 := do
  let index ← getHashIndex word t.size
  match ← searchLoop t word t.size.toNat index with
  | some index => return index.toInt32
  | none => return -1

/-- The table with cell `i` overwritten. -/
def Hashtable.put (t : Hashtable) (i : ℕ) (cell : Wcnt) : Hashtable where
  size := t.size
  occupied := t.occupied
  maxOccupied := t.maxOccupied
  words := t.words.set i cell
  length_words := by rw [List.length_set]; exact t.length_words

/-- `add_word`. -/
def addWord (t : Hashtable) (word : Word) (index : UInt32) : Option Hashtable :=
  (t.words[index.toNat]?).map fun cell =>
    let cell := if cell.word = .empty then { cell with word := word } else cell
    t.put index.toNat { cell with count := cell.count + 1 }

/-- The assignment `words[index].count = count`. -/
def setCount (t : Hashtable) (index : UInt32) (count : UInt32) : Option Hashtable :=
  (t.words[index.toNat]?).map fun cell => t.put index.toNat { cell with count := count }

/-- One round of the loop of `hashtable_extend`: an occupied cell of the old table is copied. -/
def copyCell (newHashtable : Hashtable) (cell : Wcnt) : Option Hashtable :=
  if cell.word ≠ .empty then do
    let index ← searchWord newHashtable cell.word
    let newHashtable ← addWord newHashtable cell.word index.toUInt32
    setCount newHashtable index.toUInt32 cell.count
  else some newHashtable

/-- `hashtable_extend`. -/
def hashtableExtend (t : Hashtable) : Option Hashtable :=
  t.words.foldlM copyCell (hashtableNew (t.size * extendFactor))

/-- The loop of `hashtable_add` that looks for a cell and extends the table as long as there is
none; `fuel` bounds the number of searches. -/
def searchOrExtend (word : Word) : ℕ → Hashtable → Option (Hashtable × UInt32)
  | 0, _ => none
  | fuel + 1, t => do
    let index ← searchWord t word
    if index < 0 then searchOrExtend word fuel (← hashtableExtend t)
    else return (t, index.toUInt32)

/-- `hashtable_add`. -/
def hashtableAdd (fuel : ℕ) (t : Hashtable) (word : Word) : Option Hashtable := do
  let (t, index) ← searchOrExtend word fuel t
  let t ← addWord t word index
  let t := { t with occupied := t.occupied + 1 }
  if t.occupied = t.maxOccupied then hashtableExtend t else return t

/-- A sequence of calls of `hashtable_add`. -/
def addAll (fuel : ℕ) (t : Hashtable) (words : List Word) : Option Hashtable :=
  words.foldlM (hashtableAdd fuel) t

/-! ## The tables on the way -/

/-- The table after a sequence of calls on a new table. -/
def After (words : List Word) (t : Hashtable) : Prop :=
  ∃ fuel, addAll fuel (hashtableNew hashtableSize) words = some t

/-- The call of `hashtable_add` with `word` on the first table hands the second one to
`hashtable_extend`. -/
inductive Extends (word : Word) : Hashtable → Hashtable → Prop where
  /-- In the search loop, at once. -/
  | search {t : Hashtable} {index : Int32} (hsearch : searchWord t word = some index)
      (hneg : index < 0) : Extends word t t
  /-- In a later round, on the table extended so far. -/
  | again {t t' u : Hashtable} {index : Int32} (hsearch : searchWord t word = some index)
      (hneg : index < 0) (hextend : hashtableExtend t = some t') (hu : Extends word t' u) :
      Extends word t u
  /-- When the word is stored and the load factor reached. -/
  | load {t u : Hashtable} {index : Int32} (hsearch : searchWord t word = some index)
      (hnonneg : ¬ index < 0) (hadd : addWord t word index.toUInt32 = some u)
      (hmax : u.occupied + 1 = u.maxOccupied) :
      Extends word t { u with occupied := u.occupied + 1 }

/-- No table of the sequence of calls gets more than `2 ^ 31` cells. -/
def SizeBounded (words : List Word) : Prop :=
  ∀ done word t u, done ++ [word] <+: words → After done t → Extends word t u →
    2 * u.size.toNat ≤ 2 ^ 31

end CDevHws.Hw06
