import CDevHws.Hw04.Codepages
import Mathlib.Data.Nat.Init

/-!
# The conversion to UTF-8 (`recode.c`)

Files are lists of bytes, and all writes succeed. A function that calls `exit` for a wrong number of
octets returns `none` then.
-/

namespace CDevHws.Hw04

/-- `encoding_t`. -/
inductive Encoding where
  | cp1251
  | koi8R
  | iso88595
deriving DecidableEq

/-- The buffer for the octets of a symbol. -/
abbrev Octets := Vector UInt8 4

/-- The table that `get_uni_symbol` chooses. -/
def codepageTable : Encoding → Vector UInt32 128
  | .cp1251 => win1251
  | .koi8R => koi8R
  | .iso88595 => iso88595

/-- `get_uni_symbol`. -/
def getUniSymbol (encoding : Encoding) (symbol : UInt8) : UInt32 :=
  if h : 128 ≤ symbol.toNat then
    (codepageTable encoding).get ⟨symbol.toNat - 128, by have hlt := symbol.toNat_lt; omega⟩
  else symbol.toUInt32

/-- `count_octets`. -/
def countOctets (uniSymbol : UInt32) : ℕ :=
  if uniSymbol ≤ 0x7F then 1
  else if uniSymbol ≤ 0x7FF then 2
  else if uniSymbol ≤ 0xFFFF then 3
  else 4

/-- `set_higher_bits`. -/
def setHigherBits (utf8 : Octets) : ℕ → Option Octets
  | 1 => some (utf8.set 0 0)
  | 2 => some ((utf8.set 0 0xC0).set 1 0x80)
  | 3 => some (((utf8.set 0 0xE0).set 1 0x80).set 2 0x80)
  | 4 => some ((((utf8.set 0 0xE0).set 1 0x80).set 2 0x80).set 3 0x80)
  | _ => none

/-- `set_lower_bits`. -/
def setLowerBits (utf8 : Octets) (nOctets : ℕ) (uniSymbol : UInt32) : Option Octets :=
  match nOctets with
  | 1 => some (utf8.set 0 (utf8[0] ||| (uniSymbol &&& 0x7F).toUInt8))
  | 2 =>
    let utf8 := utf8.set 0 (utf8[0] ||| (uniSymbol >>> 6 &&& 0x1F).toUInt8)
    some (utf8.set 1 (utf8[1] ||| (uniSymbol &&& 0x3F).toUInt8))
  | 3 =>
    let utf8 := utf8.set 0 (utf8[0] ||| (uniSymbol >>> 12 &&& 0xF).toUInt8)
    let utf8 := utf8.set 1 (utf8[1] ||| (uniSymbol >>> 6 &&& 0x3F).toUInt8)
    some (utf8.set 2 (utf8[2] ||| (uniSymbol &&& 0x3F).toUInt8))
  | 4 =>
    let utf8 := utf8.set 0 (utf8[0] ||| (uniSymbol >>> 18 &&& 0x7).toUInt8)
    let utf8 := utf8.set 1 (utf8[1] ||| (uniSymbol >>> 12 &&& 0x3F).toUInt8)
    let utf8 := utf8.set 2 (utf8[2] ||| (uniSymbol >>> 6 &&& 0x3F).toUInt8)
    some (utf8.set 3 (utf8[3] ||| (uniSymbol &&& 0x3F).toUInt8))
  | _ => none

/-- `encode_symbol`: the number of octets, and the buffer. -/
def encodeSymbol (encoding : Encoding) (symbol : UInt8) (utf8 : Octets) : Option (ℕ × Octets) := do
  let uniSymbol := getUniSymbol encoding symbol
  let nOctets := countOctets uniSymbol
  let utf8 ← setHigherBits utf8 nOctets
  let utf8 ← setLowerBits utf8 nOctets uniSymbol
  return (nOctets, utf8)

/-- The loop of `main`: what is written for the rest of the input. -/
def recodeLoop (encoding : Encoding) : Octets → List UInt8 → Option (List UInt8)
  | _, [] => some []
  | utf8, c :: input => do
    let (nOctets, utf8) ← encodeSymbol encoding c utf8
    let output ← recodeLoop encoding utf8 input
    return utf8.toList.take nOctets ++ output

/-- The output file for an input file. -/
def recode (encoding : Encoding) (input : List UInt8) : Option (List UInt8) :=
  recodeLoop encoding (Vector.replicate 4 0) input

end CDevHws.Hw04
