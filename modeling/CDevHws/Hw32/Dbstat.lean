import CDevHws.Lib.Outcome
import Mathlib.Algebra.Order.Field.Rat

/-!
# Statistics of a column (`dbstat.c`)

The program asks SQLite for the average and other aggregates of a column, for the number of its
values and for the values themselves, and computes the variance. SQLite is a parameter: the calls
of a callback that a query leads to, and whether `sqlite3_exec` then returns `SQLITE_OK`. Numbers
are exact, and a text that SQLite gives to a callback is the number it stands for; for which numbers
`strtod` sets `errno` is a parameter as well. `malloc` succeeds.
-/

namespace CDevHws.Hw32

/-- The ways in which `main` does not get to its end. -/
inductive Fault where
  /-- `strtod` or `strtol` gets a null pointer. -/
  | nullPointer
  /-- An element behind the end of `array.values` is used. -/
  | outOfBounds
  /-- A variable or an element of `array.values` is used that has no value yet. -/
  | uninitialized
  /-- `exit(EXIT_FAILURE)`, after a query that failed. -/
  | failure
deriving DecidableEq

/-- `argv` of a callback: the values of a row, `none` for a null pointer. -/
abbrev Row := List (Option ℚ)

/-- The queries of `main`. -/
inductive Query where
  | avg
  | max
  | min
  | sum
  | count
  | select
deriving DecidableEq

/-- What a call of `sqlite3_exec` does: the rows for which it calls the callback, one after the
other, and whether it then returns `SQLITE_OK`. -/
structure Exec where
  rows : List Row
  ok : Bool
deriving DecidableEq

/-- The use of a variable. -/
def value : Option ℚ → Except Fault ℚ
  | some x => .ok x
  | none => .error .uninitialized

section

variable (rangeError : ℚ → Bool)

/-! ## The callbacks

A callback returns the new data, and whether its result is `EXIT_SUCCESS`. -/

/-- `strtod`: the number, and whether `errno` is set. -/
def strtod : Option ℚ → Except Fault (ℚ × Bool)
  | some x => .ok (x, rangeError x)
  | none => .error .nullPointer

/-- `strtol` with base 10, for the text of an integer: the `long`, and whether `errno` is set. -/
def strtol : Option ℚ → Except Fault (ℤ × Bool)
  | some x =>
    if x.num < -2 ^ 63 then .ok (-2 ^ 63, true)
    else if 2 ^ 63 ≤ x.num then .ok (2 ^ 63 - 1, true)
    else .ok (x.num, false)
  | none => .error .nullPointer

/-- `get_double`. -/
def getDouble (_ : Option ℚ) (argv : Row) : Except Fault (Option ℚ × Bool) := do
  let (data, errno) ← strtod rangeError (argv.headD none)
  return (some data, !errno)

/-- `get_long`. -/
def getLong (_ : Option ℤ) (argv : Row) : Except Fault (Option ℤ × Bool) := do
  let (data, errno) ← strtol (argv.headD none)
  return (some data, !errno)

/-- `array_t`; an element is `none` before it is written. -/
structure ArrayT where
  n : UInt32
  values : List (Option ℚ)

/-- The loop of `get_disp`, over `argc` columns of which it always takes the first one: the value of
`val` at its end, and whether the end is reached. -/
def getVal (argv : Row) : ℕ → Option ℚ → Except Fault (Option ℚ × Bool)
  | 0, val => .ok (val, true)
  | argc + 1, _ => do
    let (val, errno) ← strtod rangeError (argv.headD none)
    if errno then return (some val, false)
    getVal argv argc (some val)

/-- `get_disp`. -/
def getDisp (array : ArrayT) (argv : Row) : Except Fault (ArrayT × Bool) := do
  let (val, success) ← getVal rangeError argv argv.length none
  if !success then return (array, false)
  let val ← value val
  if array.n.toNat < array.values.length then
    return (⟨array.n + 1, array.values.set array.n.toNat (some val)⟩, true)
  else throw .outOfBounds

/-! ## `main` -/

/-- The calls of a callback, which fill `data`, and the check of `res` behind them. -/
def exec {σ : Type} (callback : σ → Row → Except Fault (σ × Bool)) (data : σ) (call : Exec) :
    Except Fault σ := do
  let data ← call.rows.foldlM (fun data argv => Prod.fst <$> callback data argv) data
  if call.ok then return data else throw .failure

/-- The statistics that `main` prints. -/
structure Stats where
  avg : ℚ
  min : ℚ
  max : ℚ
  sum : ℚ
  disp : ℚ

/-- The memory for `colsize` doubles: the size in bytes is a `size_t`. -/
def mallocValues (colsize : ℤ) : List (Option ℚ) :=
  List.replicate ((colsize * 8 % 2 ^ 64).toNat / 8) none

/-- The body of the loop that adds up the squares. -/
def addSquare (values : List (Option ℚ)) (avg disp : ℚ) (i : ℕ) : Except Fault ℚ := do
  match values[i]? with
  | some element =>
    let x ← value element
    return disp + (x - avg) * (x - avg)
  | none => throw .outOfBounds

/-- `main`, for an open database. -/
def dbstat (sqlite : Query → Exec) : Except Fault Stats := do
  let avg ← exec (getDouble rangeError) none (sqlite .avg)
  let max ← exec (getDouble rangeError) none (sqlite .max)
  let min ← exec (getDouble rangeError) none (sqlite .min)
  let sum ← exec (getDouble rangeError) none (sqlite .sum)
  match ← exec getLong none (sqlite .count) with
  | none => throw .uninitialized
  | some colsize =>
    let array ← exec (getDisp rangeError) ⟨0, mallocValues colsize⟩ (sqlite .select)
    let avg ← value avg
    let disp ← (List.range colsize.toNat).foldlM (addSquare array.values avg) 0
    return ⟨avg, ← value min, ← value max, ← value sum, disp / colsize⟩

end

/-! ## SQLite -/

/-- The values of a column without NULL. -/
def numbers (column : List (Option ℚ)) : List ℚ := column.filterMap id

/-- What SQLite does for a column, for the queries that succeed: `avg` and `count` leave out NULL,
the aggregates of a column with a number are numbers, and all rows are selected, with a null pointer
for NULL. A callback for which `strtod` sets `errno` does not return 0, so its query fails. -/
structure Answers (rangeError : ℚ → Bool) (sqlite : Query → Exec) (column : List (Option ℚ)) :
    Prop where
  avg : (sqlite .avg).ok → numbers column ≠ [] →
    (sqlite .avg).rows = [[some ((numbers column).sum / (numbers column).length)]]
  max : (sqlite .max).ok → numbers column ≠ [] → ∃ x, (sqlite .max).rows = [[some x]]
  min : (sqlite .min).ok → numbers column ≠ [] → ∃ x, (sqlite .min).rows = [[some x]]
  sum : (sqlite .sum).ok → numbers column ≠ [] → ∃ x, (sqlite .sum).rows = [[some x]]
  count : (sqlite .count).ok → (numbers column).length < 2 ^ 63 ∧
    (sqlite .count).rows = [[some ((numbers column).length : ℚ)]]
  select : (sqlite .select).ok → (sqlite .select).rows = column.map fun x => [x]
  errno : ∀ query, query ≠ .count → (sqlite query).ok →
    ∀ x, [some x] ∈ (sqlite query).rows → rangeError x = false

end CDevHws.Hw32
