import CDevHws.Hw22.Aparser

/-!
# The top ten (`aparser.c`)

`get_top_urls` and `get_top_referers` go through a table and keep the entries with the largest
counts in an array. The two have the same body but for a text that only the first one prints.
-/

namespace CDevHws.Hw22

open CString (strncpy)

section getTop

/-! The fields of a row of the array, and the row with these fields. -/

variable {Row : Type} (count : Row → UInt64) (url : Row → List UInt8)
  (row : UInt64 → List UInt8 → Row)

/-- A row of an array of zeros. -/
def blankRow : Row := row 0 []

/-- The row at an index of the array. -/
def rowAt (top : List Row) (i : ℕ) : Row := top.getD i (blankRow row)

/-- What `strncpy` and an assignment make of a row that is copied. -/
def copyRow (r : Row) : Row := row (count r) (strncpy (url r) (strlenmax - 1))

/-- The inner loop, which shifts rows down from the index `i` on: the index at its end, and the
array. -/
def shiftRows (val : UInt64) : ℕ → List Row → ℕ × List Row
  | 0, top => (0, top)
  | i + 1, top =>
    if val > count (rowAt row top (i + 1)) then
      shiftRows val i (top.set (i + 1) (copyRow count url row (rowAt row top i)))
    else (i + 1, top)

/-- One entry of the table: the array, and what has been printed. `warning` is printed if the index
after `i` is outside the array. -/
def putEntry (warning : List String) (arraySize : ℕ) (state : List Row × List String)
    (entry : Σ _ : List UInt8, UInt64) : List Row × List String :=
  let (top, printed) := state
  let (key, val) := (entry.1, entry.2)
  if val < count (rowAt row top (arraySize - 1)) then (top, printed)
  else
    let (i, top) := shiftRows count url row val (arraySize - 1) top
    let new := row val (strncpy key (strlenmax - 1))
    if val ≥ count (rowAt row top i) then (top.set i new, printed)
    else
      let printed := if i + 1 = arraySize then printed ++ warning else printed
      (top.set (i + 1) new, printed)

/-- The body that `get_top_urls` and `get_top_referers` share. `iter` is the order in which
`g_hash_table_iter_next` delivers the entries. -/
def getTop (warning : List String) (iter : List (Σ _ : List UInt8, UInt64)) (arraySize : ℕ)
    (top : List Row) : List Row × List String :=
  iter.foldl (putEntry count url row warning arraySize) (top, [])

end getTop

/-- `get_top_urls`. -/
def getTopUrls (iter : List (Σ _ : List UInt8, UInt64)) (arraySize : ℕ)
    (topUrls : List UrlStats) : List UrlStats × List String :=
  getTop UrlStats.urlBytesCount UrlStats.url UrlStats.mk ["Q!\n"] iter arraySize topUrls

/-- `get_top_referers`. -/
def getTopReferers (iter : List (Σ _ : List UInt8, UInt64)) (arraySize : ℕ)
    (topReferers : List RefererStats) : List RefererStats × List String :=
  getTop RefererStats.refererCount RefererStats.url RefererStats.mk [] iter arraySize topReferers

end CDevHws.Hw22
