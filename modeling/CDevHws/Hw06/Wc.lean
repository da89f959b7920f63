import CDevHws.Hw06.Hashtable
import CDevHws.Lib.CString

/-!
# Counting words (`wc.c`)

`main` cuts the bytes of the input file into words and hands them to the hash table as C strings.
-/

namespace CDevHws.Hw06

open CString (isspace)

/-- The C string in an array of `MAX_WORD_LENGTH` bytes that begins with `bytes` and a NUL. -/
def cString (bytes : List UInt8) : Word where
  bytes := CString.ofBytes (bytes.take (maxWordLength - 1))
  noNul := CString.ofBytes_no_nul _
  fits := by
    have hle := (List.takeWhile_sublist (· ≠ 0) (l := bytes.take (maxWordLength - 1))).length_le
    rw [List.length_take] at hle
    exact Nat.lt_of_le_of_lt hle (Nat.lt_of_le_of_lt (Nat.min_le_left _ _) (by decide))

/-- The end of a word: `add` is called with the array, if it has got a byte. -/
def endWord {S : Type} (add : S → Word → Option S) (word : List UInt8) (s : S) : Option S :=
  if word.length > 0 then add s (cString word) else some s

/-- The loop of `main`, with the bytes of the array `word` so far (their number is `i`) and the rest
of the file. `add` stands for `hashtable_add`. -/
def readLoop {S : Type} (add : S → Word → Option S) : List UInt8 → List UInt8 → S → Option S
  | word, [], s => endWord add word s
  | word, c :: rest, s =>
    if !isspace c && word.length < maxWordLength - 1 then readLoop add (word ++ [c]) rest s
    else do
      let s ← endWord add word s
      readLoop add [] rest s

/-- What a line of the output tells: `Word "%s" appears %d times.` -/
structure Line where
  word : List UInt8
  count : Int
deriving DecidableEq

/-- `hashtable_print`. The conversion `%d` takes the count as an `int`. -/
def hashtablePrint (t : Hashtable) : List Line :=
  (t.words.filter (·.count > 0)).map fun cell => ⟨cell.word.bytes, cell.count.toInt32.toInt⟩

/-- `main`, from the bytes of the file to the lines of the output. -/
def wc (fuel : ℕ) (input : List UInt8) : Option (List Line) := do
  let t ← readLoop (hashtableAdd fuel) [] input (hashtableNew hashtableSize)
  return hashtablePrint t

end CDevHws.Hw06
