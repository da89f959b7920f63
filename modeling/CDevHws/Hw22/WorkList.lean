import Mathlib.Logic.Function.Basic
import Mathlib.Algebra.Group.Nat.Defs

/-!
# The distribution of the log files (`aparser.c`)

`main` allocates the array `threads_info` and puts each log file at the head of the list of one of
the threads. The lists are linked: a pointer is a number, 0 is `NULL` and `p + 1` is the address of
the `p`-th node in the memory. The array has what `malloc` has found there.
-/

namespace CDevHws.Hw22

/-- The nodes of linked lists with the pointers to the next ones, and the fields `logfiles` of the
array `threads_info`. -/
structure WorkLists (File : Type) where
  nodes : List (File × ℕ)
  logfiles : ℕ → ℕ

variable {File : Type}

/-- The node at a pointer. -/
def nodeAt (nodes : List (File × ℕ)) : ℕ → Option (File × ℕ)
  | 0 => none
  | p + 1 => nodes[p]?

/-- `g_slist_prepend`, with a new node. -/
def gSlistPrepend (nodes : List (File × ℕ)) (list : ℕ) (data : File) : List (File × ℕ) × ℕ :=
  (nodes ++ [(data, list)], nodes.length + 1)

/-- `threads_info[t].logfiles = g_slist_prepend(threads_info[t].logfiles, data)`. -/
def WorkLists.prepend (w : WorkLists File) (t : ℕ) (data : File) : WorkLists File :=
  let (nodes, head) := gSlistPrepend w.nodes (w.logfiles t) data
  ⟨nodes, Function.update w.logfiles t head⟩

/-- The distribution loop of `main`, from the counter `i` on. The counter is an `int`; if it
overflows, the behaviour is undefined. -/
def distribute (threadsNum : ℕ) : ℕ → List File → WorkLists File → Option (WorkLists File)
  | _, [], w => some w
  | i, file :: files, w =>
    if i + 1 < 2 ^ 31 then
      distribute threadsNum (i + 1) files (w.prepend ((i + 1) % threadsNum) file)
    else none

end CDevHws.Hw22
