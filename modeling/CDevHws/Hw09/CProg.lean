import CDevHws.Lib.Stdout
import Mathlib.Algebra.Group.Nat.Defs
import Mathlib.Logic.Function.Basic

/-!
# The program with a linked list (`c-prog.c`)

The heap is the list of the blocks that `malloc` has returned. `malloc` always succeeds, and the
depth of recursion is not limited by the stack. An access through a pointer that is null, or to a
block that has been freed or not been written to, is a fault: it ends the process by a signal.
-/

namespace CDevHws.Hw09

/-- The array `data`: it is not empty, and its bytes have addresses of 64 bits. -/
structure Data where
  elements : List (BitVec 64)
  nonempty : elements ≠ []
  length_lt : elements.length < 2 ^ 61

/-- `int_format`. -/
def intFormat : List Char := ['%', 'l', 'd', ' ']

/-- `empty_str`. -/
def emptyStr : List Char := []

/-- A pointer to a node. -/
abbrev Pointer := Option ℕ

/-- A block of the heap. -/
inductive Block where
  | uninitialised
  | node (val : BitVec 64) (next : Pointer)
  | freed
deriving DecidableEq

/-- What the functions work on. -/
structure World where
  heap : List Block
  /-- The pointer variables whose address is taken. -/
  locals : ℕ → Pointer
  stdout : Stdout.Stream

/-- Why a function does not return. -/
inductive Stop where
  | abort
  | fault
  /-- The recursion was deeper than allowed for in the model. -/
  | outOfFuel
deriving DecidableEq

/-- Functions of the program. -/
abbrev C := EStateM Stop World

/-- The fields `val` and `next` of `*p`. -/
def load (p : Pointer) : C (BitVec 64 × Pointer) := fun w =>
  match p.bind fun i => w.heap[i]? with
  | some (.node val next) => .ok (val, next) w
  | _ => .error .fault w

/-- Sets the fields `val` and `next` of `*p`. -/
def store (p : Pointer) (val : BitVec 64) (next : Pointer) : C Unit := fun w =>
  match p, p.bind fun i => w.heap[i]? with
  | some i, some .uninitialised | some i, some (.node ..) =>
    .ok () { w with heap := w.heap.set i (.node val next) }
  | _, _ => .error .fault w

/-- `malloc(sizeof(node_t))`. -/
def malloc : C Pointer := fun w =>
  .ok (some w.heap.length) { w with heap := w.heap ++ [.uninitialised] }

/-- `free`. -/
def free (p : Pointer) : C Unit := fun w =>
  match p, p.bind fun i => w.heap[i]? with
  | none, _ => .ok () w
  | some i, some .uninitialised | some i, some (.node ..) =>
    .ok () { w with heap := w.heap.set i .freed }
  | _, _ => .error .fault w

/-- The standard output is changed. -/
def output (f : Stdout.Stream → Stdout.Stream) : C Unit := fun w =>
  .ok () { w with stdout := f w.stdout }

/-- The value of the variable at an address. -/
def readVariable (address : ℕ) : C Pointer := fun w => .ok (w.locals address) w

/-- Sets the variable at an address. -/
def writeVariable (address : ℕ) (value : Pointer) : C Unit := fun w =>
  .ok () { w with locals := Function.update w.locals address value }

def printInt (number : BitVec 64) : C Unit := do
  output (.printf intFormat number)
  output .flush

def p (number : BitVec 64) : C (BitVec 64) := pure (number &&& 1)

def addElement (val : BitVec 64) (head : Pointer) : C Pointer := do
  let newNode ← malloc
  if newNode = none then throw .abort
  else do
    store newNode val head
    pure newNode

/-- `m`, with at most `fuel` nested calls. -/
def m : ℕ → Pointer → (BitVec 64 → C Unit) → C Unit
  | 0, _, _ => throw .outOfFuel
  | fuel + 1, list, function => do
    if list = none then pure ()
    else do
      let (val, _) ← load list
      function val
      let (_, next) ← load list
      m fuel next function

/-- `f`, with at most `fuel` nested calls; `result` is the address of a variable. -/
def f : ℕ → Pointer → ℕ → (BitVec 64 → C (BitVec 64)) → C Unit
  | 0, _, _, _ => throw .outOfFuel
  | fuel + 1, list, result, function => do
    if list = none then pure ()
    else do
      let (val, _) ← load list
      if (← function val) ≠ 0 then do
        let (val, _) ← load list
        let head ← addElement val (← readVariable result)
        writeVariable result head
      let (_, next) ← load list
      f fuel next result function

/-- `free_list`, with at most `fuel` rounds of its loop. -/
def freeList : ℕ → Pointer → C Unit
  | 0, _ => throw .outOfFuel
  | fuel + 1, list => do
    let (_, next) ← load list
    if next = none then pure ()
    else do
      free list
      freeList fuel next

/-- An access to the memory. -/
inductive Access where
  /-- A field of `*p` is read. -/
  | deref (p : Pointer)
  /-- `free(p)`. -/
  | free (p : Pointer)
deriving DecidableEq

/-- What an access does. -/
def Access.perform : Access → C Unit
  | .deref p => do
    let _ ← load p
  | .free p => Hw09.free p

/-- The accesses of `freeList`, one after the other. A round reads `list->next` twice. -/
def freeListAccesses : ℕ → Pointer → World → List Access
  | 0, _, _ => []
  | fuel + 1, list, w =>
    match (load list).run w with
    | .ok (_, some next) w =>
      match (free list).run w with
      | .ok () w =>
        .deref list :: .deref list :: .free list :: freeListAccesses fuel (some next) w
      | .error .. => [.deref list, .deref list, .free list]
    | _ => [.deref list]

/-- The loop of `main` that adds the elements, from the counter `i` on. -/
def addAll (data : List (BitVec 64)) : ℕ → Pointer → C Pointer
  | 0, numbersList => pure numbersList
  | i + 1, numbersList =>
    match data[i]? with
    | none => throw .fault
    | some val => do
      let numbersList ← addElement val numbersList
      addAll data i numbersList

/-- The address of `list2`. -/
def list2 : ℕ := 0

def main (fuel : ℕ) (data : Data) : C Unit := do
  writeVariable list2 none
  let numbersList ← addAll data.elements data.elements.length none
  m fuel numbersList printInt
  output (.puts emptyStr)
  f fuel numbersList list2 p
  m fuel (← readVariable list2) printInt
  output (.puts emptyStr)
  freeList fuel numbersList
  freeList fuel (← readVariable list2)

/-- What the process has printed at its end, unless the fuel is too small. -/
def process (fuel : ℕ) (data : Data) (buffering : Stdout.Buffering) : Option (List Char) :=
  match (main fuel data).run ⟨[], fun _ => none, .start buffering⟩ with
  | .ok _ w => some w.stdout.exit
  | .error .abort w | .error .fault w => some w.stdout.killed
  | .error .outOfFuel _ => none

end CDevHws.Hw09
