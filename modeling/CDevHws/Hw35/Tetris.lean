import CDevHws.Lib.Transition

/-!
# The game Tetris (`tetris.c`)

The state of the game and one call of `sprites_update`, which handles the keys and lets the block
fall. Sprites, sounds and texts are not modelled. The arrays are functions on their indices; an
access outside of the array is an error, and so is a loop that has not ended when its fuel is used
up.
-/

namespace CDevHws.Hw35

/-- `BOX_W`. -/
abbrev boxW : ℤ := 10

/-- `BOX_H`. -/
abbrev boxH : ℤ := 20

/-- `map[10][20]`, by column and row; 0 is an empty cell. -/
abbrev Map := Fin 10 → Fin 20 → ℕ

/-- `block[4][4]`, by column and row. -/
abbrev Block := Fin 4 → Fin 4 → ℕ

/-- What can go wrong. -/
inductive Fault where
  /-- `block_fit` or `put_block` accesses `map` outside of its bounds. -/
  | outOfMap
  /-- The loop of the key SPACE has not ended. -/
  | drop
  /-- The loop of `delete_row` has not ended. -/
  | deleteRow
deriving DecidableEq

/-- `map[x][y]`. -/
def Map.read (m : Map) (x y : ℤ) : Except Fault ℕ :=
  if h : (0 ≤ x ∧ x < 10) ∧ 0 ≤ y ∧ y < 20 then
    .ok (m ⟨x.toNat, by omega⟩ ⟨y.toNat, by omega⟩)
  else .error .outOfMap

/-- `map[x][y] = v`. -/
def Map.write (m : Map) (x y : ℤ) (v : ℕ) : Except Fault Map :=
  if (0 ≤ x ∧ x < 10) ∧ 0 ≤ y ∧ y < 20 then
    .ok fun c r => if (c : ℤ) = x ∧ (r : ℤ) = y then v else m c r
  else .error .outOfMap

/-- The global variables that the functions below use. -/
structure State where
  map : Map
  block : Block
  blockX : ℤ
  blockY : ℤ
  xSize : ℕ
  ySize : ℕ
  currentBlock : ℕ
  stillPlaying : Bool
  frames : ℕ
  score : ℕ

/-- The state before the first block. -/
def State.init : State where
  map := fun _ _ => 0
  block := fun _ _ => 0
  blockX := 0
  blockY := 0
  xSize := 0
  ySize := 0
  currentBlock := 0
  stillPlaying := true
  frames := 0
  score := 0

/-- The cells of a block, in the order of the loops over `i` and `j`. -/
def cells : List (Fin 4 × Fin 4) :=
  (List.finRange 4).flatMap fun i => (List.finRange 4).map fun j => (i, j)

/-! ## The block -/

/-- The cells that `made_block` sets for a kind, with their values. -/
def shape : ℕ → List (Fin 4 × Fin 4 × ℕ)
  | 1 | 21 => [(1, 0, 14), (2, 0, 15), (0, 1, 23), (1, 1, 24)]
  | 11 | 31 => [(0, 0, 1), (0, 1, 11), (1, 1, 12), (1, 2, 22)]
  | 2 | 12 | 22 | 32 => [(0, 0, 31), (1, 0, 32), (0, 1, 41), (1, 1, 42)]
  | 3 => [(0, 0, 68), (1, 0, 69), (2, 0, 70), (1, 1, 79)]
  | 13 => [(1, 0, 52), (0, 1, 61), (1, 1, 62), (1, 2, 72)]
  | 23 => [(1, 0, 64), (0, 1, 73), (1, 1, 74), (2, 1, 75)]
  | 33 => [(0, 0, 56), (0, 1, 66), (1, 1, 67), (0, 2, 76)]
  | 4 | 24 => [(0, 0, 93), (1, 0, 94), (1, 1, 104), (2, 1, 105)]
  | 14 | 34 => [(1, 0, 82), (0, 1, 91), (1, 1, 92), (0, 2, 101)]
  | 5 => [(0, 0, 128), (1, 0, 129), (2, 0, 130), (0, 1, 138)]
  | 15 => [(0, 0, 111), (1, 0, 112), (1, 1, 122), (1, 2, 132)]
  | 25 => [(2, 0, 125), (0, 1, 133), (1, 1, 134), (2, 1, 135)]
  | 35 => [(0, 0, 116), (0, 1, 126), (0, 2, 136), (1, 2, 137)]
  | 6 => [(0, 0, 153), (1, 0, 154), (2, 0, 155), (2, 1, 165)]
  | 16 => [(1, 0, 147), (1, 1, 157), (0, 2, 166), (1, 2, 167)]
  | 26 => [(0, 0, 158), (0, 1, 168), (1, 1, 169), (2, 1, 170)]
  | 36 => [(0, 0, 141), (1, 0, 142), (0, 1, 151), (0, 2, 161)]
  | 7 | 27 => [(0, 0, 202), (1, 0, 203), (2, 0, 204), (3, 0, 205)]
  | 17 | 37 => [(1, 0, 171), (1, 1, 181), (1, 2, 191), (1, 3, 201)]
  | _ => []

/-- The block of a kind. -/
def blockOf (kind : ℕ) : Block :=
  (shape kind).foldl (fun b (i, j, v) i' j' => if i' = i ∧ j' = j then v else b i' j')
    fun _ _ => 0

/-- `x_size` and `y_size` of a kind; other kinds leave the old ones. -/
def sizes (kind : ℕ) (old : ℕ × ℕ) : ℕ × ℕ :=
  if kind = 7 ∨ kind = 27 then (4, 1)
  else if kind = 17 ∨ kind = 37 then (1, 4)
  else if kind % 10 = 2 then (2, 2)
  else if kind / 10 = 0 ∨ kind / 10 = 2 then (3, 2)
  else if kind / 10 = 1 ∨ kind / 10 = 3 then (2, 3)
  else old

/-- `made_block`. -/
def madeBlock (kind : ℕ) (s : State) : State :=
  { s with
    block := blockOf kind
    xSize := (sizes kind (s.xSize, s.ySize)).1
    ySize := (sizes kind (s.xSize, s.ySize)).2
    currentBlock := kind }

/-- The loops of `block_fit`, from some cell on. -/
def fitFrom (s : State) : List (Fin 4 × Fin 4) → Except Fault Bool
  | [] => .ok true
  | (i, j) :: rest =>
    if s.block i j ≠ 0 then
      if s.blockX + i > boxW - 1 then .ok false
      else if s.blockX + i < 0 then .ok false
      else if s.blockY + j > boxH - 1 then .ok false
      else do
        let v ← s.map.read (s.blockX + i) (s.blockY + j)
        if v ≠ 0 then .ok false else fitFrom s rest
    else fitFrom s rest

/-- `block_fit`. -/
def blockFit (s : State) : Except Fault Bool := fitFrom s cells

/-- `new_block`, if `random` returns `random`. -/
def newBlock (random : ℕ) (s : State) : Except Fault State := do
  let s := { madeBlock (random % 7 + 1) s with blockX := 3, blockY := 0 }
  if ← blockFit s then return s else return { s with stillPlaying := false }

/-- `rotate_block`. -/
def rotateBlock (s : State) : Except Fault State := do
  let oldBlock := s.currentBlock
  let next := if oldBlock + 10 > 40 then oldBlock + 10 - 40 else oldBlock + 10
  let s := madeBlock next s
  if ← blockFit s then return s else return madeBlock oldBlock s

/-! ## The map -/

/-- `sum == 10` for a row. The index 20, which is outside of the map, counts as a row that is not
full. -/
def rowFull (m : Map) (i : ℤ) : Bool :=
  if h : 0 ≤ i ∧ i < 20 then
    ((List.finRange 10).filter fun j => m j ⟨i.toNat, by omega⟩ ≠ 0).length == 10
  else false

/-- The loop over `k` that copies the row `j` to the row `j + 1`. -/
def copyRow (j : ℕ) (m : Map) : Map := fun k r =>
  if h : (r : ℕ) = j + 1 then m k ⟨j, by omega⟩ else m k r

/-- The loop over `j`, from the row `j` up to the row 1. -/
def shiftRows : ℕ → Map → Map
  | 0, m => m
  | j + 1, m => shiftRows j (copyRow j m)

/-- The loop of `delete_row` over `i`: the map and the score when it has ended. -/
def deleteFrom : ℕ → Map → ℕ → ℤ → Except Fault (Map × ℕ)
  | 0, _, _, _ => .error .deleteRow
  | fuel + 1, m, score, i =>
    if i ≥ 0 then
      if rowFull m i then deleteFrom fuel (shiftRows i.toNat m) (score + 100) (i + 2 - 1)
      else deleteFrom fuel m score (i - 1)
    else .ok (m, score)

/-- `delete_row`. -/
def deleteRow (fuel : ℕ) (s : State) : Except Fault State := do
  let (map, score) ← deleteFrom fuel s.map s.score 19
  return { s with map := map, score := score }

/-- The cells that the loop over `j` and `k` reads and writes, from the row `j` up to the row 1. -/
def shiftAccesses : ℕ → List (ℤ × ℤ)
  | 0 => []
  | j + 1 =>
    ((List.finRange 10).flatMap fun k : Fin 10 => [((k : ℤ), (j : ℤ)), ((k : ℤ), (j : ℤ) + 1)]) ++
      shiftAccesses j

/-- The accesses `map[x][y]` of the loop of `delete_row` over `i`, as far as the fuel goes. -/
def deleteAccesses : ℕ → Map → ℤ → List (ℤ × ℤ)
  | 0, _, _ => []
  | fuel + 1, m, i =>
    if i ≥ 0 then
      ((List.finRange 10).map fun j : Fin 10 => ((j : ℤ), i)) ++
        if rowFull m i then
          shiftAccesses i.toNat ++ deleteAccesses fuel (shiftRows i.toNat m) (i + 2 - 1)
        else deleteAccesses fuel m (i - 1)
    else []

/-- The loops of `put_block`. -/
def writeBlock (s : State) : Except Fault Map :=
  cells.foldlM (fun m (i, j) =>
    if s.block i j ≠ 0 then m.write (s.blockX + i) (s.blockY + j) (s.block i j) else .ok m) s.map

/-- `put_block`. -/
def putBlock (fuel : ℕ) (s : State) : Except Fault State := do
  let map ← writeBlock s
  deleteRow fuel { s with map := map }

/-! ## A frame -/

/-- What a frame gets from outside. -/
structure Frame where
  /-- Whether the flags of the keys are not 0. -/
  left : Bool
  right : Bool
  up : Bool
  space : Bool
  down : Bool
  /-- What `random` returns for the block after the one that gravity has put. -/
  random : ℕ
  /-- What `random` returns for the block after the one that does not fit at the end. -/
  random' : ℕ

/-- The branches of LEFT and RIGHT, with -1 and 1. -/
def moveBy (dx : ℤ) (s : State) : Except Fault State := do
  let s := { s with blockX := s.blockX + dx }
  if ← blockFit s then return s else return { s with blockX := s.blockX - dx }

/-- The loop of the branch of SPACE. -/
def dropLoop : ℕ → State → Except Fault State
  | 0, _ => .error .drop
  | fuel + 1, s => do
    if ← blockFit s then dropLoop fuel { s with blockY := s.blockY + 1 } else return s

/-- The branch of SPACE. -/
def hardDrop (fuel : ℕ) (s : State) : Except Fault State := do
  let s ← dropLoop fuel s
  return { s with blockY := s.blockY - 1 }

/-- The branch of DOWN. -/
def softDrop (s : State) : Except Fault State := do
  let s := if ← blockFit s then { s with blockY := s.blockY + 1 } else s
  if ← blockFit s then return s else return { s with blockY := s.blockY - 1 }

/-- A branch that is taken if a key is pressed. -/
def ifKey (pressed : Bool) (branch : State → Except Fault State) (s : State) :
    Except Fault State :=
  if pressed then branch s else .ok s

/-- The part of `sprites_update` that handles the keys. -/
def handleKeys (fuel : ℕ) (frame : Frame) (s : State) : Except Fault State := do
  let s ← ifKey frame.left (moveBy (-1)) s
  let s ← ifKey frame.right (moveBy 1) s
  let s ← ifKey frame.up rotateBlock s
  let s ← ifKey frame.space (hardDrop fuel) s
  ifKey frame.down softDrop s

/-- `put_block` and `new_block`, and the state in which `put_block` is called. -/
def putAndNew (fuel random : ℕ) (s : State) : Except Fault (State × List State) := do
  let s' ← putBlock fuel s
  let s' ← newBlock random s'
  return (s', [s])

/-- The part of `sprites_update` in which the block falls. -/
def gravity (fuel random : ℕ) (s : State) : Except Fault (State × List State) := do
  let s := { s with blockY := s.blockY + 1 }
  if ← blockFit s then return (s, [])
  else putAndNew fuel random { s with blockY := s.blockY - 1 }

/-- The last part of `sprites_update`. -/
def settle (fuel random : ℕ) (s : State) : Except Fault (State × List State) := do
  if ← blockFit s then return (s, []) else putAndNew fuel random s

/-- `sprites_update`: the state afterwards, and the states in which `put_block` is called. -/
def spritesUpdate (fuel : ℕ) (frame : Frame) (s : State) : Except Fault (State × List State) := do
  let s ← (if s.frames % 6 = 0 then handleKeys fuel frame s else .ok s)
  let (s, puts) ← (if s.frames % 20 = 0 then gravity fuel frame.random s else .ok (s, []))
  let (s, puts') ← settle fuel frame.random' s
  return (s, puts ++ puts')

/-! ## The game -/

/-- The state when the loop of `main` begins. -/
def start (random : ℕ) : Except Fault State := newBlock random .init

/-- An event of the timer in the loop of `main`. -/
inductive Step : State → Frame → State → Prop where
  | timer {fuel : ℕ} {frame : Frame} {s s' : State} {puts : List State}
      (hplay : s.stillPlaying = true) (hupdate : spritesUpdate fuel frame s = .ok (s', puts)) :
      Step s frame { s' with frames := s'.frames + 1 }

/-- The states that some run of the game reaches. -/
def Reachable (s : State) : Prop :=
  ∃ random s₀ tr, start random = .ok s₀ ∧ Transition.Run Step s₀ tr s

end CDevHws.Hw35
