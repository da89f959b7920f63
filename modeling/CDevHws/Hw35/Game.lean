import CDevHws.Hw35.Tetris

/-!
# The whole game and its picture (`tetris.c`)

A run of the game with all the blocks that it puts, and what `sprites_draw` draws.
-/

namespace CDevHws.Hw35

/-- The states that some run of the game reaches, with the states in which `put_block` has been
called. -/
inductive Played : State → List State → Prop where
  | start {random : ℕ} {s : State} (hstart : start random = .ok s) : Played s []
  | frame {fuel : ℕ} {frame : Frame} {s s' : State} {puts puts' : List State}
      (h : Played s puts) (hplay : s.stillPlaying = true)
      (hupdate : spritesUpdate fuel frame s = .ok (s', puts')) :
      Played { s' with frames := s'.frames + 1 } (puts ++ puts')

/-- Frames of a game one after the other, as long as it goes on: the state and the states in which
`put_block` has been called. -/
def play (fuel : ℕ) : List Frame → State × List State → Except Fault (State × List State)
  | [], game => .ok game
  | frame :: frames, (s, puts) =>
    if s.stillPlaying then do
      let (s', puts') ← spritesUpdate fuel frame s
      play fuel frames ({ s' with frames := s'.frames + 1 }, puts ++ puts')
    else .ok (s, puts)

/-! ## `sprites_draw` -/

/-- `START_X`. -/
abbrev startX : ℤ := 10

/-- `START_Y`. -/
abbrev startY : ℤ := 5

/-- `PIX`. -/
abbrev pix : ℤ := 8

/-- `PIXMAP_W`. -/
abbrev pixmapW : ℕ := 10

/-- `PIXMAP_H`. -/
abbrev pixmapH : ℕ := 21

/-- A sprite that is drawn. -/
structure Drawn where
  /-- The indices in `sprites`. -/
  sprite : ℕ × ℕ
  /-- The position on the screen. -/
  position : ℤ × ℤ

/-- The sprite of a cell with the value `v`, at the column `x` and the row `y`. -/
def drawCell (v : ℕ) (x y : ℤ) : Drawn :=
  ⟨((v - 1) % pixmapW, (v - 1) / pixmapW), ((startX + x) * pix, (startY + y) * pix)⟩

/-- The loops over the map. -/
def drawMap (m : Map) : List Drawn :=
  (List.finRange 10).flatMap fun i => (List.finRange 20).flatMap fun j =>
    if m i j ≠ 0 then [drawCell (m i j) i j] else []

/-- The loops over the block. -/
def drawBlock (s : State) : List Drawn :=
  cells.flatMap fun (i, j) =>
    if s.block i j ≠ 0 then [drawCell (s.block i j) (i + s.blockX) (j + s.blockY)] else []

/-- `sprites_draw`, without the border and the score. -/
def spritesDraw (s : State) : List Drawn := drawMap s.map ++ drawBlock s

end CDevHws.Hw35
