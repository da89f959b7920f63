import CDevHws.Lib.Stdio
import Mathlib.Algebra.Group.Nat.Defs

/-!
# The textures of the cube (`cube.c`)

`texture_load` reads the pixels of an image in the bmp format, and exchanges the blue and the red
component of each. The numbers of the source are `int`s; the memory can always be allocated.
-/

namespace CDevHws.Hw33

open Stdio

/-- The bytes at `texture_data`: `none` where nothing has been stored. -/
abbrev Texture := List (Option UInt8)

/-- The body of the loop that turns BGR into RGB. -/
def swapPixel (textureData : Texture) (i : ℕ) : Texture :=
  let index := i * 3
  let b := textureData.getD index none
  let g := textureData.getD (index + 1) none
  let r := textureData.getD (index + 2) none
  ((textureData.set index r).set (index + 1) g).set (index + 2) b

/-- `texture_load` for a file with this content, up to the end of the loop: what is at
`texture_data`, or `none` if `width * height * 3` overflows or the byte `offset` cannot be read. -/
def textureLoad (content : List UInt8) (width height : ℕ) : Option Texture :=
  let size := width * height * 3
  if 2 ^ 31 ≤ size then none
  else
    -- `offset` is a `uint8_t`: one byte is read.
    let (first, file) := fread 1 (fseekSet 10 (fopen content))
    match first with
    | offset :: _ =>
      let (data, _) := fread size (fseekSet offset.toNat file)
      let textureData := data.map some ++ List.replicate (size - data.length) none
      some ((List.range (width * height)).foldl swapPixel textureData)
    | [] => none

end CDevHws.Hw33
