import CDevHws.Hw35.Tetris

/-!
# The keyboard of the game (`tetris.c`)

The loop of `main` takes one event after the other. The events of the keyboard are kept in the flags
of the keys, and `sprites_update` looks at the flags. The codes of the keys are those of Allegro, a
type of any kind here.
-/

namespace CDevHws.Hw35

/-- The codes of the keys that the game asks for. -/
structure KeyCodes (Key : Type) where
  left : Key
  right : Key
  up : Key
  space : Key
  down : Key
  escape : Key

/-- `KEY_SEEN`. -/
def keySeen : UInt8 := 1

/-- `KEY_RELEASED`. -/
def keyReleased : UInt8 := 2

/-- The events of the queue. -/
inductive Event (Key : Type) where
  | timer
  | displayClose
  | keyDown (keycode : Key)
  | keyUp (keycode : Key)
  /-- An event that the loop does not look at. -/
  | other
deriving DecidableEq

variable {Key : Type}

/-- `keyboard_init`. -/
def keyboardInit : Key → UInt8 := fun _ => 0

/-- `keyboard_update`, on the array `key`. -/
def keyboardUpdate [DecidableEq Key] (event : Event Key) (key : Key → UInt8) : Key → UInt8 :=
  match event with
  | .timer => fun i => key i &&& keySeen
  | .keyDown keycode => Function.update key keycode (keySeen ||| keyReleased)
  | .keyUp keycode => Function.update key keycode (key keycode &&& keyReleased)
  | .displayClose => key
  | .other => key

/-- What `sprites_update` gets from the flags. -/
def frameOf (codes : KeyCodes Key) (key : Key → UInt8) (random random' : ℕ) : Frame where
  left := key codes.left != 0
  right := key codes.right != 0
  up := key codes.up != 0
  space := key codes.space != 0
  down := key codes.down != 0
  random := random
  random' := random'

/-- The state of `main` between two events. -/
structure Loop (Key : Type) where
  game : State
  key : Key → UInt8
  done : Bool

/-- The state when the loop begins. -/
def Loop.start (game : State) : Loop Key := ⟨game, keyboardInit, false⟩

/-- An event, with the counter and the flags that it finds. -/
structure Label (Key : Type) where
  event : Event Key
  frames : ℕ
  key : Key → UInt8

/-- After an event of the timer for which `sprites_update` has left `game`. -/
def Loop.afterTimer [DecidableEq Key] (codes : KeyCodes Key) (s : Loop Key) (game : State) :
    Loop Key :=
  let game := { game with frames := game.frames + 1 }
  if s.key codes.escape ≠ 0 then ⟨game, s.key, true⟩
  else ⟨game, keyboardUpdate .timer s.key, false⟩

/-- One round of the loop of `main`. -/
inductive LoopStep [DecidableEq Key] (codes : KeyCodes Key) :
    Loop Key → Label Key → Loop Key → Prop where
  | timer {fuel random random' : ℕ} {s : Loop Key} {game : State} {puts : List State}
      (hplay : s.game.stillPlaying = true) (hdone : s.done = false)
      (hupdate : spritesUpdate fuel (frameOf codes s.key random random') s.game =
        .ok (game, puts)) :
      LoopStep codes s ⟨.timer, s.game.frames, s.key⟩ (s.afterTimer codes game)
  | displayClose {s : Loop Key} (hplay : s.game.stillPlaying = true) (hdone : s.done = false) :
      LoopStep codes s ⟨.displayClose, s.game.frames, s.key⟩ { s with done := true }
  /-- Other events are for `keyboard_update` only. -/
  | update {s : Loop Key} {event : Event Key} (hplay : s.game.stillPlaying = true)
      (hdone : s.done = false) (htimer : event ≠ .timer) (hclose : event ≠ .displayClose) :
      LoopStep codes s ⟨event, s.game.frames, s.key⟩
        { s with key := keyboardUpdate event s.key }

end CDevHws.Hw35
