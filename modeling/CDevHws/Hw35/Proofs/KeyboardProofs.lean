import CDevHws.Hw35.Keyboard
import CDevHws.Hw35.Proofs.TetrisProofs

/-!
# Proofs: which key presses the game sees

The two bits of a flag tell whether the key is held, and whether it has been pressed since the last
event of the timer. Every event of the timer clears the second bit, but `sprites_update` looks at
the flags only in every sixth of them.
-/

namespace CDevHws.Hw35

open Transition (Run Since)

variable {Key : Type} {k : Key}

/-- The key is held: it has been pressed, and not been released after that. -/
def Held (k : Key) (tr : List (Label Key)) : Prop :=
  Since (fun l => l.event = .keyDown k) (fun l => l.event = .keyUp k) tr

/-- The key has been pressed, and there has been no event of the timer after that. -/
def Fresh (k : Key) (tr : List (Label Key)) : Prop :=
  Since (fun l => l.event = .keyDown k) (fun l => l.event = .timer) tr

/-- After these events, the key is held, or it has been pressed since the last event of the
timer. -/
def Shows (k : Key) (tr : List (Label Key)) : Prop := Held k tr ∨ Fresh k tr

theorem shows_append_cons {l : Label Key} (hl : l.event = .keyDown k)
    (before tr : List (Label Key)) : Shows k (before ++ l :: tr) ↔ Shows k (l :: tr) := by
  refine or_congr ?_ ?_
  · refine Transition.since_append_cons ?_ before
    exact hl
  · refine Transition.since_append_cons ?_ before
    exact hl

/-- A call of `sprites_update` that looks at the keys. -/
def Label.Looks (l : Label Key) : Prop := l.event = .timer ∧ l.frames % 6 = 0

/-- In the trace, the key is pressed after `before`, and the next two calls of `sprites_update` that
look at the keys are `call₁` after `mid₁` and `call₂` after `mid₂`. -/
structure Pressed (k : Key) (tr before mid₁ mid₂ : List (Label Key))
    (press call₁ call₂ : Label Key) : Prop where
  split : ∃ after, tr = before ++ press :: (mid₁ ++ call₁ :: (mid₂ ++ call₂ :: after))
  press : press.event = .keyDown k
  first : call₁.Looks ∧ ∀ l ∈ mid₁, ¬ l.Looks
  second : call₂.Looks ∧ ∀ l ∈ mid₂, ¬ l.Looks

/-! ## The flags -/

/-- The bits of a flag. -/
def Flags (k : Key) (tr : List (Label Key)) (key : Key → UInt8) : Prop :=
  (Held k tr ∧ Fresh k tr ∧ key k = 3) ∨ (Held k tr ∧ ¬ Fresh k tr ∧ key k = 1) ∨
    (¬ Held k tr ∧ Fresh k tr ∧ key k = 2) ∨ (¬ Held k tr ∧ ¬ Fresh k tr ∧ key k = 0)

theorem Flags.ne_zero_iff {tr : List (Label Key)} {key : Key → UInt8} (h : Flags k tr key) :
    key k ≠ 0 ↔ Held k tr ∨ Fresh k tr := by
  rcases h with ⟨hheld, -, hkey⟩ | ⟨hheld, -, hkey⟩ | ⟨-, hfresh, hkey⟩ | ⟨hheld, hfresh, hkey⟩
  · exact ⟨fun _ => Or.inl hheld, fun _ => by rw [hkey]; decide⟩
  · exact ⟨fun _ => Or.inl hheld, fun _ => by rw [hkey]; decide⟩
  · exact ⟨fun _ => Or.inr hfresh, fun _ => by rw [hkey]; decide⟩
  · exact ⟨fun hne => absurd hkey hne, fun h => absurd h (not_or.mpr ⟨hheld, hfresh⟩)⟩

theorem flags_init (k : Key) : Flags k [] keyboardInit :=
  Or.inr (Or.inr (Or.inr ⟨Transition.not_since_nil, Transition.not_since_nil, rfl⟩))

theorem held_snoc {tr : List (Label Key)} {l : Label Key} :
    Held k (tr ++ [l]) ↔ l.event = .keyDown k ∨ l.event ≠ .keyUp k ∧ Held k tr :=
  Transition.since_snoc

theorem fresh_snoc {tr : List (Label Key)} {l : Label Key} :
    Fresh k (tr ++ [l]) ↔ l.event = .keyDown k ∨ l.event ≠ .timer ∧ Fresh k tr :=
  Transition.since_snoc

/-! ## Frames without keys -/

theorem fitFrom_frames (s : State) (n : ℕ) (l : List (Fin 4 × Fin 4)) :
    fitFrom { s with frames := n } l = fitFrom s l := by
  induction l with
  | nil => rfl
  | cons cell rest ih =>
    unfold fitFrom
    rw [ih]

/-- Without keys and without gravity, nothing happens while the block fits. -/
theorem spritesUpdate_idle (codes : KeyCodes Key) {s : State} (hfit : blockFit s = .ok true)
    (hgravity : s.frames % 20 ≠ 0) {key : Key → UInt8}
    (hkeys : s.frames % 6 = 0 → key = keyboardInit) :
    spritesUpdate 0 (frameOf codes key 0 0) s = .ok (s, []) := by
  have hhandle : (if s.frames % 6 = 0 then handleKeys 0 (frameOf codes key 0 0) s else .ok s) =
      .ok s := by
    split
    · next hsix =>
      rw [hkeys hsix]
      rfl
    · rfl
  unfold spritesUpdate
  rw [hhandle]
  show ((if s.frames % 20 = 0 then gravity 0 0 s else .ok (s, [])) >>= fun p =>
    settle 0 0 p.1 >>= fun q => pure (q.1, p.2 ++ q.2)) = _
  rw [if_neg hgravity]
  show (settle 0 0 s >>= fun q => pure (q.1, [] ++ q.2)) = _
  unfold settle
  rw [hfit]
  rfl

variable [DecidableEq Key]

theorem keyboardUpdate_timer_init : keyboardUpdate .timer keyboardInit =
    (keyboardInit : Key → UInt8) :=
  funext fun _ => UInt8.zero_and

theorem afterTimer_idle (codes : KeyCodes Key) (s game : State) :
    Loop.afterTimer codes ⟨s, keyboardInit, false⟩ game =
      ⟨{ game with frames := game.frames + 1 }, keyboardInit, false⟩ := by
  unfold Loop.afterTimer
  rw [if_neg fun hescape => hescape rfl]
  exact congrArg (Loop.mk _ · false) keyboardUpdate_timer_init

/-! ## The loop -/

/-- `keyboard_update` keeps the bits right. -/
theorem flags_keyboardUpdate {tr : List (Label Key)} {l : Label Key} {key : Key → UInt8}
    (h : Flags k tr key) : Flags k (tr ++ [l]) (keyboardUpdate l.event key) := by
  unfold Flags at *
  rw [held_snoc, fresh_snoc]
  cases hevent : l.event with
  | timer =>
    have hkey : keyboardUpdate .timer key k = key k &&& keySeen := rfl
    rw [hkey]
    rcases h with ⟨h₁, h₂, h₃⟩ | ⟨h₁, h₂, h₃⟩ | ⟨h₁, h₂, h₃⟩ | ⟨h₁, h₂, h₃⟩ <;>
      simp [h₁, h₂, h₃, keySeen] <;> rfl
  | displayClose =>
    have hkey : keyboardUpdate .displayClose key k = key k := rfl
    rw [hkey]
    simpa using h
  | keyDown keycode =>
    by_cases hk : keycode = k
    · have hkey : keyboardUpdate (.keyDown k) key k = keySeen ||| keyReleased :=
        Function.update_self ..
      rw [hk, hkey]
      exact Or.inl ⟨Or.inl rfl, Or.inl rfl, rfl⟩
    · have hkey : keyboardUpdate (.keyDown keycode) key k = key k :=
        Function.update_of_ne (Ne.symm hk) ..
      rw [hkey]
      simpa [hk] using h
  | keyUp keycode =>
    by_cases hk : keycode = k
    · have hkey : keyboardUpdate (.keyUp k) key k = key k &&& keyReleased :=
        Function.update_self ..
      rw [hk, hkey]
      rcases h with ⟨h₁, h₂, h₃⟩ | ⟨h₁, h₂, h₃⟩ | ⟨h₁, h₂, h₃⟩ | ⟨h₁, h₂, h₃⟩ <;>
        simp [h₁, h₂, h₃, keyReleased] <;> rfl
    · have hkey : keyboardUpdate (.keyUp keycode) key k = key k :=
        Function.update_of_ne (Ne.symm hk) ..
      rw [hkey]
      simpa [hk] using h
  | other =>
    have hkey : keyboardUpdate .other key k = key k := rfl
    rw [hkey]
    simpa using h

variable {codes : KeyCodes Key} {game : State}

/-- One round of the loop; the flags do not matter any more when it is left. -/
theorem flags_loopStep {tr : List (Label Key)} {s s' : Loop Key} {l : Label Key}
    (h : s.done = false → Flags k tr s.key) (hstep : LoopStep codes s l s')
    (hdone' : s'.done = false) : Flags k (tr ++ [l]) s'.key := by
  cases hstep with
  | timer hplay hdone hupdate =>
    unfold Loop.afterTimer at hdone' ⊢
    by_cases hescape : s.key codes.escape ≠ 0
    · rw [if_pos hescape] at hdone'
      cases hdone'
    · rw [if_neg hescape]
      exact flags_keyboardUpdate (l := ⟨.timer, s.game.frames, s.key⟩) (h hdone)
  | displayClose hplay hdone => cases hdone'
  | @update _ event hplay hdone htimer hclose =>
    exact flags_keyboardUpdate (l := ⟨event, s.game.frames, s.key⟩) (h hdone)

theorem flags_run {tr : List (Label Key)} {s : Loop Key}
    (h : Run (LoopStep codes) (Loop.start game) tr s) (k : Key) (hdone : s.done = false) :
    Flags k tr s.key :=
  h.history (R := fun tr s => s.done = false → Flags k tr s.key) (fun _ => flags_init k)
    (fun _ _ _ _ h hstep hdone => flags_loopStep h hstep hdone) hdone

/-- The loop plays the game: its events of the timer are steps of the game, in which the keys with
flags are pressed. -/
theorem reachable_of_run {random : ℕ} (hstart : start random = .ok game) {tr : List (Label Key)}
    {s : Loop Key} (h : Run (LoopStep codes) (Loop.start game) tr s) : Reachable s.game := by
  refine h.invariant (I := fun s => Reachable s.game) ⟨random, game, [], hstart, Run.refl⟩ ?_
  intro s₁ l s₂ hreach hstep
  cases hstep with
  | timer hplay hdone hupdate =>
    obtain ⟨random, s₀, frames, hstart, hrun⟩ := hreach
    have hgame : ∀ after, (Loop.afterTimer codes s₁ after).game =
        { after with frames := after.frames + 1 } := by
      intro after
      unfold Loop.afterTimer
      split <;> rfl
    rw [hgame]
    exact ⟨random, s₀, _, hstart, hrun.tail (.timer hplay hupdate)⟩
  | displayClose hplay hdone => exact hreach
  | update hplay hdone htimer hclose => exact hreach

/-- What an event finds in the flags. -/
theorem loopStep_finds {s s' : Loop Key} {l : Label Key} (h : LoopStep codes s l s') :
    s.done = false ∧ l.frames = s.game.frames ∧ l.key = s.key := by
  cases h with
  | timer hplay hdone hupdate => exact ⟨hdone, rfl, rfl⟩
  | displayClose hplay hdone => exact ⟨hdone, rfl, rfl⟩
  | update hplay hdone htimer hclose => exact ⟨hdone, rfl, rfl⟩

/-- At every event, the flag of a key is set if and only if the key is held, or has been pressed
since the last event of the timer. -/
theorem flag_ne_zero_iff {tr before after : List (Label Key)} {l : Label Key} {s : Loop Key}
    (h : Run (LoopStep codes) (Loop.start game) tr s) (htr : tr = before ++ l :: after) (k : Key) :
    l.key k ≠ 0 ↔ Held k before ∨ Fresh k before := by
  rw [htr] at h
  obtain ⟨s₁, s₂, hbefore, hstep, -⟩ := h.split_at
  obtain ⟨hdone, -, hkey⟩ := loopStep_finds hstep
  rw [hkey]
  exact (flags_run hbefore k hdone).ne_zero_iff

/-- In every run of the loop, for every press of a key: one of the next two calls that look at the
keys sees it if and only if at one of them the key is still held, or pressed again, or has been
pressed since the event of the timer before. -/
theorem key_press_seen_iff {tr : List (Label Key)} {s : Loop Key}
    (hrun : Run (LoopStep codes) (Loop.start game) tr s) {before mid₁ mid₂ : List (Label Key)}
    {press call₁ call₂ : Label Key} (h : Pressed k tr before mid₁ mid₂ press call₁ call₂) :
    call₁.key k ≠ 0 ∨ call₂.key k ≠ 0 ↔
      Shows k (press :: mid₁) ∨ Shows k (press :: (mid₁ ++ call₁ :: mid₂)) := by
  obtain ⟨after, htr⟩ := h.split
  have hsplit₁ : tr = (before ++ press :: mid₁) ++ call₁ :: (mid₂ ++ call₂ :: after) := by
    rw [htr, List.append_assoc]
    rfl
  have hsplit₂ : tr = (before ++ press :: (mid₁ ++ call₁ :: mid₂)) ++ call₂ :: after := by
    rw [htr, List.append_assoc, List.cons_append, List.append_assoc]
    rfl
  have hfirst : call₁.key k ≠ 0 ↔ Shows k (before ++ press :: mid₁) :=
    flag_ne_zero_iff hrun hsplit₁ k
  have hsecond : call₂.key k ≠ 0 ↔ Shows k (before ++ press :: (mid₁ ++ call₁ :: mid₂)) :=
    flag_ne_zero_iff hrun hsplit₂ k
  rw [hfirst, hsecond, shows_append_cons h.press, shows_append_cons h.press]

/-! ## A press that is lost -/

/-- Frames in which no key is pressed and the block does not fall. -/
def idleFrames (first n : ℕ) : List (Label Key) :=
  (List.range n).map fun i => ⟨.timer, first + i, keyboardInit⟩

theorem run_idle (codes : KeyCodes Key) {s : State} (hplay : s.stillPlaying = true)
    (hfit : blockFit s = .ok true) {n : ℕ} (hframes : ∀ i < n, (s.frames + i) % 20 ≠ 0) :
    Run (LoopStep codes) ⟨s, keyboardInit, false⟩ (idleFrames s.frames n)
      ⟨{ s with frames := s.frames + n }, keyboardInit, false⟩ := by
  induction n with
  | zero => exact Run.refl
  | succ n ih =>
    have hlast : (idleFrames s.frames (n + 1) : List (Label Key)) =
        idleFrames s.frames n ++ [⟨.timer, s.frames + n, keyboardInit⟩] := by
      unfold idleFrames
      rw [List.range_succ, List.map_append, List.map_singleton]
    rw [hlast]
    refine (ih fun i hi => hframes i (by omega)).tail ?_
    have hfit' : blockFit { s with frames := s.frames + n } = .ok true := by
      unfold blockFit
      rw [fitFrom_frames]
      exact hfit
    have hupdate := spritesUpdate_idle codes hfit' (hframes n (by omega)) fun _ => rfl
    have hstep := LoopStep.timer (s := ⟨{ s with frames := s.frames + n }, keyboardInit, false⟩)
      hplay rfl hupdate
    rw [afterTimer_idle] at hstep
    exact hstep

/-- The flags after a press of one key. -/
def pressed (k : Key) : Key → UInt8 := keyboardUpdate (.keyDown k) keyboardInit

theorem pressed_self (k : Key) : pressed k k = 3 := Function.update_self ..

theorem pressed_of_ne {i : Key} (h : i ≠ k) : pressed k i = 0 := Function.update_of_ne h ..

/-- A press with one event of the timer in it leaves no trace. -/
theorem keyboardUpdate_pressed (k : Key) :
    keyboardUpdate (.keyUp k) (keyboardUpdate .timer (pressed k)) = keyboardInit := by
  funext i
  by_cases hi : i = k
  · have hup : keyboardUpdate (.keyUp k) (keyboardUpdate .timer (pressed k)) k =
        pressed k k &&& keySeen &&& keyReleased := Function.update_self ..
    rw [hi, hup, pressed_self]
    rfl
  · have hup : keyboardUpdate (.keyUp k) (keyboardUpdate .timer (pressed k)) i =
        pressed k i &&& keySeen := Function.update_of_ne hi ..
    rw [hup, pressed_of_ne hi]
    exact UInt8.zero_and

/-- A press in a frame in which `sprites_update` does not look at the keys. -/
def shortPress (k : Key) (frames : ℕ) : List (Label Key) :=
  [⟨.keyDown k, frames, keyboardInit⟩, ⟨.timer, frames, pressed k⟩,
    ⟨.keyUp k, frames + 1, keyboardUpdate .timer (pressed k)⟩]

theorem run_shortPress (codes : KeyCodes Key) (hk : codes.escape ≠ k) {s : State}
    (hplay : s.stillPlaying = true) (hfit : blockFit s = .ok true) (hgravity : s.frames % 20 ≠ 0)
    (hsix : s.frames % 6 ≠ 0) :
    Run (LoopStep codes) ⟨s, keyboardInit, false⟩ (shortPress k s.frames)
      ⟨{ s with frames := s.frames + 1 }, keyboardInit, false⟩ := by
  have hdown : LoopStep codes ⟨s, keyboardInit, false⟩ ⟨.keyDown k, s.frames, keyboardInit⟩
      ⟨s, pressed k, false⟩ :=
    .update hplay rfl (fun h => by cases h) (fun h => by cases h)
  have hupdate : spritesUpdate 0 (frameOf codes (pressed k) 0 0) s = .ok (s, []) :=
    spritesUpdate_idle codes hfit hgravity fun h => absurd h hsix
  have htimer := LoopStep.timer (s := ⟨s, pressed k, false⟩) hplay rfl hupdate
  unfold Loop.afterTimer at htimer
  rw [if_neg fun h => h (pressed_of_ne hk)] at htimer
  have hup : LoopStep codes ⟨{ s with frames := s.frames + 1 },
      keyboardUpdate .timer (pressed k), false⟩ ⟨.keyUp k, s.frames + 1, _⟩
      ⟨_, keyboardUpdate (.keyUp k) (keyboardUpdate .timer (pressed k)), false⟩ :=
    .update hplay rfl (fun h => by cases h) (fun h => by cases h)
  rw [keyboardUpdate_pressed k] at hup
  exact ((Run.single hdown).tail htimer).tail hup

/-- The trace in which the key is pressed in the frame 1, after the event `l` of the frame 0. -/
theorem pressed_shortPress (l : Label Key) (k : Key) :
    ∃ press mid₁ mid₂, Pressed k ([l] ++ shortPress k 1 ++ idleFrames 2 11) [l] mid₁ mid₂ press
      ⟨.timer, 6, keyboardInit⟩ ⟨.timer, 12, keyboardInit⟩ := by
  have hidle : ∀ first n, (∀ i < n, (first + i) % 6 ≠ 0) →
      ∀ l ∈ (idleFrames first n : List (Label Key)), ¬ l.Looks := by
    intro first n hsix l hl hlooks
    obtain ⟨i, hi, rfl⟩ := List.mem_map.mp hl
    exact hsix i (List.mem_range.mp hi) hlooks.2
  refine ⟨⟨.keyDown k, 1, keyboardInit⟩, [⟨.timer, 1, pressed k⟩,
    ⟨.keyUp k, 2, keyboardUpdate .timer (pressed k)⟩] ++ idleFrames 2 4, idleFrames 7 5,
    ⟨[], rfl⟩, rfl, ⟨⟨rfl, Nat.mod_self 6⟩, ?_⟩, ⟨rfl, Nat.mul_mod_right 6 2⟩, hidle 7 5 (by omega)⟩
  intro l hl hlooks
  rcases List.mem_append.mp hl with hl | hl
  · rcases List.mem_cons.mp hl with rfl | hl
    · exact absurd hlooks.2 (show ¬ 1 % 6 = 0 by decide)
    · rw [List.mem_singleton.mp hl] at hlooks
      cases hlooks.1
  · exact hidle 2 4 (by omega) l hl hlooks

/-- The keys by numbers. -/
def numbers : KeyCodes ℕ := ⟨0, 1, 2, 3, 4, 5⟩

/-- The first block falls in the frame 0; in the frame 1, LEFT is pressed and released. -/
theorem run_lost_press : ∃ s₀ s l, start 1 = .ok s₀ ∧
    Run (LoopStep numbers) (Loop.start s₀) ([l] ++ shortPress 0 1 ++ idleFrames 2 11) s := by
  have hfirst : ∃ s₀, start 1 = .ok s₀ ∧ ∃ s₁ puts,
      spritesUpdate 0 (frameOf numbers keyboardInit 0 0) s₀ = .ok (s₁, puts) ∧
      s₀.stillPlaying = true ∧ s₁.stillPlaying = true ∧ s₁.frames = 0 ∧
      blockFit s₁ = .ok true :=
    ⟨_, rfl, _, _, rfl, rfl, rfl, rfl, rfl⟩
  obtain ⟨s₀, hstart, s₁, puts, hupdate, hplay₀, hplay₁, hframes, hfit⟩ := hfirst
  have htimer := LoopStep.timer (s := Loop.start s₀) hplay₀ rfl hupdate
  have hidle : (Loop.start s₀).afterTimer numbers s₁ =
      ⟨{ s₁ with frames := 1 }, keyboardInit, false⟩ := by
    rw [← Nat.zero_add 1, ← hframes]
    exact afterTimer_idle numbers s₀ s₁
  have hfit' : ∀ n, blockFit { s₁ with frames := n } = .ok true := by
    intro n
    rw [← hfit]
    exact fitFrom_frames s₁ n cells
  have hpress := run_shortPress (k := 0) numbers (by decide) (s := { s₁ with frames := 1 }) hplay₁
    (hfit' 1) (show 1 % 20 ≠ 0 by decide) (show 1 % 6 ≠ 0 by decide)
  have hrest := run_idle numbers (s := { s₁ with frames := 2 }) (n := 11) hplay₁ (hfit' 2)
    fun i hi => by
      show (2 + i) % 20 ≠ 0
      omega
  rw [hidle] at htimer
  exact ⟨s₀, _, _, hstart, ((Run.single htimer).append hpress).append hrest⟩

/-- The press is lost. -/
theorem lost_press : ∃ s₀ tr s before mid₁ mid₂ press call₁ call₂, start 1 = .ok s₀ ∧
    Run (LoopStep numbers) (Loop.start s₀) tr s ∧
    Pressed numbers.left tr before mid₁ mid₂ press call₁ call₂ ∧
    call₁.key numbers.left = 0 ∧ call₂.key numbers.left = 0 := by
  obtain ⟨s₀, s, l, hstart, hrun⟩ := run_lost_press
  obtain ⟨press, mid₁, mid₂, hpressed⟩ := pressed_shortPress l 0
  exact ⟨s₀, _, s, _, mid₁, mid₂, press, _, _, hstart, hrun, hpressed, rfl, rfl⟩

/-- In the same run, at both calls the key is neither held nor pressed since the event of the timer
before. -/
theorem key_press_seen_iff_lost : ∃ s₀ tr s before mid₁ mid₂ press call₁ call₂,
    Run (LoopStep numbers) (Loop.start s₀) tr s ∧
    Pressed numbers.left tr before mid₁ mid₂ press call₁ call₂ ∧
    ¬ (Shows numbers.left (press :: mid₁) ∨
      Shows numbers.left (press :: (mid₁ ++ call₁ :: mid₂))) := by
  obtain ⟨s₀, s, l, -, hrun⟩ := run_lost_press
  obtain ⟨press, mid₁, mid₂, hpressed⟩ := pressed_shortPress l 0
  refine ⟨s₀, _, s, _, mid₁, mid₂, press, _, _, hrun, hpressed, fun hshows => ?_⟩
  rcases (key_press_seen_iff hrun hpressed).mpr hshows with hseen | hseen
  · exact hseen rfl
  · exact hseen rfl

end CDevHws.Hw35
