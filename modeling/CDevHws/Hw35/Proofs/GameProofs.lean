import CDevHws.Hw35.Game
import CDevHws.Hw35.Proofs.DeleteRowProofs
import Mathlib.Algebra.BigOperators.Fin
import Mathlib.Algebra.Order.BigOperators.Group.List
import Mathlib.Algebra.Order.Group.Nat
import Mathlib.Data.Fintype.BigOperators

/-!
# Proofs: the accounts of a game

Every block brings four filled cells, and every deleted row takes ten of them away, but puts a copy
of the topmost row on top. As no row is full in between, the score cannot stay behind the number of
blocks for long.
-/

namespace CDevHws.Hw35

open Outcome

/-! ## Filled cells -/

/-- The number of filled cells in a row. -/
def filledIn (row : Row) : ℕ := (Finset.univ.filter fun c => row c ≠ 0).card

/-- The number of filled cells in a map. -/
def filled (m : Map) : ℕ := ((rows m).map filledIn).sum

/-- The filled cells of a map. -/
def filledCells (m : Map) : Finset (Fin 10 × Fin 20) :=
  Finset.univ.filter fun p => m p.1 p.2 ≠ 0

theorem filled_eq_card (m : Map) : filled m = (filledCells m).card := by
  unfold filled rows filledIn filledCells
  rw [List.map_map, Finset.card_filter, Fintype.sum_prod_type_right, Fin.sum_univ_def]
  refine congrArg List.sum (List.map_congr_left fun r _ => ?_)
  exact Finset.card_filter _ _

theorem filledIn_of_full {row : Row} (h : Full row) : filledIn row = 10 := by
  unfold filledIn
  rw [Finset.filter_true_of_mem fun c _ => h c]
  rfl

theorem filledIn_lt {row : Row} (h : ¬ Full row) : filledIn row ≤ 9 := by
  obtain ⟨c, hc⟩ := not_forall.mp h
  have hsub : (Finset.univ.filter fun c => row c ≠ 0) ⊂ Finset.univ :=
    Finset.filter_ssubset.mpr ⟨c, Finset.mem_univ c, hc⟩
  have hlt := Finset.card_lt_card hsub
  rw [Finset.card_univ, Fintype.card_fin] at hlt
  exact Nat.le_of_lt_succ hlt

/-- Without full rows there are at most 180 filled cells. -/
theorem filled_le {m : Map} (h : NoFullRow m) : filled m ≤ 180 := by
  have hle : ((rows m).map filledIn).sum ≤ ((rows m).map filledIn).length • 9 := by
    refine List.sum_le_card_nsmul _ 9 fun n hn => ?_
    obtain ⟨row, hrow, rfl⟩ := List.mem_map.mp hn
    exact filledIn_lt (noFullRow_iff.mp h row hrow)
  rw [List.length_map, length_rows] at hle
  exact hle

/-- Each full row that collapses takes ten cells away, and brings those of the row on top. -/
theorem sum_collapse (pad : Row) (l : List Row) :
    ((collapse pad l).map filledIn).sum + 10 * l.countP (fun row => Full row) =
      (l.map filledIn).sum + l.countP (fun row => Full row) * filledIn pad := by
  have hrest : ((l.filter fun row => ¬ Full row).map filledIn).sum +
      10 * l.countP (fun row => Full row) = (l.map filledIn).sum := by
    induction l with
    | nil => rfl
    | cons row l ih =>
      by_cases hfull : Full row
      · rw [List.filter_cons_of_neg (by simpa using hfull),
          List.countP_cons_of_pos (by simpa using hfull), List.map_cons, List.sum_cons,
          filledIn_of_full hfull, ← ih]
        omega
      · rw [List.filter_cons_of_pos (by simpa using hfull),
          List.countP_cons_of_neg (by simpa using hfull), List.map_cons, List.sum_cons,
          List.map_cons, List.sum_cons, ← ih, Nat.add_assoc]
  unfold collapse
  rw [List.map_append, List.sum_append, List.map_replicate, List.sum_replicate, smul_eq_mul,
    Nat.add_assoc, hrest, Nat.add_comm]

/-! ## Putting a block -/

/-- The filled cells of the block. -/
def blockCells (b : Block) : Finset (Fin 4 × Fin 4) := Finset.univ.filter fun q => b q.1 q.2 ≠ 0

theorem card_blockCells {kind : ℕ} (h : IsKind kind) : (blockCells (blockOf kind)).card = 4 := by
  obtain ⟨n, turns, hn, hn', hturns, rfl⟩ := h
  have hall : ∀ n < 8, 1 ≤ n → ∀ turns ∈ [0, 10, 20, 30],
      (blockCells (blockOf (n + turns))).card = 4 := by
    decide
  exact hall n (by omega) hn turns hturns

theorem placed_ne_zero_iff {s : State} {c : Fin 10} {r : Fin 20} :
    placed s c r ≠ 0 ↔ s.map c r ≠ 0 ∨ ∃ q, Covers s c r q := by
  unfold placed placedFrom
  cases hfind : cells.find? fun q => Covers s c r q with
  | some q =>
    have hq : Covers s c r q := by simpa using List.find?_some hfind
    exact iff_of_true hq.1 (Or.inr ⟨q, hq⟩)
  | none =>
    have hnone : ¬ ∃ q, Covers s c r q := by
      rintro ⟨q, hq⟩
      have hnot := List.find?_eq_none.mp hfind q (mem_cells q.1 q.2)
      exact hnot (decide_eq_true hq)
    rw [or_iff_left hnone]

/-- A block that fits brings its four cells. -/
theorem filled_placed {s : State} (h : Entry s) : filled (placed s) = filled s.map + 4 := by
  have hcell : ∀ q : Fin 4 × Fin 4, s.block q.1 q.2 ≠ 0 → ∃ p : Fin 10 × Fin 20,
      (p.1 : ℤ) = s.blockX + q.1 ∧ (p.2 : ℤ) = s.blockY + q.2 ∧ s.map p.1 p.2 = 0 := by
    intro q hq
    obtain ⟨c, r, hc, hr, hempty⟩ := h.fits q.1 q.2 hq
    exact ⟨(c, r), hc, hr, hempty⟩
  choose! cell hx hy hempty using hcell
  have hunion : filledCells (placed s) = filledCells s.map ∪ (blockCells s.block).image cell := by
    ext p
    unfold filledCells blockCells
    rw [Finset.mem_union, Finset.mem_image, Finset.mem_filter_univ, Finset.mem_filter_univ,
      placed_ne_zero_iff]
    refine or_congr_right ⟨?_, ?_⟩
    · rintro ⟨q, hfilled, hqx, hqy⟩
      refine ⟨q, (Finset.mem_filter_univ q).mpr hfilled, Prod.ext (Fin.ext ?_) (Fin.ext ?_)⟩
      · have hc := hx q hfilled
        omega
      · have hr := hy q hfilled
        omega
    · rintro ⟨q, hq, rfl⟩
      have hfilled := (Finset.mem_filter_univ q).mp hq
      exact ⟨q, hfilled, (hx q hfilled).symm, (hy q hfilled).symm⟩
  have hdisjoint : Disjoint (filledCells s.map) ((blockCells s.block).image cell) := by
    rw [Finset.disjoint_right]
    intro p hp hmap
    obtain ⟨q, hq, rfl⟩ := Finset.mem_image.mp hp
    exact (Finset.mem_filter_univ _).mp hmap (hempty q ((Finset.mem_filter_univ q).mp hq))
  have hinj : Set.InjOn cell (blockCells s.block) := by
    intro q hq q' hq' heq
    have hfilled := (Finset.mem_filter_univ q).mp hq
    have hfilled' := (Finset.mem_filter_univ q').mp hq'
    have hc := hx q hfilled
    have hr := hy q hfilled
    rw [heq, hx q' hfilled'] at hc
    rw [heq, hy q' hfilled'] at hr
    exact Prod.ext (Fin.ext (by omega)) (Fin.ext (by omega))
  rw [filled_eq_card, hunion, Finset.card_union_of_disjoint hdisjoint,
    Finset.card_image_of_injOn hinj, h.shape, card_blockCells h.kind, filled_eq_card]

/-! ## The accounts -/

/-- The number of rows that a call of `put_block` deletes. -/
def deletedBy (s : State) : ℕ := fullRows (placed s)

/-- The number of cells that are filled again when a call of `put_block` deletes rows: those of the
topmost row, once for each deleted row. -/
def repeatedBy (s : State) : ℕ := deletedBy s * (rows (placed s)).head?.elim 0 filledIn

/-- How many blocks have been put, how many rows have been deleted, and what that has left. -/
structure Accounts (s : State) (puts : List State) : Prop where
  score : s.score = 100 * (puts.map deletedBy).sum
  cells : filled s.map + 10 * (puts.map deletedBy).sum =
    4 * puts.length + (puts.map repeatedBy).sum

theorem Accounts.of_eq {s s' : State} {puts : List State} (h : Accounts s puts)
    (hmap : s'.map = s.map) (hscore : s'.score = s.score) : Accounts s' puts := by
  refine ⟨hscore.trans h.score, ?_⟩
  rw [hmap]
  exact h.cells

/-- A call of `put_block` with a block that fits. -/
theorem Accounts.put {s s' : State} {puts : List State} (h : Accounts s puts) (hentry : Entry s)
    {fuel : ℕ} (hput : putBlock fuel s = .ok s') : Accounts s' (puts ++ [s]) := by
  have htop : ¬ Full fun c => placed s c 0 := fun hfull =>
    putBlock_of_top_full hentry.inMap hfull fuel ⟨s', hput⟩
  obtain ⟨hrows, hscore, -⟩ := (putBlock_collapse hentry.inMap htop fuel).of_ok hput
  have hsum := sum_collapse (fun c => placed s c 0) (rows (placed s))
  rw [← hrows] at hsum
  have hfilled : filled s'.map + 10 * deletedBy s = filled (placed s) + repeatedBy s := hsum
  have hplaced := filled_placed hentry
  have hdeleted : s'.score = s.score + 100 * deletedBy s := hscore
  have hcells := h.cells
  have htotal := h.score
  constructor
  · rw [List.map_append, List.sum_append, List.map_singleton, List.sum_singleton]
    omega
  · rw [List.map_append, List.sum_append, List.map_singleton, List.sum_singleton,
      List.length_append, List.length_singleton, List.map_append, List.sum_append,
      List.map_singleton, List.sum_singleton]
    omega

/-! ## What the keys do not change -/

/-- Only the block has been moved or made anew. -/
structure Kept (s s' : State) : Prop where
  map : s'.map = s.map
  score : s'.score = s.score
  stillPlaying : s'.stillPlaying = s.stillPlaying
  frames : s'.frames = s.frames
  block : s'.block = s.block ∨ ∃ kind, s'.block = blockOf kind

theorem Kept.refl (s : State) : Kept s s := ⟨rfl, rfl, rfl, rfl, Or.inl rfl⟩

theorem Kept.trans {s s' s'' : State} (h : Kept s s') (h' : Kept s' s'') : Kept s s'' := by
  refine ⟨h'.map.trans h.map, h'.score.trans h.score, h'.stillPlaying.trans h.stillPlaying,
    h'.frames.trans h.frames, ?_⟩
  rcases h'.block with hsame | hmade
  · rw [hsame]
    exact h.block
  · exact Or.inr hmade

/-- If it ends, only the block has been changed. -/
def Keeps (x : Except Fault State) (s : State) : Prop := Meets x (fun _ => True) (Kept s)

theorem meets_any {α : Type} (x : Except Fault α) : Meets x (fun _ => True) fun _ => True :=
  meets_of_forall_ok fun _ _ => trivial

theorem Keeps.bind {x : Except Fault State} {f : State → Except Fault State} {s : State}
    (h : Keeps x s) (hf : ∀ s', Keeps (f s') s') : Keeps (x >>= f) s :=
  Meets.bind h fun s' hs' => (hf s').mono (fun _ h => h) fun _ => hs'.trans

/-- What is done after a call of `block_fit`. -/
theorem keeps_after_fit {s t : State} {branch : Bool → Except Fault State}
    (h : ∀ b, Keeps (branch b) s) : Keeps (blockFit t >>= branch) s :=
  Meets.bind (meets_any _) fun b _ => h b

theorem moved (s : State) (x y : ℤ) : Kept s { s with blockX := x, blockY := y } :=
  ⟨rfl, rfl, rfl, rfl, Or.inl rfl⟩

theorem moveBy_keeps (dx : ℤ) (s : State) : Keeps (moveBy dx s) s := by
  refine keeps_after_fit fun b => ?_
  cases b <;> exact moved s _ _

theorem rotateBlock_keeps (s : State) : Keeps (rotateBlock s) s := by
  refine keeps_after_fit fun b => ?_
  cases b <;> exact ⟨rfl, rfl, rfl, rfl, Or.inr ⟨_, rfl⟩⟩

theorem dropLoop_keeps (fuel : ℕ) : ∀ s : State, Keeps (dropLoop fuel s) s := by
  induction fuel with
  | zero => exact fun s => trivial
  | succ fuel ih =>
    intro s
    refine keeps_after_fit fun b => ?_
    cases b with
    | false => exact Kept.refl s
    | true => exact (ih _).mono (fun _ h => h) fun _ => (moved s _ _).trans

theorem hardDrop_keeps (fuel : ℕ) (s : State) : Keeps (hardDrop fuel s) s :=
  (dropLoop_keeps fuel s).bind fun s' => moved s' _ _

theorem softDrop_keeps (s : State) : Keeps (softDrop s) s := by
  refine keeps_after_fit fun b => keeps_after_fit fun b' => ?_
  cases b <;> cases b' <;> exact moved s _ _

theorem ifKey_keeps {branch : State → Except Fault State} (hbranch : ∀ s, Keeps (branch s) s)
    (pressed : Bool) (s : State) : Keeps (ifKey pressed branch s) s := by
  cases pressed with
  | false => exact Kept.refl s
  | true => exact hbranch s

theorem handleKeys_keeps (fuel : ℕ) (frame : Frame) (s : State) :
    Keeps (handleKeys fuel frame s) s :=
  (ifKey_keeps (moveBy_keeps (-1)) _ s).bind fun s =>
    (ifKey_keeps (moveBy_keeps 1) _ s).bind fun s =>
      (ifKey_keeps rotateBlock_keeps _ s).bind fun s =>
        (ifKey_keeps (hardDrop_keeps fuel) _ s).bind fun s => ifKey_keeps softDrop_keeps _ s

/-! ## A frame -/

theorem newBlock_after (random : ℕ) (s : State) :
    Meets (newBlock random s) (fun _ => True) fun s' =>
      s'.map = s.map ∧ s'.score = s.score ∧
        (s'.stillPlaying = true → s.stillPlaying = true) := by
  refine Meets.bind (meets_any _) fun b _ => ?_
  cases b with
  | false => exact ⟨rfl, rfl, fun h => by cases h⟩
  | true => exact ⟨rfl, rfl, fun h => h⟩

/-- A game that is over is not taken up again. -/
theorem putAndNew_playing (fuel random : ℕ) (s : State) :
    Meets (putAndNew fuel random s) (fun _ => True) fun res =>
      res.1.stillPlaying = true → s.stillPlaying = true := by
  have hput : Meets (putBlock fuel s) (fun _ => True) fun s' =>
      s'.stillPlaying = s.stillPlaying := by
    refine Meets.bind (meets_any _) fun map _ => Meets.bind (meets_any _) fun res _ => rfl
  refine Meets.bind hput fun s₁ hs₁ => Meets.bind (newBlock_after random s₁) fun s₂ hs₂ => ?_
  rw [hs₁] at hs₂
  exact hs₂.2.2

section Frame

variable {s : State} {puts : List State}

theorem putAndNew_accounts (fuel random : ℕ) (hentry : Entry s) (h : Accounts s puts) :
    Meets (putAndNew fuel random s) (fun _ => True) fun res =>
      Accounts res.1 (puts ++ res.2) := by
  refine Meets.bind (meets_of_forall_ok fun s₁ hput => h.put hentry hput) fun s₁ hs₁ => ?_
  refine Meets.bind (newBlock_after random s₁) fun s₂ hs₂ => ?_
  exact hs₁.of_eq hs₂.1 hs₂.2.1

theorem gravity_accounts (fuel random : ℕ) (hentry : Entry s) (h : Accounts s puts) :
    Meets (gravity fuel random s) (fun _ => True) fun res => Accounts res.1 (puts ++ res.2) := by
  refine Meets.bind (meets_any _) fun b _ => ?_
  cases b with
  | true =>
    rw [if_pos rfl, meets_pure, List.append_nil]
    exact h.of_eq rfl rfl
  | false =>
    have hback : { s with blockY := s.blockY + 1 - 1 } = s := down_up s
    show Meets (putAndNew fuel random { s with blockY := s.blockY + 1 - 1 }) _ _
    rw [hback]
    exact putAndNew_accounts fuel random hentry h

theorem settle_accounts (fuel random : ℕ)
    (h : s.stillPlaying = true → Entry s ∧ Accounts s puts) :
    Meets (settle fuel random s) (fun _ => True) fun res =>
      res.1.stillPlaying = true → Accounts res.1 (puts ++ res.2) := by
  refine Meets.bind (meets_of_forall_ok fun b hb => hb) fun b hb => ?_
  cases b with
  | true =>
    rw [if_pos rfl, meets_pure, List.append_nil]
    exact fun hplay => (h hplay).2
  | false =>
    refine (putAndNew_playing fuel random s).mono (fun _ h => h) fun res hres hplay => ?_
    have hfit := (h (hres hplay)).1.fit
    rw [hb] at hfit
    cases hfit

theorem spritesUpdate_accounts (fuel : ℕ) (frame : Frame) (hentry : Entry s)
    (h : Accounts s puts) :
    Meets (spritesUpdate fuel frame s) (fun _ => True) fun res =>
      res.1.stillPlaying = true → Accounts res.1 (puts ++ res.2) := by
  have hkeys : Meets (if s.frames % 6 = 0 then handleKeys fuel frame s else .ok s)
      (fun _ => True) fun s' => Entry s' ∧ Accounts s' puts := by
    split_ifs
    · refine ((handleKeys_meets fuel frame hentry).and (handleKeys_keeps fuel frame s)).mono
        (fun _ _ => trivial) ?_
      rintro s' ⟨hentry', hkept⟩
      exact ⟨hentry', h.of_eq hkept.map hkept.score⟩
    · exact ⟨hentry, h⟩
  have hfall : ∀ s', Entry s' → Accounts s' puts →
      Meets (if s'.frames % 20 = 0 then gravity fuel frame.random s' else .ok (s', []))
        (fun _ => True) fun res =>
          res.1.stillPlaying = true → Entry res.1 ∧ Accounts res.1 (puts ++ res.2) := by
    intro s' hentry' h'
    split_ifs
    · refine ((gravity_meets fuel frame.random hentry').and
        (gravity_accounts fuel frame.random hentry' h')).mono (fun _ _ => trivial) ?_
      rintro res ⟨⟨-, -, hplaying⟩, haccounts⟩ hplay
      exact ⟨hplaying hplay, haccounts⟩
    · rw [meets_ok, List.append_nil]
      exact fun _ => ⟨hentry', h'⟩
  refine Meets.bind hkeys fun s₁ h₁ => Meets.bind (hfall s₁ h₁.1 h₁.2) ?_
  rintro ⟨s₂, puts₂⟩ h₂
  refine Meets.bind (settle_accounts fuel frame.random' h₂) ?_
  rintro ⟨s₃, puts₃⟩ h₃ hplay
  rw [← List.append_assoc]
  exact h₃ hplay

end Frame

/-! ## The game -/

theorem played_entry {s : State} {puts : List State} (h : Played s puts)
    (hplay : s.stillPlaying = true) : Entry s ∧ Accounts s puts := by
  induction h with
  | @start random s hstart =>
    have hmade := (newBlock_after random .init).of_ok hstart
    have hfirst : Accounts .init [] := ⟨rfl, by decide⟩
    exact ⟨(start_meets random).of_ok hstart hplay, hfirst.of_eq hmade.1 hmade.2.1⟩
  | @frame fuel frame s s' puts puts' _ hplay' hupdate ih =>
    obtain ⟨hentry, haccounts⟩ := ih hplay'
    have hentry' : Entry s' := ((spritesUpdate_meets fuel frame hentry).of_ok hupdate).2 hplay
    refine ⟨entry_of_fits hentry'.kind hentry'.shape hentry'.fits hentry'.noFullRow, ?_⟩
    exact ((spritesUpdate_accounts fuel frame hentry haccounts).of_ok hupdate hplay).of_eq rfl rfl

/-- As long as the game goes on, the score is 100 for each deleted row, every filled cell is one of
the four cells of a block or one of the topmost row that a deletion has repeated, and the score is
not far behind the number of blocks. -/
theorem game_accounts {s : State} {puts : List State} (h : Played s puts)
    (hplay : s.stillPlaying = true) :
    s.score = 100 * (puts.map deletedBy).sum ∧
      filled s.map + 10 * (puts.map deletedBy).sum =
        4 * puts.length + (puts.map repeatedBy).sum ∧
      40 * puts.length ≤ s.score + 1800 := by
  obtain ⟨hentry, hscore, hcells⟩ := played_entry h hplay
  refine ⟨hscore, hcells, ?_⟩
  have hle := filled_le hentry.noFullRow
  omega

theorem played_play {fuel : ℕ} {frames : List Frame} {s s' : State} {puts puts' : List State}
    (h : Played s puts) (hplay : play fuel frames (s, puts) = .ok (s', puts')) :
    Played s' puts' := by
  induction frames generalizing s puts with
  | nil =>
    cases hplay
    exact h
  | cons frame frames ih =>
    unfold play at hplay
    by_cases hplaying : s.stillPlaying = true
    · rw [if_pos hplaying] at hplay
      obtain ⟨⟨s₁, puts₁⟩, hupdate, hrest⟩ := exists_of_bind_eq_ok hplay
      exact ih (.frame h hplaying hupdate) hrest
    · rw [if_neg hplaying] at hplay
      cases hplay
      exact h

/-- Six frames, of which the first one handles the keys LEFT, RIGHT and SPACE. -/
def sixFrames (left right space : Bool) (random : ℕ) : List Frame :=
  List.replicate 6 ⟨left, right, false, space, false, random, random⟩

/-- Two bars and a square, which fill the last row. -/
def lineGame : List Frame :=
  sixFrames true false false 6 ++ sixFrames true false false 6 ++ sixFrames true false false 6 ++
    sixFrames false false true 6 ++ sixFrames false true false 6 ++ sixFrames false false true 6 ++
    sixFrames false false false 1 ++ (List.replicate 5 (sixFrames false true false 1)).flatten ++
    sixFrames false false true 1 ++ sixFrames false false false 1

/-- What is to be seen of a game: whether it goes on, the score, the number of blocks that have been
put, and the number of filled cells. -/
def summary (random fuel : ℕ) (frames : List Frame) : Except Fault (Bool × ℕ × ℕ × ℕ) := do
  let s ← start random
  let (s, puts) ← play fuel frames (s, [])
  return (s.stillPlaying, s.score, puts.length, filled s.map)

theorem exists_of_summary {random fuel : ℕ} {frames : List Frame} {result : Bool × ℕ × ℕ × ℕ}
    (h : summary random fuel frames = .ok result) : ∃ s puts, Played s puts ∧
      (s.stillPlaying, s.score, puts.length, filled s.map) = result := by
  obtain ⟨s₀, hstart, h⟩ := exists_of_bind_eq_ok h
  obtain ⟨⟨s, puts⟩, hplay, hresult⟩ := exists_of_bind_eq_ok h
  exact ⟨s, puts, played_play (.start hstart) hplay, Except.ok.inj hresult⟩

theorem summary_lineGame : summary 6 30 lineGame = .ok (true, 100, 3, 2) := by decide +kernel

/-- Of the twelve cells of three blocks, ten have been deleted with the last row. -/
theorem game_accounts_line : ∃ s puts, Played s puts ∧ puts.length = 3 ∧ filled s.map = 2 ∧
    100 = 100 * (puts.map deletedBy).sum ∧
    2 + 10 * (puts.map deletedBy).sum = 4 * 3 + (puts.map repeatedBy).sum ∧
    40 * 3 ≤ 100 + 1800 := by
  obtain ⟨s, puts, hplayed, hsummary⟩ := exists_of_summary summary_lineGame
  simp only [Prod.mk.injEq] at hsummary
  obtain ⟨hplay, hscore, hlength, hfilled⟩ := hsummary
  have haccounts := game_accounts hplayed hplay
  rw [hscore, hlength, hfilled] at haccounts
  exact ⟨s, puts, hplayed, hlength, hfilled, haccounts⟩

end CDevHws.Hw35
