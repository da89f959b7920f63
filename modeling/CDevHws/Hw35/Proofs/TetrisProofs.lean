import CDevHws.Hw35.Tetris
import CDevHws.Lib.Outcome
import Mathlib.Data.Fintype.Prod
import Mathlib.Data.Fintype.Sum

/-!
# Proofs: the state of the game

Whenever `sprites_update` is entered, the block is a shape of `made_block` that lies inside the map
on empty cells, and no row is full. `block_fit` does not check that rows are not negative; this is
safe because every shape has a cell in its first row, so that a block inside the map has
`block_y >= 0`.
-/

namespace CDevHws.Hw35

open Outcome Transition

/-! ## What `block_fit` says -/

/-- The filled cells of the block are inside the map. -/
def InMap (s : State) : Prop :=
  ∀ i j, s.block i j ≠ 0 → (0 ≤ s.blockX + i ∧ s.blockX + i ≤ 9) ∧
    0 ≤ s.blockY + j ∧ s.blockY + j ≤ 19

/-- The cell of the map under the cell `(i, j)` of the block is empty. -/
def CellFits (s : State) (i j : Fin 4) : Prop :=
  ∃ (c : Fin 10) (r : Fin 20), (c : ℤ) = s.blockX + i ∧ (r : ℤ) = s.blockY + j ∧ s.map c r = 0

/-- The filled cells of the block lie on empty cells of the map. -/
def Fits (s : State) : Prop := ∀ i j, s.block i j ≠ 0 → CellFits s i j

theorem read_eq (m : Map) {x y : ℤ} {c : Fin 10} {r : Fin 20} (hc : (c : ℤ) = x)
    (hr : (r : ℤ) = y) : m.read x y = .ok (m c r) := by
  subst hc
  subst hr
  unfold Map.read
  rw [dif_pos ⟨⟨by omega, by omega⟩, by omega, by omega⟩]
  rfl

theorem exists_cell {x y : ℤ} (hx : 0 ≤ x ∧ x ≤ 9) (hy : 0 ≤ y ∧ y ≤ 19) :
    ∃ (c : Fin 10) (r : Fin 20), (c : ℤ) = x ∧ (r : ℤ) = y :=
  ⟨⟨x.toNat, by omega⟩, ⟨y.toNat, by omega⟩, Int.toNat_of_nonneg hx.1, Int.toNat_of_nonneg hy.1⟩

theorem Fits.inMap {s : State} (h : Fits s) : InMap s := by
  intro i j hfilled
  obtain ⟨c, r, hc, hr, -⟩ := h i j hfilled
  exact ⟨by omega, by omega⟩

theorem mem_cells (i j : Fin 4) : (i, j) ∈ cells := by
  unfold cells
  simp

/-- If no filled cell is above the map, `block_fit` tells for each cell whether it fits. -/
theorem fitFrom_spec {s : State} (hrows : ∀ i j, s.block i j ≠ 0 → 0 ≤ s.blockY + j)
    (l : List (Fin 4 × Fin 4)) : ∃ b, fitFrom s l = .ok b ∧
      (b = true ↔ ∀ p ∈ l, s.block p.1 p.2 ≠ 0 → CellFits s p.1 p.2) := by
  induction l with
  | nil => exact ⟨true, rfl, by simp⟩
  | cons p l ih =>
    obtain ⟨i, j⟩ := p
    obtain ⟨b, hb, hiff⟩ := ih
    have hw : boxW = 10 := rfl
    have hh : boxH = 20 := rfl
    have hno : ¬ CellFits s i j → s.block i j ≠ 0 →
        (false = true ↔ ∀ p ∈ (i, j) :: l, s.block p.1 p.2 ≠ 0 → CellFits s p.1 p.2) := by
      intro hnot hfilled
      refine ⟨fun h => (by cases h), fun h => ?_⟩
      exact absurd (h (i, j) List.mem_cons_self hfilled) hnot
    have hyes : (s.block i j ≠ 0 → CellFits s i j) →
        (b = true ↔ ∀ p ∈ (i, j) :: l, s.block p.1 p.2 ≠ 0 → CellFits s p.1 p.2) := by
      intro hcell
      rw [hiff, List.forall_mem_cons]
      exact ⟨fun h => ⟨hcell, h⟩, fun h => h.2⟩
    unfold fitFrom
    by_cases hfilled : s.block i j ≠ 0
    · rw [if_pos hfilled]
      by_cases hright : s.blockX + i > boxW - 1
      · rw [if_pos hright]
        refine ⟨false, rfl, hno ?_ hfilled⟩
        rintro ⟨c, r, hc, -⟩
        omega
      rw [if_neg hright]
      by_cases hleft : s.blockX + i < 0
      · rw [if_pos hleft]
        refine ⟨false, rfl, hno ?_ hfilled⟩
        rintro ⟨c, r, hc, -⟩
        omega
      rw [if_neg hleft]
      by_cases hbottom : s.blockY + j > boxH - 1
      · rw [if_pos hbottom]
        refine ⟨false, rfl, hno ?_ hfilled⟩
        rintro ⟨c, r, -, hr, -⟩
        omega
      rw [if_neg hbottom]
      have htop := hrows i j hfilled
      obtain ⟨c, r, hc, hr⟩ := exists_cell (x := s.blockX + i) (y := s.blockY + j)
        ⟨by omega, by omega⟩ ⟨htop, by omega⟩
      rw [read_eq s.map hc hr]
      show ∃ b, (if s.map c r ≠ 0 then Except.ok false else fitFrom s l) = .ok b ∧ _
      by_cases hempty : s.map c r = 0
      · rw [if_neg (not_not.mpr hempty)]
        exact ⟨b, hb, hyes fun _ => ⟨c, r, hc, hr, hempty⟩⟩
      · rw [if_pos hempty]
        refine ⟨false, rfl, hno ?_ hfilled⟩
        rintro ⟨c', r', hc', hr', hempty'⟩
        have hcc : c' = c := by omega
        have hrr : r' = r := by omega
        rw [hcc, hrr] at hempty'
        exact hempty hempty'
    · rw [if_neg hfilled]
      exact ⟨b, hb, hyes fun h => absurd h hfilled⟩

theorem blockFit_spec {s : State} (hrows : ∀ i j, s.block i j ≠ 0 → 0 ≤ s.blockY + j) :
    ∃ b, blockFit s = .ok b ∧ (b = true ↔ Fits s) := by
  obtain ⟨b, hb, hiff⟩ := fitFrom_spec hrows cells
  refine ⟨b, hb, hiff.trans ⟨fun h i j => h (i, j) (mem_cells i j), fun h p _ => h p.1 p.2⟩⟩

theorem blockFit_of_fits {s : State} (h : Fits s) : blockFit s = .ok true := by
  obtain ⟨b, hb, hiff⟩ := blockFit_spec fun i j hfilled => (h.inMap i j hfilled).2.1
  rw [hb, hiff.mpr h]

theorem blockFit_of_not_fits {s : State}
    (hrows : ∀ i j, s.block i j ≠ 0 → 0 ≤ s.blockY + j) (h : ¬ Fits s) :
    blockFit s = .ok false := by
  obtain ⟨b, hb, hiff⟩ := blockFit_spec hrows
  cases b with
  | true => exact absurd (hiff.mp rfl) h
  | false => exact hb

theorem exists_of_read {m : Map} {x y : ℤ} {v : ℕ} (h : m.read x y = .ok v) :
    ∃ (c : Fin 10) (r : Fin 20), (c : ℤ) = x ∧ (r : ℤ) = y ∧ m c r = v := by
  unfold Map.read at h
  split_ifs at h with hmap
  cases h
  exact ⟨_, _, Int.toNat_of_nonneg hmap.1.1, Int.toNat_of_nonneg hmap.2.1, rfl⟩

/-- If `block_fit` holds, it has not left the map, and every cell fits. -/
theorem fitFrom_true {s : State} {l : List (Fin 4 × Fin 4)} (h : fitFrom s l = .ok true) :
    ∀ p ∈ l, s.block p.1 p.2 ≠ 0 → CellFits s p.1 p.2 := by
  induction l with
  | nil => exact fun p hp => absurd hp List.not_mem_nil
  | cons p l ih =>
    obtain ⟨i, j⟩ := p
    rw [List.forall_mem_cons]
    unfold fitFrom at h
    by_cases hfilled : s.block i j ≠ 0
    · rw [if_pos hfilled] at h
      split_ifs at h
      · cases h
      · cases h
      · cases h
      · cases hread : s.map.read (s.blockX + i) (s.blockY + j) with
        | error e =>
          rw [hread] at h
          cases h
        | ok v =>
          rw [hread] at h
          have h : (if v ≠ 0 then Except.ok false else fitFrom s l) = .ok true := h
          by_cases hv : v = 0
          · rw [if_neg (not_not.mpr hv)] at h
            obtain ⟨c, r, hc, hr, hcell⟩ := exists_of_read hread
            exact ⟨fun _ => ⟨c, r, hc, hr, hcell.trans hv⟩, ih h⟩
          · rw [if_pos hv] at h
            cases h
    · rw [if_neg hfilled] at h
      exact ⟨fun hne => absurd hne hfilled, ih h⟩

theorem fits_of_blockFit {s : State} (h : blockFit s = .ok true) : Fits s :=
  fun i j => fitFrom_true h (i, j) (mem_cells i j)

/-! ## Rows -/

/-- No row is full. -/
def NoFullRow (m : Map) : Prop := ∀ r, ∃ c, m c r = 0

theorem rowFull_iff (m : Map) (r : Fin 20) : rowFull m r = true ↔ ∀ c, m c r ≠ 0 := by
  have hr : 0 ≤ (r : ℤ) ∧ (r : ℤ) < 20 := by omega
  have hlen : (List.finRange 10).length = 10 := List.length_finRange
  unfold rowFull
  rw [dif_pos hr, beq_iff_eq]
  have hfilter := List.length_filter_eq_length_iff (l := List.finRange 10)
    (p := fun j => decide (m j r ≠ 0))
  rw [hlen] at hfilter
  refine hfilter.trans ?_
  simp

/-- The rows below the given one stay as they are. -/
theorem shiftRows_of_lt {i : ℕ} (m : Map) (c : Fin 10) {r : Fin 20} (h : i < r) :
    shiftRows i m c r = m c r := by
  induction i generalizing m with
  | zero => rfl
  | succ i ih =>
    have hcopy : copyRow i m c r = m c r := dif_neg (by omega)
    exact (ih (copyRow i m) (by omega)).trans hcopy

/-- The scan of `delete_row` leaves no full row behind: after a row is cleared it goes on one row
below, and the rows further below have not changed. -/
theorem deleteFrom_meets (fuel : ℕ) {m : Map} (score : ℕ) {i : ℤ}
    (hscan : ∀ r : Fin 20, i < r → ∃ c, m c r = 0) :
    Meets (deleteFrom fuel m score i) (· = .deleteRow) fun res => NoFullRow res.1 := by
  induction fuel generalizing m score i with
  | zero => rfl
  | succ fuel ih =>
    unfold deleteFrom
    by_cases hi : i ≥ 0
    · rw [if_pos hi]
      by_cases hfull : rowFull m i = true
      · rw [if_pos hfull]
        refine ih _ fun r hr => ?_
        obtain ⟨c, hc⟩ := hscan r (by omega)
        exact ⟨c, (shiftRows_of_lt m c (by omega)).trans hc⟩
      · rw [if_neg hfull]
        refine ih _ fun r hr => ?_
        by_cases heq : (r : ℤ) = i
        · rw [← heq, rowFull_iff] at hfull
          simpa using hfull
        · exact hscan r (by omega)
    · rw [if_neg hi]
      exact fun r => hscan r (by omega)

/-- A block inside the map is written without an error. -/
theorem writeBlock_meets {s : State} (h : InMap s) :
    Meets (writeBlock s) (fun _ => False) fun _ => True := by
  refine meets_foldlM ?_ trivial
  rintro m - ⟨i, j⟩ -
  simp only
  by_cases hfilled : s.block i j ≠ 0
  · obtain ⟨hx, hy⟩ := h i j hfilled
    have hmap : (0 ≤ s.blockX + i ∧ s.blockX + i < 10) ∧ 0 ≤ s.blockY + j ∧ s.blockY + j < 20 :=
      ⟨⟨hx.1, by omega⟩, hy.1, by omega⟩
    unfold Map.write
    rw [if_pos hfilled, if_pos hmap]
    trivial
  · rw [if_neg hfilled]
    trivial

/-- `put_block` stays inside the map, and only `delete_row` may not end. -/
theorem putBlock_meets (fuel : ℕ) {s : State} (h : InMap s) :
    Meets (putBlock fuel s) (· = .deleteRow) fun s' => NoFullRow s'.map := by
  unfold putBlock deleteRow
  refine Meets.bind ((writeBlock_meets h).of_never _) fun map _ => ?_
  exact Meets.bind (deleteFrom_meets fuel _ fun r hr => by omega) fun res hres => hres

/-! ## The kinds of blocks -/

/-- A kind that the game uses: one of seven blocks, turned some times. -/
def IsKind (kind : ℕ) : Prop :=
  ∃ n turns, 1 ≤ n ∧ n ≤ 7 ∧ turns ∈ [0, 10, 20, 30] ∧ kind = n + turns

/-- Every kind has a filled cell in the first row. -/
theorem exists_first_row {kind : ℕ} (h : IsKind kind) : ∃ i, blockOf kind i 0 ≠ 0 := by
  obtain ⟨n, turns, hn, hn', hturns, rfl⟩ := h
  have hall : ∀ n < 8, 1 ≤ n → ∀ turns ∈ [0, 10, 20, 30], ∃ i, blockOf (n + turns) i 0 ≠ 0 := by
    decide
  exact hall n (by omega) hn turns hturns

/-- The next kind in `rotate_block`. -/
theorem isKind_next {kind : ℕ} (h : IsKind kind) :
    IsKind (if kind + 10 > 40 then kind + 10 - 40 else kind + 10) := by
  obtain ⟨n, turns, hn, hn', hturns, rfl⟩ := h
  simp only [List.mem_cons, List.not_mem_nil, or_false] at hturns
  rcases hturns with rfl | rfl | rfl | rfl
  · exact ⟨n, 10, hn, hn', by simp, if_neg (by omega)⟩
  · exact ⟨n, 20, hn, hn', by simp, if_neg (by omega)⟩
  · exact ⟨n, 30, hn, hn', by simp, if_neg (by omega)⟩
  · refine ⟨n, 0, hn, hn', by simp, ?_⟩
    rw [if_pos (by omega)]
    omega

/-! ## The invariant -/

/-- What holds whenever `sprites_update` is entered. -/
structure Entry (s : State) : Prop where
  kind : IsKind s.currentBlock
  shape : s.block = blockOf s.currentBlock
  fit : blockFit s = .ok true
  inMap : InMap s
  noFullRow : NoFullRow s.map

theorem entry_of_fits {s : State} (hkind : IsKind s.currentBlock)
    (hshape : s.block = blockOf s.currentBlock) (hfits : Fits s) (hrows : NoFullRow s.map) :
    Entry s :=
  ⟨hkind, hshape, blockFit_of_fits hfits, hfits.inMap, hrows⟩

theorem Entry.fits {s : State} (h : Entry s) : Fits s := fits_of_blockFit h.fit

/-- A block of a kind that is inside the map is not above it. -/
theorem blockY_bounds {s : State} (hkind : IsKind s.currentBlock)
    (hshape : s.block = blockOf s.currentBlock) (h : InMap s) : 0 ≤ s.blockY ∧ s.blockY ≤ 19 := by
  obtain ⟨i, hi⟩ := exists_first_row hkind
  rw [← hshape] at hi
  have hrow := (h i 0 hi).2
  have hzero : ((0 : Fin 4) : ℕ) = 0 := rfl
  omega

/-- `block_fit` of a block with `block_y >= 0`. -/
theorem blockFit_cases {s : State} (h : 0 ≤ s.blockY) :
    Fits s ∧ blockFit s = .ok true ∨ ¬ Fits s ∧ blockFit s = .ok false := by
  by_cases hfits : Fits s
  · exact Or.inl ⟨hfits, blockFit_of_fits hfits⟩
  · exact Or.inr ⟨hfits, blockFit_of_not_fits (fun i j _ => by omega) hfits⟩

/-- A step down that is undone. -/
theorem down_up (s : State) : { s with blockY := s.blockY + 1 - 1 } = s := by
  rw [Int.add_sub_cancel]

/-! ## The keys -/

theorem moveBy_meets (dx : ℤ) {s : State} (h : Entry s) :
    Meets (moveBy dx s) (fun _ => False) Entry := by
  have hy := (blockY_bounds h.kind h.shape h.inMap).1
  unfold moveBy
  rcases blockFit_cases (s := { s with blockX := s.blockX + dx }) hy with ⟨hfits, hb⟩ | ⟨-, hb⟩
  · refine meets_bind_of_eq hb ?_
    exact entry_of_fits h.kind h.shape hfits h.noFullRow
  · refine meets_bind_of_eq hb ?_
    have hback : { s with blockX := s.blockX + dx - dx } = s := by
      rw [Int.add_sub_cancel]
    show Entry { s with blockX := s.blockX + dx - dx }
    rw [hback]
    exact h

theorem rotateBlock_meets {s : State} (h : Entry s) :
    Meets (rotateBlock s) (fun _ => False) Entry := by
  have hy := (blockY_bounds h.kind h.shape h.inMap).1
  unfold rotateBlock
  simp only
  generalize hnext :
    (if s.currentBlock + 10 > 40 then s.currentBlock + 10 - 40 else s.currentBlock + 10) = next
  have hkind : IsKind next := hnext ▸ isKind_next h.kind
  rcases blockFit_cases (s := madeBlock next s) hy with ⟨hfits, hb⟩ | ⟨-, hb⟩
  · refine meets_bind_of_eq hb ?_
    exact entry_of_fits hkind rfl hfits h.noFullRow
  · refine meets_bind_of_eq hb ?_
    -- the old block is generated again, in the same place
    refine entry_of_fits h.kind rfl ?_ h.noFullRow
    intro i j hfilled
    exact h.fits i j (h.shape ▸ hfilled)

/-- The loop of SPACE, once it has moved the block: it ends one row below a place where the block
fits. -/
theorem dropLoop_meets (fuel : ℕ) {s : State} (hkind : IsKind s.currentBlock)
    (hshape : s.block = blockOf s.currentBlock) (h : Fits { s with blockY := s.blockY - 1 }) :
    Meets (dropLoop fuel s) (fun e => e = .drop ∧ fuel + s.blockY ≤ 20) fun s' =>
      ∃ y, s' = { s with blockY := y } ∧ Fits { s with blockY := y - 1 } := by
  induction fuel generalizing s with
  | zero =>
    have hy := blockY_bounds (s := { s with blockY := s.blockY - 1 }) hkind hshape h.inMap
    simp only at hy
    exact ⟨rfl, by omega⟩
  | succ fuel ih =>
    have hy := blockY_bounds (s := { s with blockY := s.blockY - 1 }) hkind hshape h.inMap
    simp only at hy
    unfold dropLoop
    rcases blockFit_cases (s := s) (by omega) with ⟨hfits, hb⟩ | ⟨-, hb⟩
    · refine meets_bind_of_eq hb ?_
      have hnext : Fits { s with blockY := s.blockY + 1 - 1 } := (down_up s).symm ▸ hfits
      refine (ih (s := { s with blockY := s.blockY + 1 }) hkind hshape hnext).mono ?_ ?_
      · rintro e ⟨he, hle⟩
        simp only at hle
        exact ⟨he, by omega⟩
      · rintro s' ⟨y, rfl, hy'⟩
        exact ⟨y, rfl, hy'⟩
    · refine meets_bind_of_eq hb ?_
      exact ⟨s.blockY, rfl, h⟩

/-- The hard drop ends: 21 rounds are enough. -/
theorem hardDrop_meets (fuel : ℕ) {s : State} (h : Entry s) :
    Meets (hardDrop fuel s) (fun e => e = .drop ∧ fuel ≤ 20) Entry := by
  have hy := blockY_bounds h.kind h.shape h.inMap
  unfold hardDrop
  cases fuel with
  | zero => exact ⟨rfl, by omega⟩
  | succ fuel =>
    have hnext : Fits { s with blockY := s.blockY + 1 - 1 } := (down_up s).symm ▸ h.fits
    have hloop : Meets (dropLoop (fuel + 1) s) (fun e => e = .drop ∧ fuel + 1 ≤ 20) fun s' =>
        ∃ y, s' = { s with blockY := y } ∧ Fits { s with blockY := y - 1 } := by
      unfold dropLoop
      refine meets_bind_of_eq h.fit ?_
      refine (dropLoop_meets fuel (s := { s with blockY := s.blockY + 1 }) h.kind h.shape
        hnext).mono ?_ fun s' hs' => hs'
      rintro e ⟨he, hle⟩
      simp only at hle
      exact ⟨he, by omega⟩
    refine Meets.bind hloop ?_
    rintro s' ⟨y, rfl, hy'⟩
    exact entry_of_fits h.kind h.shape hy' h.noFullRow

theorem softDrop_meets {s : State} (h : Entry s) :
    Meets (softDrop s) (fun _ => False) Entry := by
  have hy := (blockY_bounds h.kind h.shape h.inMap).1
  unfold softDrop
  refine meets_bind_of_eq h.fit ?_
  rcases blockFit_cases (s := { s with blockY := s.blockY + 1 }) (by simp only; omega) with
    ⟨hfits, hb⟩ | ⟨-, hb⟩
  · refine meets_bind_of_eq hb ?_
    exact entry_of_fits h.kind h.shape hfits h.noFullRow
  · refine meets_bind_of_eq hb ?_
    show Entry { s with blockY := s.blockY + 1 - 1 }
    rw [down_up]
    exact h

theorem ifKey_meets {branch : State → Except Fault State} {fail : Fault → Prop}
    (hbranch : ∀ s, Entry s → Meets (branch s) fail Entry) (pressed : Bool) {s : State}
    (h : Entry s) : Meets (ifKey pressed branch s) fail Entry := by
  unfold ifKey
  split_ifs
  · exact hbranch s h
  · exact h

theorem handleKeys_meets (fuel : ℕ) (frame : Frame) {s : State} (h : Entry s) :
    Meets (handleKeys fuel frame s) (fun e => e = .drop ∧ fuel ≤ 20) Entry := by
  unfold handleKeys
  refine Meets.bind (ifKey_meets (fun s h => (moveBy_meets (-1) h).of_never _) _ h) fun s h => ?_
  refine Meets.bind (ifKey_meets (fun s h => (moveBy_meets 1 h).of_never _) _ h) fun s h => ?_
  refine Meets.bind (ifKey_meets (fun s h => (rotateBlock_meets h).of_never _) _ h) fun s h => ?_
  refine Meets.bind (ifKey_meets (fun s h => hardDrop_meets fuel h) _ h) fun s h => ?_
  exact ifKey_meets (fun s h => (softDrop_meets h).of_never _) _ h

/-! ## Falling -/

/-- The cells of the map under the block are empty. -/
def WritesEmpty (s : State) : Prop :=
  ∀ i j, s.block i j ≠ 0 → s.map.read (s.blockX + i) (s.blockY + j) = .ok 0

theorem Fits.writesEmpty {s : State} (h : Fits s) : WritesEmpty s := by
  intro i j hfilled
  obtain ⟨c, r, hc, hr, hempty⟩ := h i j hfilled
  rw [read_eq s.map hc hr, hempty]

/-- `new_block` puts a block inside the map; if it does not fit, the game is over. -/
theorem newBlock_meets (random : ℕ) {s : State} (h : NoFullRow s.map) :
    Meets (newBlock random s) (fun _ => False) fun s' =>
      InMap s' ∧ (s'.stillPlaying = true → Entry s') := by
  have hkind : IsKind (random % 7 + 1) := ⟨random % 7 + 1, 0, by omega, by omega, by simp, rfl⟩
  have hinMap : ∀ i j : Fin 4, (0 ≤ (3 : ℤ) + i ∧ (3 : ℤ) + i ≤ 9) ∧
      0 ≤ (0 : ℤ) + j ∧ (0 : ℤ) + j ≤ 19 := by
    intro i j
    omega
  unfold newBlock
  rcases blockFit_cases (s := { madeBlock (random % 7 + 1) s with blockX := 3, blockY := 0 })
    (Int.le_refl 0) with ⟨hfits, hb⟩ | ⟨-, hb⟩
  · refine meets_bind_of_eq hb ?_
    exact ⟨fun i j _ => hinMap i j, fun _ => entry_of_fits hkind rfl hfits h⟩
  · refine meets_bind_of_eq hb ?_
    exact ⟨fun i j _ => hinMap i j, fun hplay => by cases hplay⟩

theorem putAndNew_meets (fuel random : ℕ) {s : State} (h : InMap s) :
    Meets (putAndNew fuel random s) (· = .deleteRow) fun res =>
      res.2 = [s] ∧ InMap res.1 ∧ (res.1.stillPlaying = true → Entry res.1) := by
  unfold putAndNew
  refine Meets.bind (putBlock_meets fuel h) fun s₁ hs₁ => ?_
  refine Meets.bind ((newBlock_meets random hs₁).of_never _) ?_
  intro s₂ hs₂
  exact ⟨rfl, hs₂⟩

theorem gravity_meets (fuel random : ℕ) {s : State} (h : Entry s) :
    Meets (gravity fuel random s) (· = .deleteRow) fun res =>
      (∀ p ∈ res.2, WritesEmpty p) ∧ InMap res.1 ∧ (res.1.stillPlaying = true → Entry res.1) := by
  have hy := (blockY_bounds h.kind h.shape h.inMap).1
  unfold gravity
  rcases blockFit_cases (s := { s with blockY := s.blockY + 1 }) (by simp only; omega) with
    ⟨hfits, hb⟩ | ⟨-, hb⟩
  · refine meets_bind_of_eq hb ?_
    exact ⟨by simp, hfits.inMap, fun _ => entry_of_fits h.kind h.shape hfits h.noFullRow⟩
  · refine meets_bind_of_eq hb ?_
    show Meets (putAndNew fuel random { s with blockY := s.blockY + 1 - 1 }) _ _
    rw [down_up]
    refine (putAndNew_meets fuel random h.inMap).mono (fun e he => he) ?_
    rintro ⟨s', puts⟩ ⟨rfl, hs'⟩
    refine ⟨fun p hp => ?_, hs'⟩
    rw [List.mem_singleton.mp hp]
    exact h.fits.writesEmpty

/-- At the end a block that does not fit is the one that ended the game. -/
theorem settle_meets (fuel random : ℕ) {s : State} (hinMap : InMap s)
    (h : s.stillPlaying = true → Entry s) :
    Meets (settle fuel random s) (· = .deleteRow) fun res =>
      (∀ p ∈ res.2, p.stillPlaying = true → WritesEmpty p) ∧
        (res.1.stillPlaying = true → Entry res.1) := by
  unfold settle
  obtain ⟨b, hb, hfits⟩ := blockFit_spec fun i j hfilled => (hinMap i j hfilled).2.1
  refine meets_bind_of_eq hb ?_
  cases b with
  | true => exact ⟨by simp, h⟩
  | false =>
    refine (putAndNew_meets fuel random hinMap).mono (fun e he => he) ?_
    rintro ⟨s', puts⟩ ⟨rfl, -, hs'⟩
    refine ⟨fun p hp hplay => ?_, hs'⟩
    rw [List.mem_singleton.mp hp] at hplay
    cases hfits.mpr (h hplay).fits

/-- One call of `sprites_update` keeps the invariant, stays inside the map and, while the game goes
on, puts blocks on empty cells only. -/
theorem spritesUpdate_meets (fuel : ℕ) (frame : Frame) {s : State} (h : Entry s) :
    Meets (spritesUpdate fuel frame s) (fun e => e = .deleteRow ∨ e = .drop ∧ fuel ≤ 20) fun res =>
      (∀ p ∈ res.2, p.stillPlaying = true → WritesEmpty p) ∧
        (res.1.stillPlaying = true → Entry res.1) := by
  have hkeys : Meets (if s.frames % 6 = 0 then handleKeys fuel frame s else .ok s)
      (fun e => e = .deleteRow ∨ e = .drop ∧ fuel ≤ 20) Entry := by
    split_ifs
    · exact (handleKeys_meets fuel frame h).mono (fun e he => Or.inr he) fun _ h => h
    · exact h
  have hfall : ∀ s, Entry s →
      Meets (if s.frames % 20 = 0 then gravity fuel frame.random s else .ok (s, []))
        (fun e => e = .deleteRow ∨ e = .drop ∧ fuel ≤ 20) fun res =>
          (∀ p ∈ res.2, WritesEmpty p) ∧ InMap res.1 ∧
            (res.1.stillPlaying = true → Entry res.1) := by
    intro s h
    split_ifs
    · exact (gravity_meets fuel frame.random h).mono (fun e he => Or.inl he) fun _ h => h
    · exact ⟨by simp, h.inMap, fun _ => h⟩
  unfold spritesUpdate
  refine Meets.bind hkeys fun s₁ h₁ => Meets.bind (hfall s₁ h₁) ?_
  rintro ⟨s₂, puts⟩ ⟨hputs, hinMap, h₂⟩
  refine Meets.bind ((settle_meets fuel frame.random' hinMap h₂).mono (fun e he => Or.inl he)
    fun _ h => h) ?_
  rintro ⟨s₃, puts'⟩ ⟨hputs', h₃⟩
  refine ⟨fun p hp hplay => ?_, h₃⟩
  rcases List.mem_append.mp hp with hp | hp
  · exact hputs p hp
  · exact hputs' p hp hplay

/-! ## Runs -/

theorem start_meets (random : ℕ) : Meets (start random) (fun _ => False) fun s =>
    s.stillPlaying = true → Entry s :=
  (newBlock_meets random fun _ => ⟨0, rfl⟩).mono (fun _ h => h) fun _ h => h.2

theorem entry_of_reachable {s : State} (h : Reachable s) (hplay : s.stillPlaying = true) :
    Entry s := by
  obtain ⟨random, s₀, tr, hstart, hrun⟩ := h
  have hfirst : s₀.stillPlaying = true → Entry s₀ := (start_meets random).of_ok hstart
  refine hrun.invariant (I := fun s => s.stillPlaying = true → Entry s) hfirst ?_ hplay
  intro s₁ frame s₂ h₁ hstep hplay₂
  cases hstep with
  | @timer fuel _ _ s' puts hplay₁ hupdate =>
    have hmeets := spritesUpdate_meets fuel frame (h₁ hplay₁)
    rw [hupdate] at hmeets
    have h₂ : Entry s' := hmeets.2 hplay₂
    exact entry_of_fits h₂.kind h₂.shape h₂.fits h₂.noFullRow

/-- The first block is made without an error. Whenever `sprites_update` is entered while the game
goes on, the invariant holds, and the call does not leave the map; it can only fail to end, in
`delete_row`. If it ends, all blocks put while the game goes on are put on empty cells. -/
theorem sprites_update_safe {s : State} (h : Reachable s) (hplay : s.stillPlaying = true) :
    (∀ random, ∃ s₀, start random = .ok s₀) ∧ Entry s ∧
    ∀ fuel frame,
      (∀ fault, spritesUpdate fuel frame s = .error fault →
        fault ≠ .outOfMap ∧ (20 < fuel → fault = .deleteRow)) ∧
      ∀ s' puts, spritesUpdate fuel frame s = .ok (s', puts) →
        ∀ p ∈ puts, p.stillPlaying = true → WritesEmpty p := by
  have hentry := entry_of_reachable h hplay
  refine ⟨fun random => ?_, hentry, fun fuel frame => ⟨fun fault hfault => ?_, ?_⟩⟩
  · obtain ⟨s₀, hs₀, -⟩ := (start_meets random).exists_ok
    exact ⟨s₀, hs₀⟩
  · rcases (spritesUpdate_meets fuel frame hentry).of_error hfault with rfl | ⟨rfl, hfuel⟩
    · exact ⟨Fault.noConfusion, fun _ => rfl⟩
    · exact ⟨Fault.noConfusion, fun hlt => absurd hlt (by omega)⟩
  · intro s' puts hupdate
    exact ((spritesUpdate_meets fuel frame hentry).of_ok hupdate).1

/-- The state after a first frame in which the keys LEFT and SPACE are pressed: one block has been
put, and the invariant holds. -/
theorem sprites_update_safe_second : ∃ s, Reachable s ∧ s.frames = 1 ∧ s.map 2 19 = 41 ∧
    Entry s := by
  have hfirst : ∃ s₀, start 1 = .ok s₀ ∧ ∃ s₁ puts,
      spritesUpdate 30 ⟨true, false, false, true, false, 0, 0⟩ s₀ = .ok (s₁, puts) ∧
      s₀.stillPlaying = true ∧ s₁.stillPlaying = true ∧ s₁.frames = 0 ∧ s₁.map 2 19 = 41 :=
    ⟨_, rfl, _, _, rfl, rfl, rfl, rfl, rfl⟩
  obtain ⟨s₀, hstart, s₁, puts, hupdate, hplay₀, hplay₁, hframes, hcell⟩ := hfirst
  have hreach : Reachable { s₁ with frames := s₁.frames + 1 } :=
    ⟨1, s₀, _, hstart, Run.single (.timer hplay₀ hupdate)⟩
  refine ⟨_, hreach, congrArg (· + 1) hframes, hcell, (sprites_update_safe hreach hplay₁).2.1⟩

end CDevHws.Hw35
