import CDevHws.Hw35.Proofs.TetrisProofs

/-!
# Proofs: dropping a block

The loop of SPACE goes one row too far and steps back, and DOWN goes back if the block does not fit.
Both leave the block in the row above the first one in which it does not fit. There is such a row,
as the block has a filled cell: `made_block` sets four cells for every kind, and `new_block` makes
the first block before the loop of `main`.
-/

namespace CDevHws.Hw35

/-- The branch of DOWN is applied until it does not change `block_y` any more. -/
inductive SoftDropped : State → State → Prop where
  | stop {s s' : State} (hdown : softDrop s = .ok s') (hy : s'.blockY = s.blockY) :
      SoftDropped s s'
  | down {s s₁ s' : State} (hdown : softDrop s = .ok s₁) (hy : s₁.blockY ≠ s.blockY)
      (hrest : SoftDropped s₁ s') : SoftDropped s s'

theorem SoftDropped.unique {s s' s'' : State} (h : SoftDropped s s') (h' : SoftDropped s s'') :
    s' = s'' := by
  induction h with
  | stop hdown hy =>
    cases h' with
    | stop hdown' hy' => exact Except.ok.inj (hdown.symm.trans hdown')
    | down hdown' hy' hrest =>
      cases hdown.symm.trans hdown'
      exact absurd hy hy'
  | down hdown hy hrest ih =>
    cases h' with
    | stop hdown' hy' =>
      cases hdown.symm.trans hdown'
      exact absurd hy' hy
    | down hdown' hy' hrest' =>
      cases hdown.symm.trans hdown'
      exact ih hrest'

/-- The block one row below. -/
def below (s : State) : State := { s with blockY := s.blockY + 1 }

section fits

variable {s : State} (h : Fits s)
include h

theorem blockFit_below_of_not_fits (hnot : ¬ Fits (below s)) : blockFit (below s) = .ok false := by
  refine blockFit_of_not_fits (fun i j hfilled => ?_) hnot
  have hrow := (h.inMap i j hfilled).2.1
  show 0 ≤ s.blockY + 1 + j
  omega

theorem softDrop_of_fits (hbelow : Fits (below s)) : softDrop s = .ok (below s) := by
  unfold softDrop
  rw [blockFit_of_fits h]
  show (do if ← blockFit (below s) then return below s
           else return { below s with blockY := (below s).blockY - 1 } : Except Fault State) = _
  rw [blockFit_of_fits hbelow]
  rfl

theorem softDrop_of_not_fits (hbelow : ¬ Fits (below s)) : softDrop s = .ok s := by
  unfold softDrop
  rw [blockFit_of_fits h]
  show (do if ← blockFit (below s) then return below s
           else return { s with blockY := s.blockY + 1 - 1 } : Except Fault State) = _
  rw [blockFit_below_of_not_fits h hbelow, down_up]
  rfl

theorem dropLoop_of_fits (fuel : ℕ) : dropLoop (fuel + 1) s = dropLoop fuel (below s) := by
  conv_lhs => unfold dropLoop
  rw [blockFit_of_fits h]
  rfl

theorem dropLoop_of_not_fits (hbelow : ¬ Fits (below s)) (fuel : ℕ) :
    dropLoop (fuel + 2) s = .ok (below s) := by
  rw [dropLoop_of_fits h]
  unfold dropLoop
  rw [blockFit_below_of_not_fits h hbelow]
  rfl

end fits

/-- A block that does not fit one row below stays where it is. -/
theorem dropped_here {s : State} (h : Fits s) (hbelow : ¬ Fits (below s)) :
    SoftDropped s s ∧ ∀ fuel ≥ 2, dropLoop fuel s = .ok (below s) := by
  refine ⟨SoftDropped.stop (softDrop_of_not_fits h hbelow) rfl, fun fuel hfuel => ?_⟩
  obtain ⟨fuel, rfl⟩ := Nat.exists_eq_add_of_le' hfuel
  exact dropLoop_of_not_fits h hbelow fuel

/-- From every place in which the block fits, both ways of dropping lead to the same row; `n` is the
number of rows below the filled cell `(i, j)`. -/
theorem exists_dropped (n : ℕ) {s : State} (h : Fits s) {i j : Fin 4} (hfilled : s.block i j ≠ 0)
    (hrow : 19 - (s.blockY + j) ≤ n) : ∃ y, SoftDropped s { s with blockY := y } ∧
      ∀ fuel ≥ n + 2, dropLoop fuel s = .ok { s with blockY := y + 1 } := by
  have hy : (below s).blockY = s.blockY + 1 := rfl
  induction n generalizing s with
  | zero =>
    have hbelow : ¬ Fits (below s) := by
      intro hbelow
      have hlast := (hbelow.inMap i j hfilled).2.2
      omega
    exact ⟨s.blockY, dropped_here h hbelow⟩
  | succ n ih =>
    by_cases hbelow : Fits (below s)
    · obtain ⟨y, hsoft, hloop⟩ := ih hbelow hfilled (by omega) rfl
      have hdown := softDrop_of_fits h hbelow
      refine ⟨y, SoftDropped.down hdown (by omega) hsoft, fun fuel hfuel => ?_⟩
      obtain ⟨fuel, rfl⟩ := Nat.exists_eq_add_of_le' (Nat.le_trans (Nat.le_add_left 1 _) hfuel)
      rw [dropLoop_of_fits h]
      exact hloop fuel (by omega)
    · obtain ⟨hsoft, hloop⟩ := dropped_here h hbelow
      exact ⟨s.blockY, hsoft, fun fuel hfuel => hloop fuel (by omega)⟩

/-- The block of every state in which `sprites_update` is entered has a filled cell. -/
theorem exists_filled_of_reachable {s : State} (h : Reachable s) (hplay : s.stillPlaying = true) :
    ∃ i j, s.block i j ≠ 0 := by
  have hentry := entry_of_reachable h hplay
  obtain ⟨i, hi⟩ := exists_first_row hentry.kind
  rw [← hentry.shape] at hi
  exact ⟨i, 0, hi⟩

/-- For every map and every block that fits, with all filled cells in the rows 0 to 19: the branch
of SPACE ends and leaves the block where the branch of DOWN, applied again and again, leaves it. It
changes `block_y` only. -/
theorem hard_drop_agrees {s : State} (hfit : blockFit s = .ok true)
    (hrows : ∀ i j, s.block i j ≠ 0 → 0 ≤ s.blockY + j ∧ s.blockY + j ≤ 19)
    (hne : ∃ i j, s.block i j ≠ 0) : ∃ y, SoftDropped s { s with blockY := y } ∧
      (∀ s', SoftDropped s s' → s'.blockY = y) ∧
      ∃ bound, ∀ fuel ≥ bound, hardDrop fuel s = .ok { s with blockY := y } := by
  obtain ⟨i, j, hfilled⟩ := hne
  have hrow : 19 - (s.blockY + j) ≤ 19 := by
    have hfirst := (hrows i j hfilled).1
    omega
  obtain ⟨y, hsoft, hloop⟩ := exists_dropped 19 (fits_of_blockFit hfit) hfilled hrow
  refine ⟨y, hsoft, fun s' hs' => congrArg State.blockY (hs'.unique hsoft), 21, ?_⟩
  intro fuel hfuel
  unfold hardDrop
  rw [hloop fuel hfuel]
  show (Except.ok { s with blockY := y + 1 - 1 } : Except Fault State) = _
  rw [Int.add_sub_cancel]

/-- There is a ledge in the way of the block, and a gap in the last row below. -/
def ledge : State :=
  { madeBlock 4 .init with
    map := fun c r => if (c : ℕ) = 3 ∧ (r : ℕ) = 10 ∨ (r : ℕ) = 19 ∧ (c : ℕ) ≠ 4 then 1 else 0
    blockX := 3 }

/-- The block comes to rest on the ledge, nine rows below. -/
theorem hard_drop_agrees_ledge : hardDrop 30 ledge = .ok { ledge with blockY := 9 } ∧
    ∃ y, SoftDropped ledge { ledge with blockY := y } ∧
      (∀ s', SoftDropped ledge s' → s'.blockY = y) ∧
      ∃ bound, ∀ fuel ≥ bound, hardDrop fuel ledge = .ok { ledge with blockY := y } :=
  ⟨rfl, hard_drop_agrees rfl (by decide) ⟨0, 0, by decide⟩⟩

end CDevHws.Hw35
