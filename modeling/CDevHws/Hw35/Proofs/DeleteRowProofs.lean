import CDevHws.Hw35.Proofs.TetrisProofs
import Mathlib.Data.List.FinRange

/-!
# Proofs: the deletion of full rows

When a row is full, `delete_row` copies the rows above it down by one, but the topmost row, which it
copies to the second one, it never changes. So each deletion puts a copy of the topmost row on top,
where there should be an empty row; and if the topmost row is full itself, it is found full for
ever. The scan goes on one row below the deleted one, and this is row 20 after the last one.
-/

namespace CDevHws.Hw35

open Outcome

/-! ## The rows of a map -/

/-- A row of the map. -/
abbrev Row := Fin 10 → ℕ

/-- All cells of the row are filled. -/
def Full (row : Row) : Prop := ∀ c, row c ≠ 0

instance : DecidablePred Full := fun row => inferInstanceAs (Decidable (∀ c, row c ≠ 0))

/-- The rows of a map, from the topmost one on. -/
def rows (m : Map) : List Row := (List.finRange 20).map fun r c => m c r

/-- The number of full rows. -/
def fullRows (m : Map) : ℕ := (rows m).countP fun row => Full row

/-- The rows without the full ones, and a row `pad` on top for each of these. -/
def collapse (pad : Row) (l : List Row) : List Row :=
  List.replicate (l.countP fun row => Full row) pad ++ l.filter fun row => ¬ Full row

theorem length_rows (m : Map) : (rows m).length = 20 := by
  unfold rows
  rw [List.length_map, List.length_finRange]

theorem getElem_rows (m : Map) {r : ℕ} (hr : r < 20) {h : r < (rows m).length} :
    (rows m)[r] = fun c => m c ⟨r, hr⟩ := by
  unfold rows at h ⊢
  rw [List.getElem_map, List.getElem_finRange]
  rfl

theorem mem_rows {m : Map} {row : Row} : row ∈ rows m ↔ ∃ r, row = fun c => m c r := by
  unfold rows
  rw [List.mem_map]
  exact ⟨fun ⟨r, _, h⟩ => ⟨r, h.symm⟩, fun ⟨r, h⟩ => ⟨r, List.mem_finRange r, h.symm⟩⟩

theorem noFullRow_iff {m : Map} : NoFullRow m ↔ ∀ row ∈ rows m, ¬ Full row := by
  unfold NoFullRow Full
  constructor
  · intro h row hrow
    obtain ⟨r, rfl⟩ := mem_rows.mp hrow
    obtain ⟨c, hc⟩ := h r
    exact fun hfull => hfull c hc
  · intro h r
    simpa using h _ (mem_rows.mpr ⟨r, rfl⟩)

theorem fullRows_eq_zero_iff {m : Map} : fullRows m = 0 ↔ NoFullRow m := by
  unfold fullRows
  rw [noFullRow_iff, List.countP_eq_zero]
  simp

theorem collapse_of_noFullRow {m : Map} (h : NoFullRow m) (pad : Row) :
    collapse pad (rows m) = rows m := by
  have hzero := fullRows_eq_zero_iff.mpr h
  unfold fullRows at hzero
  unfold collapse
  rw [hzero, List.filter_eq_self.mpr fun row hrow => decide_eq_true (noFullRow_iff.mp h row hrow)]
  rfl

/-- If a full row is deleted and a row that is not full is put on top, there is one full row less,
and the rows collapse to the same. -/
theorem collapse_cons_eraseIdx {l : List Row} {i : ℕ} (hi : i < l.length) (hfull : Full l[i])
    {pad : Row} (hpad : ¬ Full pad) :
    (pad :: l.eraseIdx i).countP (fun row => Full row) + 1 = l.countP (fun row => Full row) ∧
      collapse pad (pad :: l.eraseIdx i) = collapse pad l := by
  have hsplit : l = l.take i ++ l[i] :: l.drop (i + 1) := by
    rw [List.getElem_cons_drop, List.take_append_drop]
  have hcount : (pad :: l.eraseIdx i).countP (fun row => Full row) + 1 =
      l.countP (fun row => Full row) := by
    conv_rhs => rw [hsplit]
    rw [List.countP_cons_of_neg (by simpa using hpad), List.eraseIdx_eq_take_drop_succ,
      List.countP_append, List.countP_append, List.countP_cons_of_pos (by simpa using hfull),
      Nat.add_assoc]
  have hfilter : (pad :: l.eraseIdx i).filter (fun row => ¬ Full row) =
      pad :: l.filter fun row => ¬ Full row := by
    conv_rhs => rw [hsplit]
    rw [List.filter_cons_of_pos (by simpa using hpad), List.eraseIdx_eq_take_drop_succ,
      List.filter_append, List.filter_append, List.filter_cons_of_neg (by simpa using hfull)]
  refine ⟨hcount, ?_⟩
  unfold collapse
  rw [hfilter, ← hcount, List.replicate_succ', List.append_assoc]
  rfl

/-! ## The loops -/

/-- Down to the row `i` every row is the one that was above it, but the topmost row stays. -/
theorem shiftRows_of_le {i : ℕ} (m : Map) (c : Fin 10) {r : Fin 20} (h : (r : ℕ) ≤ i) :
    shiftRows i m c r = m c ⟨r - 1, by omega⟩ := by
  induction i generalizing m with
  | zero =>
    have hr : (⟨r - 1, by omega⟩ : Fin 20) = r := Fin.ext (by simp only; omega)
    rw [hr]
    rfl
  | succ i ih =>
    rw [shiftRows]
    by_cases hr : (r : ℕ) = i + 1
    · rw [shiftRows_of_lt _ c (by omega)]
      unfold copyRow
      rw [dif_pos hr]
      exact congrArg (m c) (Fin.ext (by simp only; omega))
    · rw [ih _ (by omega)]
      unfold copyRow
      rw [dif_neg (by simp only; omega)]

/-- The row `i` is deleted, and there is a copy of the topmost row on top. -/
theorem rows_shiftRows (m : Map) {i : ℕ} (hi : i < 20) :
    rows (shiftRows i m) = (fun c => m c 0) :: (rows m).eraseIdx i := by
  have hlen := length_rows m
  refine List.ext_getElem ?_ fun r hr hr' => ?_
  · rw [length_rows, List.length_cons, List.length_eraseIdx_of_lt (by omega), hlen]
  · rw [length_rows] at hr
    rw [getElem_rows _ hr]
    cases r with
    | zero =>
      funext c
      exact shiftRows_of_le m c (Nat.zero_le i)
    | succ r =>
      rw [List.getElem_cons_succ, List.getElem_eraseIdx]
      split_ifs with hlt
      · rw [getElem_rows m (by omega)]
        funext c
        exact shiftRows_of_le m c (by simp only; omega)
      · rw [getElem_rows m hr]
        funext c
        exact shiftRows_of_lt m c (by simp only; omega)

theorem top_shiftRows (m : Map) (i : ℕ) (c : Fin 10) : shiftRows i m c 0 = m c 0 :=
  shiftRows_of_le m c (Nat.zero_le i)

theorem rowFull_eq_true_iff {m : Map} {i : ℤ} :
    rowFull m i = true ↔ ∃ r : Fin 20, (r : ℤ) = i ∧ Full fun c => m c r := by
  constructor
  · intro h
    by_cases hi : 0 ≤ i ∧ i < 20
    · have hr : (((⟨i.toNat, by omega⟩ : Fin 20) : ℕ) : ℤ) = i := Int.toNat_of_nonneg hi.1
      rw [← hr, rowFull_iff] at h
      exact ⟨_, hr, h⟩
    · unfold rowFull at h
      rw [dif_neg hi] at h
      cases h
  · rintro ⟨r, rfl, h⟩
    exact (rowFull_iff m r).mpr h

/-- A round of the loop that finds a full row below the topmost one: there is one full row less, and
the rows collapse to the same. -/
theorem collapse_shiftRows {m : Map} (htop : ¬ Full fun c => m c 0) {r : Fin 20}
    (hfull : Full fun c => m c r) : fullRows (shiftRows r m) + 1 = fullRows m ∧
      collapse (fun c => m c 0) (rows (shiftRows r m)) = collapse (fun c => m c 0) (rows m) := by
  have hlen : (r : ℕ) < (rows m).length := by
    rw [length_rows]
    exact r.isLt
  have hrow : Full (rows m)[(r : ℕ)] := by
    rw [getElem_rows m r.isLt]
    exact hfull
  unfold fullRows
  rw [rows_shiftRows m r.isLt]
  exact collapse_cons_eraseIdx hlen hrow htop

/-- If the topmost row is not full, the loop ends, with the rows collapsed and 100 points for each
full row. -/
theorem deleteFrom_collapse (fuel : ℕ) {m : Map} (score : ℕ) {i : ℤ}
    (htop : ¬ Full fun c => m c 0) (hlow : -1 ≤ i) (hhigh : i ≤ 20)
    (hscan : ∀ r : Fin 20, i < r → ∃ c, m c r = 0) :
    Meets (deleteFrom fuel m score i)
      (fun e => e = .deleteRow ∧ (fuel : ℤ) ≤ i + 1 + 2 * fullRows m) fun res =>
        rows res.1 = collapse (fun c => m c 0) (rows m) ∧ res.2 = score + 100 * fullRows m := by
  induction fuel generalizing m score i with
  | zero => exact ⟨rfl, by omega⟩
  | succ fuel ih =>
    unfold deleteFrom
    by_cases hi : i ≥ 0
    · rw [if_pos hi]
      by_cases hfull : rowFull m i = true
      · rw [if_pos hfull]
        obtain ⟨r, rfl, hrow⟩ := rowFull_eq_true_iff.mp hfull
        obtain ⟨hcount, hcollapse⟩ := collapse_shiftRows htop hrow
        have htop' : (fun c => shiftRows r m c 0) = fun c => m c 0 :=
          funext fun c => top_shiftRows m r c
        rw [Int.toNat_natCast]
        refine (ih (m := shiftRows r m) (score + 100) (i := (r : ℤ) + 2 - 1) (htop' ▸ htop)
          (by omega) (by omega) fun r' hr' => ?_).mono ?_ ?_
        · obtain ⟨c, hc⟩ := hscan r' (by omega)
          exact ⟨c, (shiftRows_of_lt m c (by omega)).trans hc⟩
        · rintro e ⟨he, hle⟩
          exact ⟨he, by omega⟩
        · rintro res ⟨hrows, hscore⟩
          rw [htop', hcollapse] at hrows
          exact ⟨hrows, by omega⟩
      · rw [if_neg hfull]
        refine (ih (m := m) score (i := i - 1) htop (by omega) (by omega) fun r hr => ?_).mono ?_
          fun _ h => h
        · by_cases heq : (r : ℤ) = i
          · rw [← heq, rowFull_iff] at hfull
            simpa using hfull
          · exact hscan r (by omega)
        · rintro e ⟨he, hle⟩
          exact ⟨he, by omega⟩
    · rw [if_neg hi]
      have hnone : NoFullRow m := fun r => hscan r (by omega)
      rw [meets_ok, collapse_of_noFullRow hnone, fullRows_eq_zero_iff.mpr hnone]
      exact ⟨rfl, rfl⟩

/-- If the topmost row is full, the loop does not end. -/
theorem deleteFrom_of_top_full (fuel : ℕ) {m : Map} (score : ℕ) {i : ℤ} (htop : ∀ c, m c 0 ≠ 0)
    (hi : 0 ≤ i) : deleteFrom fuel m score i = .error .deleteRow := by
  induction fuel generalizing m score i with
  | zero => rfl
  | succ fuel ih =>
    unfold deleteFrom
    rw [if_pos hi]
    by_cases hfull : rowFull m i = true
    · rw [if_pos hfull]
      refine ih _ (fun c => ?_) (by omega)
      rw [top_shiftRows]
      exact htop c
    · rw [if_neg hfull]
      -- the row `i` is not the topmost one, which is full
      have hne : i ≠ 0 := fun h => hfull (rowFull_eq_true_iff.mpr ⟨0, h.symm, htop⟩)
      exact ih _ htop (by omega)

/-! ## The block in the map -/

/-- The cell `p` of the block lies on the cell of the map in the column `c` and the row `r`. -/
def Covers (s : State) (c : Fin 10) (r : Fin 20) (p : Fin 4 × Fin 4) : Prop :=
  s.block p.1 p.2 ≠ 0 ∧ s.blockX + p.1 = c ∧ s.blockY + p.2 = r

instance (s : State) (c : Fin 10) (r : Fin 20) : DecidablePred (Covers s c r) :=
  fun _ => inferInstanceAs (Decidable (_ ∧ _ ∧ _))

/-- A map with the first `l` cells of the block written into it. -/
def placedFrom (s : State) (m : Map) (l : List (Fin 4 × Fin 4)) : Map := fun c r =>
  match l.find? fun p => Covers s c r p with
  | some p => s.block p.1 p.2
  | none => m c r

/-- The map with the block's cells written into it. -/
def placed (s : State) : Map := placedFrom s s.map cells

theorem Covers.unique {s : State} {c : Fin 10} {r : Fin 20} {p q : Fin 4 × Fin 4}
    (hp : Covers s c r p) (hq : Covers s c r q) : p = q := by
  obtain ⟨-, hpc, hpr⟩ := hp
  obtain ⟨-, hqc, hqr⟩ := hq
  exact Prod.ext (Fin.ext (by omega)) (Fin.ext (by omega))

/-- One cell is written. -/
theorem placedFrom_cons (s : State) (m : Map) (p : Fin 4 × Fin 4) (l : List (Fin 4 × Fin 4)) :
    placedFrom s m (p :: l) =
      placedFrom s (fun c r => if Covers s c r p then s.block p.1 p.2 else m c r) l := by
  funext c r
  unfold placedFrom
  by_cases hp : Covers s c r p
  · rw [List.find?_cons_of_pos (by simpa using hp)]
    cases hfind : l.find? fun q => Covers s c r q with
    | none => exact (if_pos hp).symm
    | some q =>
      have hq : Covers s c r q := by simpa using List.find?_some hfind
      rw [hp.unique hq]
  · rw [List.find?_cons_of_neg (by simpa using hp)]
    cases l.find? fun q => Covers s c r q with
    | none => exact (if_neg hp).symm
    | some q => rfl

theorem writeBlock_eq {s : State} (h : InMap s) : writeBlock s = .ok (placed s) := by
  have hloop : ∀ (l : List (Fin 4 × Fin 4)) (m : Map), l.foldlM (fun m p =>
      if s.block p.1 p.2 ≠ 0 then m.write (s.blockX + p.1) (s.blockY + p.2) (s.block p.1 p.2)
      else .ok m) m = .ok (placedFrom s m l) := by
    intro l
    induction l with
    | nil => exact fun m => rfl
    | cons p l ih =>
      intro m
      rw [List.foldlM_cons, placedFrom_cons, ← ih]
      by_cases hfilled : s.block p.1 p.2 ≠ 0
      · obtain ⟨hx, hy⟩ := h p.1 p.2 hfilled
        have hmap : (0 ≤ s.blockX + p.1 ∧ s.blockX + p.1 < 10) ∧ 0 ≤ s.blockY + p.2 ∧
            s.blockY + p.2 < 20 := ⟨⟨hx.1, by omega⟩, hy.1, by omega⟩
        simp only [if_pos hfilled]
        unfold Map.write
        rw [if_pos hmap]
        refine congrArg (List.foldlM _ · l) ?_
        funext c r
        refine if_congr ?_ rfl rfl
        unfold Covers
        exact ⟨fun h => ⟨hfilled, h.1.symm, h.2.symm⟩, fun h => ⟨h.2.1.symm, h.2.2.symm⟩⟩
      · simp only [if_neg hfilled]
        refine congrArg (List.foldlM _ · l) ?_
        funext c r
        exact (if_neg fun h : Covers s c r p => hfilled h.1).symm
  exact hloop cells s.map

theorem putBlock_eq (fuel : ℕ) {s : State} (h : InMap s) :
    putBlock fuel s = deleteRow fuel { s with map := placed s } := by
  unfold putBlock
  rw [writeBlock_eq h]
  rfl

theorem deleteRow_eq_ok_iff {fuel : ℕ} {s s' : State} : deleteRow fuel s = .ok s' ↔
    ∃ m score, deleteFrom fuel s.map s.score 19 = .ok (m, score) ∧
      s' = { s with map := m, score := score } := by
  unfold deleteRow
  cases deleteFrom fuel s.map s.score 19 with
  | error e => exact ⟨fun h => (by cases h), fun ⟨_, _, h, _⟩ => (by cases h)⟩
  | ok res =>
    constructor
    · intro h
      cases h
      exact ⟨res.1, res.2, rfl, rfl⟩
    · rintro ⟨m, score, h, rfl⟩
      cases h
      rfl

/-! ## Putting a block -/

/-- What should be there after the block is put: the full rows are deleted, with an empty row on top
and 100 points for each of them, and nothing else is changed. -/
structure Cleared (s s' : State) : Prop where
  rows : rows s'.map = List.replicate (fullRows (placed s)) (fun _ => 0) ++
    (rows (placed s)).filter fun row => ¬ Full row
  score : s'.score = s.score + 100 * fullRows (placed s)
  frame : s' = { s with map := s'.map, score := s'.score }

/-- If the topmost row is not full, `put_block` returns. -/
theorem putBlock_collapse {s : State} (h : InMap s) (htop : ¬ Full fun c => placed s c 0)
    (fuel : ℕ) : Meets (putBlock fuel s)
      (fun e => e = .deleteRow ∧ fuel ≤ 20 + 2 * fullRows (placed s)) fun s' =>
        rows s'.map = collapse (fun c => placed s c 0) (rows (placed s)) ∧
          s'.score = s.score + 100 * fullRows (placed s) ∧
          s' = { s with map := s'.map, score := s'.score } := by
  rw [putBlock_eq fuel h]
  unfold deleteRow
  have hloop := deleteFrom_collapse fuel s.score (i := 19) htop (by omega) (by omega)
    fun r hr => by omega
  refine Meets.bind (hloop.mono ?_ fun _ h => h) ?_
  · rintro e ⟨he, hle⟩
    exact ⟨he, by omega⟩
  · rintro ⟨m, score⟩ ⟨hrows, hscore⟩
    exact ⟨hrows, hscore, rfl⟩

theorem putBlock_of_top_full {s : State} (h : InMap s) (htop : ∀ c, placed s c 0 ≠ 0)
    (fuel : ℕ) : ¬ ∃ s', putBlock fuel s = .ok s' := by
  rintro ⟨s', hput⟩
  rw [putBlock_eq fuel h] at hput
  obtain ⟨m, score, hloop, -⟩ := deleteRow_eq_ok_iff.mp hput
  rw [deleteFrom_of_top_full fuel s.score htop (by omega)] at hloop
  cases hloop

/-- The rows collapse to the right ones if and only if no row is full or the row on top is empty. -/
theorem collapse_eq_iff (m : Map) (pad : Row) :
    collapse pad (rows m) = List.replicate (fullRows m) (fun _ => 0) ++
        (rows m).filter (fun row => ¬ Full row) ↔
      NoFullRow m ∨ pad = fun _ => 0 := by
  rw [← fullRows_eq_zero_iff]
  unfold collapse
  rw [List.append_left_inj]
  exact List.replicate_right_inj'

/-- For every map and every block that fits: what `put_block` leaves when it returns is right if and
only if, in the map with the block, no row is full, or the topmost row is empty, or the topmost row
is full and `put_block` does not return. -/
theorem row_clearing_iff {s : State} (hfit : blockFit s = .ok true) :
    (∀ fuel s', putBlock fuel s = .ok s' → Cleared s s') ↔
      NoFullRow (placed s) ∨ (∀ c, placed s c 0 = 0) ∨ ∀ c, placed s c 0 ≠ 0 := by
  have hmap := (fits_of_blockFit hfit).inMap
  by_cases htop : Full fun c => placed s c 0
  · refine iff_of_true (fun fuel s' hput => ?_) (Or.inr (Or.inr htop))
    exact absurd ⟨s', hput⟩ (putBlock_of_top_full hmap htop fuel)
  have hspec := putBlock_collapse hmap htop
  have hempty : (fun c => placed s c 0) = (fun _ => 0) ↔ ∀ c, placed s c 0 = 0 := funext_iff
  have htop' : ¬ ∀ c, placed s c 0 ≠ 0 := htop
  rw [← or_assoc, or_iff_left htop', ← hempty, ← collapse_eq_iff]
  constructor
  · intro hall
    -- with enough fuel it returns
    cases hput : putBlock (21 + 2 * fullRows (placed s)) s with
    | error e =>
      have hfuel := ((hspec _).of_error hput).2
      omega
    | ok s' => exact ((hspec _).of_ok hput).1.symm.trans (hall _ s' hput).rows
  · intro hcollapse fuel s' hput
    obtain ⟨hrows, hscore, hframe⟩ := (hspec fuel).of_ok hput
    exact ⟨hrows.trans hcollapse, hscore, hframe⟩

/-- Both of the last two rows lack two cells, which the block fills, and a cell lies on them. -/
def lastGap : State :=
  { madeBlock 2 .init with
    map := fun c r => if 18 ≤ (r : ℕ) ∧ (c : ℕ) < 8 ∨ (r : ℕ) = 17 ∧ (c : ℕ) = 0 then 1 else 0
    blockX := 8
    blockY := 18 }

/-- Two rows are deleted, and the cell on them comes down to the last row. -/
theorem row_clearing_two_rows : ∃ s', putBlock 30 lastGap = .ok s' ∧ s'.score = 200 ∧
    s'.map 0 19 = 1 ∧ s'.map 1 19 = 0 ∧ Cleared lastGap s' :=
  ⟨_, rfl, rfl, rfl, rfl, (row_clearing_iff rfl).mpr (Or.inr (Or.inl (by decide))) 30 _ rfl⟩

/-- The first column is filled up to the top, and the block fills the last row. -/
def tallColumn : State :=
  { madeBlock 17 .init with
    map := fun c r => if c = 0 ∨ r = 19 ∧ c ≠ 9 then 1 else 0
    blockX := 8
    blockY := 16 }

/-- The last row is deleted, but there is no empty row on top. -/
theorem row_clearing_fails : NoFullRow tallColumn.map ∧ blockFit tallColumn = .ok true ∧
    ∃ s', putBlock 30 tallColumn = .ok s' ∧ s'.map 0 0 = 1 ∧ ¬ Cleared tallColumn s' := by
  have hrows : NoFullRow tallColumn.map := by
    unfold NoFullRow
    decide
  refine ⟨hrows, rfl, _, rfl, rfl, fun hcleared => ?_⟩
  have hone : fullRows (placed tallColumn) = 1 := by decide +kernel
  have htop := congrArg List.head? hcleared.rows
  rw [hone] at htop
  exact absurd (congrFun (Option.some.inj htop) 0) Nat.one_ne_zero

/-- For every map and every block that fits: `put_block` returns if and only if the topmost row,
with the block in it, is not full. -/
theorem put_block_returns_iff {s : State} (hfit : blockFit s = .ok true) :
    (∃ fuel s', putBlock fuel s = .ok s') ↔ ∃ c, placed s c 0 = 0 := by
  have hmap := (fits_of_blockFit hfit).inMap
  constructor
  · rintro ⟨fuel, s', hput⟩
    by_contra htop
    exact putBlock_of_top_full hmap (not_exists.mp htop) fuel ⟨s', hput⟩
  · rintro ⟨c, hc⟩
    have htop : ¬ Full fun c => placed s c 0 := fun hfull => hfull c hc
    have hspec := putBlock_collapse hmap htop (21 + 2 * fullRows (placed s))
    refine ⟨21 + 2 * fullRows (placed s), ?_⟩
    obtain ⟨s', hput, -⟩ := (hspec.mono (fun e he => by omega) fun _ h => h).exists_ok
    exact ⟨s', hput⟩

theorem put_block_returns_two_rows : fullRows (placed lastGap) = 2 ∧
    ∃ fuel s', putBlock fuel lastGap = .ok s' :=
  ⟨by decide +kernel, (put_block_returns_iff rfl).mpr ⟨0, by decide⟩⟩

/-- Six cells of the topmost row are filled, and the block is on the other four. -/
def topRow : State :=
  { madeBlock 7 .init with map := fun c r => if r = 0 ∧ c < 6 then 1 else 0, blockX := 6 }

theorem put_block_hangs : NoFullRow topRow.map ∧ blockFit topRow = .ok true ∧
    ¬ ∃ fuel s', putBlock fuel topRow = .ok s' := by
  have hfit : blockFit topRow = .ok true := rfl
  have hrows : NoFullRow topRow.map := by
    unfold NoFullRow
    decide
  refine ⟨hrows, hfit, ?_⟩
  rintro ⟨fuel, hput⟩
  exact putBlock_of_top_full (fits_of_blockFit hfit).inMap (by decide) fuel hput

/-! ## The accesses of `delete_row` -/

theorem mem_shiftAccesses_of_ne {i : ℕ} {m : Map} {c : Fin 10} {r : Fin 20}
    (hne : shiftRows i m c r ≠ m c r) : ((c : ℤ), (r : ℤ)) ∈ shiftAccesses i := by
  induction i generalizing m with
  | zero => exact absurd rfl hne
  | succ i ih =>
    rw [shiftAccesses, List.mem_append, List.mem_flatMap]
    by_cases hr : (r : ℕ) = i + 1
    · left
      refine ⟨c, List.mem_finRange c, List.mem_cons_of_mem _ (List.mem_singleton.mpr ?_)⟩
      rw [hr]
      rfl
    · right
      have hcopy : copyRow i m c r = m c r := dif_neg hr
      rw [shiftRows, ← hcopy] at hne
      exact ih hne

/-- Every cell that `delete_row` changes is accessed. -/
theorem mem_deleteAccesses_of_ne {fuel : ℕ} {m m' : Map} {score score' : ℕ} {i : ℤ}
    (h : deleteFrom fuel m score i = .ok (m', score')) {c : Fin 10} {r : Fin 20}
    (hne : m' c r ≠ m c r) : ((c : ℤ), (r : ℤ)) ∈ deleteAccesses fuel m i := by
  induction fuel generalizing m score i with
  | zero => cases h
  | succ fuel ih =>
    unfold deleteFrom at h
    unfold deleteAccesses
    by_cases hpos : i ≥ 0
    · rw [if_pos hpos] at h ⊢
      refine List.mem_append_right _ ?_
      by_cases hfull : rowFull m i = true
      · rw [if_pos hfull] at h ⊢
        by_cases hshift : shiftRows i.toNat m c r = m c r
        · exact List.mem_append_right _ (ih h (hshift ▸ hne))
        · exact List.mem_append_left _ (mem_shiftAccesses_of_ne hshift)
      · rw [if_neg hfull] at h ⊢
        exact ih h hne
    · rw [if_neg hpos] at h
      cases h
      exact absurd rfl hne

/-- The access is inside the map. -/
def Inside (p : ℤ × ℤ) : Prop := (0 ≤ p.1 ∧ p.1 ≤ 9) ∧ 0 ≤ p.2 ∧ p.2 ≤ 19

theorem inside_of_mem_shiftAccesses {i : ℕ} (hi : i ≤ 19) {p : ℤ × ℤ}
    (hp : p ∈ shiftAccesses i) : Inside p := by
  induction i with
  | zero => exact absurd hp List.not_mem_nil
  | succ i ih =>
    rw [shiftAccesses, List.mem_append, List.mem_flatMap] at hp
    rcases hp with ⟨k, -, hp⟩ | hp
    · simp only [List.mem_cons, List.not_mem_nil, or_false] at hp
      rcases hp with rfl | rfl
      · exact ⟨⟨by simp, by simp only; omega⟩, by simp, by simp only; omega⟩
      · exact ⟨⟨by simp, by simp only; omega⟩, by simp only; omega, by simp only; omega⟩
    · exact ih (by omega) hp

theorem inside_of_mem_row {i : ℤ} (hi : 0 ≤ i ∧ i ≤ 19) {p : ℤ × ℤ}
    (hp : p ∈ (List.finRange 10).map fun j : Fin 10 => ((j : ℤ), i)) : Inside p := by
  obtain ⟨j, -, rfl⟩ := List.mem_map.mp hp
  exact ⟨⟨by simp, by simp only; omega⟩, hi⟩

/-- If the last row is not full, the index of the scan never gets beyond it. -/
theorem inside_of_mem_deleteAccesses (fuel : ℕ) {m : Map} {i : ℤ} (hlast : ¬ Full fun c => m c 19)
    (hi : i ≤ 19) {p : ℤ × ℤ} (hp : p ∈ deleteAccesses fuel m i) : Inside p := by
  induction fuel generalizing m i with
  | zero => exact absurd hp List.not_mem_nil
  | succ fuel ih =>
    unfold deleteAccesses at hp
    by_cases hpos : i ≥ 0
    · rw [if_pos hpos, List.mem_append] at hp
      rcases hp with hp | hp
      · exact inside_of_mem_row ⟨hpos, hi⟩ hp
      by_cases hfull : rowFull m i = true
      · rw [if_pos hfull, List.mem_append] at hp
        rcases hp with hp | hp
        · exact inside_of_mem_shiftAccesses (by omega) hp
        · obtain ⟨r, rfl, hrow⟩ := rowFull_eq_true_iff.mp hfull
          -- the full row is not the last one, which stays as it is
          have hne : (r : ℕ) ≠ 19 := fun h => hlast ((Fin.ext h : r = 19) ▸ hrow)
          have hstay : (fun c => shiftRows (r : ℤ).toNat m c 19) = fun c => m c 19 :=
            funext fun c => shiftRows_of_lt m c (by simp only [Int.toNat_natCast]; omega)
          exact ih (hstay ▸ hlast) (by omega) hp
      · rw [if_neg hfull] at hp
        exact ih hlast (by omega) hp
    · rw [if_neg hpos] at hp
      exact absurd hp List.not_mem_nil

/-- For every map: all accesses of `delete_row` are inside the map if and only if the last row is
not full. -/
theorem accesses_inside_iff (m : Map) :
    (∀ fuel, ∀ p ∈ deleteAccesses fuel m 19, Inside p) ↔ ∃ c, m c 19 = 0 := by
  have hlast : (∃ c, m c 19 = 0) ↔ ¬ Full fun c => m c 19 := by
    unfold Full
    simp
  rw [hlast]
  constructor
  · intro hall hfull
    have hrow : rowFull m 19 = true := rowFull_eq_true_iff.mpr ⟨19, rfl, hfull⟩
    have hmem : ((0, 20) : ℤ × ℤ) ∈ deleteAccesses 2 m 19 := by
      unfold deleteAccesses
      rw [if_pos (by decide), if_pos hrow]
      refine List.mem_append_right _ (List.mem_append_right _ ?_)
      unfold deleteAccesses
      rw [if_pos (by decide)]
      exact List.mem_append_left _ (by decide)
    exact absurd (hall 2 _ hmem).2.2 (by decide)
  · exact fun h fuel p hp => inside_of_mem_deleteAccesses fuel h (Int.le_refl 19) hp

/-- The last row is full, and the scan goes on in the row 20. -/
theorem accesses_outside : ∃ p ∈ deleteAccesses 2 (fun _ r => if r = 19 then 1 else 0) 19,
    ¬ Inside p :=
  ⟨(0, 20), by decide +kernel, fun h => absurd h.2.2 (by decide)⟩

end CDevHws.Hw35
