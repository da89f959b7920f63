import CDevHws.Hw35.Proofs.GameProofs
import Mathlib.Data.List.ProdSigma

/-!
# Proofs: the picture of a game

The values of the filled cells are the numbers of sprites, and they come from `made_block` alone. So
`sprites_draw` finds all sprites in the table, in every state that the game comes to.
-/

namespace CDevHws.Hw35

open Outcome

/-! ## The values of cells -/

/-- The greatest value that `made_block` writes. -/
abbrev maxValue : ℕ := 205

theorem shape_eq_nil {kind : ℕ} (h : 37 < kind) : shape kind = [] := by
  unfold shape
  split <;> first | rfl | omega

theorem blockOf_le (kind : ℕ) (i j : Fin 4) : blockOf kind i j ≤ maxValue := by
  by_cases hkind : 37 < kind
  · unfold blockOf
    rw [shape_eq_nil hkind]
    exact Nat.zero_le _
  · have hall : ∀ kind < 38, ∀ i j, blockOf kind i j ≤ maxValue := by decide
    exact hall kind (by omega) i j

/-- All values in the map are at most those of `made_block`. -/
def MapBounded (m : Map) : Prop := ∀ c r, m c r ≤ maxValue

theorem shiftRows_bounded {m : Map} (h : MapBounded m) (i : ℕ) : MapBounded (shiftRows i m) := by
  intro c r
  by_cases hr : i < r
  · rw [shiftRows_of_lt m c hr]
    exact h c r
  · rw [shiftRows_of_le m c (Nat.le_of_not_lt hr)]
    exact h c _

theorem deleteFrom_bounded (fuel : ℕ) : ∀ {m : Map} (score : ℕ) (i : ℤ), MapBounded m →
    Meets (deleteFrom fuel m score i) (fun _ => True) fun res => MapBounded res.1 := by
  induction fuel with
  | zero => exact fun score i h => trivial
  | succ fuel ih =>
    intro m score i h
    unfold deleteFrom
    split_ifs
    · exact ih _ _ (shiftRows_bounded h _)
    · exact ih _ _ h
    · exact h

/-- The block has been made by `made_block`, and the map is bounded. -/
structure Coloured (s : State) : Prop where
  map : MapBounded s.map
  block : ∃ kind, s.block = blockOf kind

theorem Coloured.block_le {s : State} (h : Coloured s) (i j : Fin 4) : s.block i j ≤ maxValue := by
  obtain ⟨kind, hkind⟩ := h.block
  rw [hkind]
  exact blockOf_le kind i j

theorem Coloured.of_kept {s s' : State} (h : Coloured s) (hkept : Kept s s') : Coloured s' := by
  refine ⟨hkept.map ▸ h.map, ?_⟩
  rcases hkept.block with hsame | hmade
  · rw [hsame]
    exact h.block
  · exact hmade

theorem writeBlock_bounded {s : State} (h : Coloured s) :
    Meets (writeBlock s) (fun _ => True) MapBounded := by
  refine meets_foldlM ?_ h.map
  rintro m hm ⟨i, j⟩ -
  simp only
  split_ifs
  · unfold Map.write
    split_ifs
    · intro c r
      simp only
      split_ifs
      · exact h.block_le i j
      · exact hm c r
    · trivial
  · exact hm

theorem putAndNew_coloured (fuel random : ℕ) {s : State} (h : Coloured s) :
    Meets (putAndNew fuel random s) (fun _ => True) fun res => Coloured res.1 := by
  have hput : Meets (putBlock fuel s) (fun _ => True) fun s' => MapBounded s'.map := by
    refine Meets.bind (writeBlock_bounded h) fun map hmap => ?_
    exact Meets.bind (deleteFrom_bounded fuel _ _ hmap) fun res hres => hres
  have hnew : ∀ s', MapBounded s'.map → Meets (newBlock random s') (fun _ => True) Coloured := by
    intro s' hs'
    refine Meets.bind (meets_any _) fun b _ => ?_
    cases b <;> exact ⟨hs', _, rfl⟩
  exact Meets.bind hput fun s₁ hs₁ => Meets.bind (hnew s₁ hs₁) fun s₂ hs₂ => hs₂

theorem spritesUpdate_coloured (fuel : ℕ) (frame : Frame) {s : State} (h : Coloured s) :
    Meets (spritesUpdate fuel frame s) (fun _ => True) fun res => Coloured res.1 := by
  have hkeys : Meets (if s.frames % 6 = 0 then handleKeys fuel frame s else .ok s)
      (fun _ => True) Coloured := by
    split_ifs
    · exact (handleKeys_keeps fuel frame s).mono (fun _ h => h) fun _ => h.of_kept
    · exact h
  have hgravity : ∀ s', Coloured s' → Meets (gravity fuel frame.random s') (fun _ => True)
      fun res => Coloured res.1 := by
    intro s' h'
    refine Meets.bind (meets_any _) fun b _ => ?_
    cases b with
    | true => exact h'.of_kept (moved s' _ _)
    | false => exact putAndNew_coloured fuel _ (h'.of_kept (moved s' _ _))
  have hsettle : ∀ s', Coloured s' → Meets (settle fuel frame.random' s') (fun _ => True)
      fun res => Coloured res.1 := by
    intro s' h'
    refine Meets.bind (meets_any _) fun b _ => ?_
    cases b with
    | true => exact h'
    | false => exact putAndNew_coloured fuel _ h'
  refine Meets.bind hkeys fun s₁ h₁ => ?_
  have hfall : Meets (if s₁.frames % 20 = 0 then gravity fuel frame.random s₁ else .ok (s₁, []))
      (fun _ => True) fun res => Coloured res.1 := by
    split_ifs
    · exact hgravity s₁ h₁
    · exact h₁
  refine Meets.bind hfall fun res₂ h₂ => ?_
  exact Meets.bind (hsettle res₂.1 h₂) fun res₃ h₃ => h₃

/-! ## The place of the block -/

theorem settle_inMap (fuel random : ℕ) {s : State} (h : InMap s) :
    Meets (settle fuel random s) (fun _ => True) fun res => InMap res.1 := by
  refine Meets.bind (meets_any _) fun b _ => ?_
  cases b with
  | true => exact h
  | false => exact (putAndNew_meets fuel random h).mono (fun _ _ => trivial) fun _ hres => hres.2.1

theorem spritesUpdate_inMap (fuel : ℕ) (frame : Frame) {s : State} (h : Entry s) :
    Meets (spritesUpdate fuel frame s) (fun _ => True) fun res => InMap res.1 := by
  have hkeys : Meets (if s.frames % 6 = 0 then handleKeys fuel frame s else .ok s)
      (fun _ => True) Entry := by
    split_ifs
    · exact (handleKeys_meets fuel frame h).mono (fun _ _ => trivial) fun _ h => h
    · exact h
  refine Meets.bind hkeys fun s₁ h₁ => ?_
  have hfall : Meets (if s₁.frames % 20 = 0 then gravity fuel frame.random s₁ else .ok (s₁, []))
      (fun _ => True) fun res => InMap res.1 := by
    split_ifs
    · exact (gravity_meets fuel _ h₁).mono (fun _ _ => trivial) fun _ hres => hres.2.1
    · exact h₁.inMap
  refine Meets.bind hfall fun res₂ h₂ => ?_
  exact Meets.bind (settle_inMap fuel _ h₂) fun res₃ h₃ => h₃

/-- What holds of every state of the game, also of the last one. -/
theorem played_sound {s : State} {puts : List State} (h : Played s puts) :
    Coloured s ∧ InMap s := by
  induction h with
  | @start random s hstart =>
    have hblank : Coloured .init := ⟨fun _ _ => Nat.zero_le _, 0, rfl⟩
    have hcoloured : Meets (start random) (fun _ => True) Coloured := by
      refine Meets.bind (meets_any _) fun b _ => ?_
      cases b <;> exact ⟨hblank.map, _, rfl⟩
    have hinMap := (newBlock_meets random fun _ => ⟨0, rfl⟩).of_ok hstart
    exact ⟨hcoloured.of_ok hstart, hinMap.1⟩
  | @frame fuel frame s s' puts puts' hplayed hplay hupdate ih =>
    have hentry := (played_entry hplayed hplay).1
    have hcoloured : Coloured s' := (spritesUpdate_coloured fuel frame ih.1).of_ok hupdate
    have hinMap : InMap s' := (spritesUpdate_inMap fuel frame hentry).of_ok hupdate
    exact ⟨⟨hcoloured.map, hcoloured.block⟩, hinMap⟩

/-! ## What is drawn -/

theorem mem_drawMap {m : Map} {d : Drawn} :
    d ∈ drawMap m ↔ ∃ i j, m i j ≠ 0 ∧ d = drawCell (m i j) i j := by
  unfold drawMap
  simp only [List.mem_flatMap, List.mem_finRange, true_and, List.mem_ite_nil_right,
    List.mem_singleton]

theorem mem_drawBlock {s : State} {d : Drawn} : d ∈ drawBlock s ↔ ∃ i j, s.block i j ≠ 0 ∧
    d = drawCell (s.block i j) (i + s.blockX) (j + s.blockY) := by
  unfold drawBlock
  simp only [List.mem_flatMap, List.mem_ite_nil_right, List.mem_singleton]
  constructor
  · rintro ⟨⟨i, j⟩, -, hfilled, hd⟩
    exact ⟨i, j, hfilled, hd⟩
  · rintro ⟨i, j, hfilled, hd⟩
    exact ⟨(i, j), mem_cells i j, hfilled, hd⟩

/-- A sprite of the table that is drawn inside the border. -/
def Drawn.Inside (d : Drawn) : Prop :=
  (d.sprite.1 < pixmapW ∧ d.sprite.2 < pixmapH) ∧
    (startX * pix ≤ d.position.1 ∧ d.position.1 + pix ≤ (startX + boxW) * pix) ∧
      startY * pix ≤ d.position.2 ∧ d.position.2 + pix ≤ (startY + boxH) * pix

theorem drawCell_inside {v : ℕ} (hv : v ≤ maxValue) {x y : ℤ} (hx : 0 ≤ x ∧ x ≤ 9)
    (hy : 0 ≤ y ∧ y ≤ 19) : (drawCell v x y).Inside := by
  unfold maxValue at hv
  simp only [drawCell, Drawn.Inside, pixmapW, pixmapH, startX, startY, pix, boxW, boxH]
  omega

theorem drawCell_position {v v' : ℕ} {x x' y y' : ℤ} :
    (drawCell v x y).position = (drawCell v' x' y').position ↔ x = x' ∧ y = y' := by
  simp only [drawCell, Prod.mk.injEq, startX, startY, pix]
  omega

theorem flatMap_if {α β : Type} (l : List α) {p : α → Prop} [DecidablePred p] {f : α → β} :
    (l.flatMap fun a => if p a then [f a] else []) = (l.filter fun a => p a).map f := by
  induction l with
  | nil => rfl
  | cons a l ih =>
    rw [List.flatMap_cons, ih, List.filter_cons]
    by_cases ha : p a
    · rw [if_pos ha, if_pos (decide_eq_true ha)]
      rfl
    · rw [if_neg ha, if_neg (by simpa using ha)]
      rfl

/-- Each cell of a loop draws at most one sprite, at a place of its own. -/
theorem nodup_flatMap {α : Type} {l : List α} (hl : l.Nodup) {p : α → Prop} [DecidablePred p]
    {draw : α → Drawn} (hplace : ∀ a b, (draw a).position = (draw b).position → a = b) :
    ((l.flatMap fun a => if p a then [draw a] else []).map Drawn.position).Nodup := by
  rw [flatMap_if, List.map_map]
  exact (hl.filter _).map hplace

theorem drawMap_nodup (m : Map) : ((drawMap m).map Drawn.position).Nodup := by
  have hproduct : drawMap m = (List.finRange 10 ×ˢ List.finRange 20).flatMap fun p =>
      if m p.1 p.2 ≠ 0 then [drawCell (m p.1 p.2) p.1 p.2] else [] := by
    unfold drawMap SProd.sprod List.instSProd List.product
    rw [List.flatMap_assoc]
    refine List.flatMap_congr fun i _ => ?_
    rw [List.flatMap_map]
  rw [hproduct]
  refine nodup_flatMap ((List.nodup_finRange 10).product (List.nodup_finRange 20)) ?_
  rintro ⟨i, j⟩ ⟨i', j'⟩ hposition
  obtain ⟨hi, hj⟩ := drawCell_position.mp hposition
  exact Prod.ext (Fin.ext (by exact_mod_cast hi)) (Fin.ext (by exact_mod_cast hj))

theorem cells_nodup : cells.Nodup := by decide

theorem drawBlock_nodup (s : State) : ((drawBlock s).map Drawn.position).Nodup := by
  refine nodup_flatMap cells_nodup ?_
  rintro ⟨i, j⟩ ⟨i', j'⟩ hposition
  obtain ⟨hi, hj⟩ := drawCell_position.mp hposition
  exact Prod.ext (Fin.ext (by omega)) (Fin.ext (by omega))

/-- In every state that the game comes to, `sprites_draw` takes the sprites from the table and draws
them inside the border; and as long as the game goes on, it draws no two at the same place. -/
theorem sprites_draw_inside {s : State} {puts : List State} (h : Played s puts) :
    (∀ d ∈ spritesDraw s, d.Inside) ∧
      (s.stillPlaying = true → ((spritesDraw s).map Drawn.position).Nodup) := by
  obtain ⟨hcoloured, hinMap⟩ := played_sound h
  unfold spritesDraw
  constructor
  · intro d hd
    rcases List.mem_append.mp hd with hd | hd
    · obtain ⟨i, j, -, rfl⟩ := mem_drawMap.mp hd
      exact drawCell_inside (hcoloured.map i j) (by omega) (by omega)
    · obtain ⟨i, j, hfilled, rfl⟩ := mem_drawBlock.mp hd
      obtain ⟨hx, hy⟩ := hinMap i j hfilled
      exact drawCell_inside (hcoloured.block_le i j) (by omega) (by omega)
  · intro hplay
    rw [List.map_append, List.nodup_append]
    refine ⟨drawMap_nodup s.map, drawBlock_nodup s, ?_⟩
    rintro _ hmap _ hblock rfl
    obtain ⟨d, hd, hposition⟩ := List.mem_map.mp hmap
    obtain ⟨d', hd', hposition'⟩ := List.mem_map.mp hblock
    obtain ⟨i, j, hfilled, rfl⟩ := mem_drawMap.mp hd
    obtain ⟨i', j', hfilled', rfl⟩ := mem_drawBlock.mp hd'
    obtain ⟨hi, hj⟩ := drawCell_position.mp (hposition.trans hposition'.symm)
    -- the cells of the map under the block are empty
    obtain ⟨c, r, hc, hr, hempty⟩ := (played_entry h hplay).1.fits i' j' hfilled'
    have hci : i = c := Fin.ext (by omega)
    have hrj : j = r := Fin.ext (by omega)
    rw [hci, hrj] at hfilled
    exact hfilled hempty

/-- The picture after a row has been deleted, with the two cells that are left in the map. -/
theorem sprites_draw_inside_line : ∃ s puts, Played s puts ∧ puts.length = 3 ∧
    filled s.map = 2 ∧ (∀ d ∈ spritesDraw s, d.Inside) ∧
    ((spritesDraw s).map Drawn.position).Nodup := by
  obtain ⟨s, puts, hplayed, hsummary⟩ := exists_of_summary summary_lineGame
  simp only [Prod.mk.injEq] at hsummary
  obtain ⟨hplay, -, hlength, hfilled⟩ := hsummary
  obtain ⟨hinside, hnodup⟩ := sprites_draw_inside hplayed
  exact ⟨s, puts, hplayed, hlength, hfilled, hinside, hnodup hplay⟩

end CDevHws.Hw35
