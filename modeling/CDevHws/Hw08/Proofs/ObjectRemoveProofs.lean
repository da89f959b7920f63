import CDevHws.Hw08.Proofs.ObjectAddProofs

/-!
# Proofs: removing a name

`json_object_remove_internal` first lets the last item take the place of the removed one, which
leaves a hole in the cells, and then shifts cells back until nothing needs the hole. The loop is
that of `CDevHws.Lib.ProbingRemoval`: one lemma says what moving one cell does, and the loop ends
with a well probed table because not all cells are taken.
-/

namespace CDevHws.Hw08

open Probing (visit distance Shifting WellProbed)

variable {V : Type}

/-- The object with a hole in cell `i`. -/
def JsonObject.hole (object : JsonObject V) (i : ℕ) : JsonObject V :=
  { object with cells := object.cells.set i none }

section Hole

variable {object : JsonObject V} {i : ℕ}

theorem cells_hole_of_ne {c : ℕ} (hc : c ≠ i) :
    (object.hole i).cells[c]? = object.cells[c]? := List.getElem?_set_ne (Ne.symm hc)

theorem cells_hole_self (hi : i < object.cellCapacity) :
    (object.hole i).cells[i]? = some none := List.getElem?_set_self hi

theorem cells_of_hole {c ix : ℕ} (h : (object.hole i).cells[c]? = some (some ix)) :
    c ≠ i ∧ object.cells[c]? = some (some ix) := by
  have hc : c ≠ i := by
    rintro rfl
    have hlt := (List.getElem?_eq_some_iff.mp h).1
    rw [JsonObject.hole, List.length_set] at hlt
    rw [cells_hole_self hlt] at h
    cases h
  rw [cells_hole_of_ne hc] at h
  exact ⟨hc, h⟩

end Hole

/-! ## Moving one cell -/

section Move

variable {object : JsonObject V} {i j cell : ℕ} {item : Item V}

/-- The object when cell `j` has been copied to cell `i`. -/
def JsonObject.moved (object : JsonObject V) (i cell : ℕ) (item : Item V) : JsonObject V :=
  { object with
    cells := object.cells.set i (some cell)
    items := object.items.set cell { item with cellIx := i } }

variable (hi : i < object.cellCapacity) (h : (object.hole i).Linked)
  (hcell : (object.hole i).cells[j]? = some (some cell)) (hitem : object.items[cell]? = some item)

include hitem

theorem entries_moved : (object.moved i cell item).entries = object.entries :=
  map_set_of_eq hitem rfl

include hi hcell

theorem keys_moved : ((object.moved i cell item).hole j).keys =
    Function.update (Function.update (object.hole i).keys i (some item.name)) j none := by
  obtain ⟨hji, hcellj⟩ := cells_of_hole hcell
  have hj : j < object.cellCapacity := (List.getElem?_eq_some_iff.mp hcellj).1
  have hnames : ((object.moved i cell item).hole j).names = object.names :=
    map_set_of_eq hitem rfl
  have hname : object.names[cell]? = some item.name := by
    unfold JsonObject.names
    rw [List.getElem?_map, hitem]
    rfl
  unfold JsonObject.keys
  rw [hnames]
  show keysOf ((object.cells.set i (some cell)).set j none) object.names =
    Function.update (Function.update (keysOf (object.cells.set i none) object.names) i _) j _
  rw [keysOf_set (by rw [List.length_set]; exact hj), keysOf_set hi, keysOf_set hi,
    Function.update_idem, Option.bind_some, hname]
  rfl

include h

theorem linked_moved : ((object.moved i cell item).hole j).Linked := by
  obtain ⟨hji, hcellj⟩ := cells_of_hole hcell
  have hlt := (List.getElem?_eq_some_iff.mp hitem).1
  have hcells : ∀ c, c ≠ j → c ≠ i →
      ((object.moved i cell item).hole j).cells[c]? = object.cells[c]? := by
    intro c hcj hci
    rw [cells_hole_of_ne hcj]
    exact List.getElem?_set_ne (Ne.symm hci)
  have hcelli : ((object.moved i cell item).hole j).cells[i]? = some (some cell) := by
    rw [cells_hole_of_ne (Ne.symm hji)]
    exact List.getElem?_set_self hi
  have hitemc : ((object.moved i cell item).hole j).items[cell]? = some { item with cellIx := i } :=
    List.getElem?_set_self hlt
  have hitems : ∀ ix, ix ≠ cell →
      ((object.moved i cell item).hole j).items[ix]? = object.items[ix]? :=
    fun ix hix => List.getElem?_set_ne (Ne.symm hix)
  refine ⟨?_, ?_, ?_⟩
  · intro item' hmem
    rcases List.mem_or_eq_of_mem_set hmem with hmem | rfl
    · exact h.hash item' hmem
    · exact h.hash item (List.mem_of_getElem? hitem)
  · intro ix item' hitem'
    by_cases hix : ix = cell
    · rw [hix, hitemc] at hitem'
      cases hitem'
      rw [hix]
      exact hcelli
    · rw [hitems ix hix] at hitem'
      obtain ⟨hne, hcell'⟩ := cells_of_hole (h.cell_of_item ix item' hitem')
      rw [hcells item'.cellIx ?_ hne]
      · exact hcell'
      · intro heq
        rw [heq, hcellj] at hcell'
        cases hcell'
        exact hix rfl
  · intro c ix hc
    obtain ⟨hcj, hc'⟩ := cells_of_hole hc
    by_cases hci : c = i
    · rw [hci, hcelli] at hc
      cases hc
      exact ⟨_, hitemc, hci.symm⟩
    · rw [hcells c hcj hci] at hc
      obtain ⟨item', hitem', hcellIx⟩ :=
        h.item_of_cell c ix (by rw [cells_hole_of_ne hci]; exact hc)
      have hix : ix ≠ cell := by
        rintro rfl
        obtain ⟨old, hold, hcold⟩ := h.item_of_cell j ix hcell
        obtain rfl : old = item' := Option.some.inj (hold.symm.trans hitem')
        exact hcj (hcellIx.symm.trans hcold)
      exact ⟨item', by rw [hitems ix hix]; exact hitem', hcellIx⟩

end Move

/-! ## The loop -/

theorem visit_mod (n h d : ℕ) : visit n (h % n) d = visit n h d := Nat.mod_add_mod ..

/-- The loop of `json_object_remove_internal` ends with a table in which all names are found. -/
theorem shiftLoop_spec {n e s f : ℕ} (hn : n = 2 ^ e) : ∀ left (object : JsonObject V) x p,
    object.cellCapacity = n → x + left + 1 = n → (object.hole (visit n s p)).Linked →
    Shifting n home (object.hole (visit n s p)).keys s f x p →
    ∃ object' i, shiftLoop left object (visit n s p) (visit n s x) = some (object', i) ∧
      (object'.hole i).Linked ∧ WellProbed n home (object'.hole i).keys ∧
      object'.cellCapacity = n ∧ object'.itemCapacity = object.itemCapacity ∧
      object'.entries = object.entries := by
  intro left
  induction left with
  | zero =>
    intro object x p _ hx _ hshift
    have hlt := hshift.lt
    have hfn := hshift.free_lt
    omega
  | succ left ih =>
    intro object x p hcap hx hlinked hshift
    have hpx := hshift.hole_le
    have hpos : 0 < n := by omega
    set i := visit n s p with hi
    set j := visit n s (x + 1) with hj
    have hilt : i < n := Probing.visit_lt hpos s p
    have hjlt : j < n := Probing.visit_lt hpos s (x + 1)
    have hij : i ≠ j := by
      intro heq
      have hoff := Probing.visit_inj (show p < n by omega) (show x + 1 < n by omega) heq
      omega
    have hnext : (visit n s x + 1) &&& (object.cellCapacity - 1) = j := by
      rw [hcap, hn, Nat.and_two_pow_sub_one_eq_mod, ← hn]
      exact Nat.mod_add_mod (s + x) n 1
    unfold shiftLoop
    simp only [hnext]
    have hicap : i < object.cellCapacity := by
      rw [hcap]
      exact hilt
    have hjcap : j < object.cells.length := by
      rw [show object.cells.length = n from hcap]
      exact hjlt
    have hget : object.cells[j]? = some object.cells[j] := List.getElem?_eq_getElem hjcap
    cases hcell : object.cells[j] with
    | none =>
      rw [hcell] at hget
      refine ⟨object, i, ?_, hlinked, ?_, hcap, rfl, rfl⟩
      · rw [hget]
        rfl
      · refine hshift.finish (keys_of_free ?_)
        rw [cells_hole_of_ne (Ne.symm hij)]
        exact hget
    | some cell =>
      rw [hcell] at hget
      have hgetHole : (object.hole i).cells[j]? = some (some cell) := by
        rw [cells_hole_of_ne (Ne.symm hij)]
        exact hget
      obtain ⟨item, hitem, -, hhash, hkey⟩ := hlinked.keys_of_cell hgetHole
      have hitem' : object.items[cell]? = some item := hitem
      have hk : item.hash.toNat &&& (object.cellCapacity - 1) = home item.name % n := by
        rw [hcap, hn, Nat.and_two_pow_sub_one_eq_mod, hhash]
        rfl
      have hklt : home item.name % n < n := Nat.mod_lt _ hpos
      have hd := Probing.distance_lt (k := home item.name % n) hjlt
      have hvisit : visit n (home item.name) (distance n (home item.name % n) j) = j := by
        rw [← visit_mod]
        exact Probing.visit_distance hklt hjlt
      have hdist : distance n i j = x + 1 - p := by
        refine Probing.visit_inj (Probing.distance_lt hjlt) (by omega)
          ((Probing.visit_distance hilt hjlt).trans ?_)
        rw [hi, hj]
        unfold visit
        rw [Nat.mod_add_mod]
        congr 1
        omega
      have hcond := Probing.leadsOver_iff (k := home item.name % n) (j := j) hilt hklt hij
      rw [hdist] at hcond
      simp only [hget, hitem', hk, Option.bind_eq_bind, Option.bind_some]
      by_cases hpass : x + 1 - p ≤ distance n (home item.name % n) j
      · rw [if_pos (hcond.mpr hpass)]
        have hkeys := keys_moved hicap hgetHole hitem'
        obtain ⟨object', i', hloop, hrest⟩ := ih (object.moved i cell item) (x + 1) (x + 1)
          (by rw [← hcap]; exact List.length_set) (by omega)
          (linked_moved hicap hlinked hgetHole hitem')
          (by rw [← hj, hkeys]; exact hshift.move hkey hd hvisit hpass)
        refine ⟨object', i', hloop, ?_⟩
        rw [entries_moved hitem'] at hrest
        exact hrest
      · rw [if_neg (mt hcond.mp hpass)]
        exact ih object (x + 1) p hcap (by omega) hlinked (hshift.keep hkey hd hvisit hpass)

/-! ## The last item takes the place of the removed one -/

/-- The list without element `i`, whose place the last element takes. -/
def removeSwap {α : Type} (l : List α) (i : ℕ) (last : α) : List α := (l.set i last).dropLast

theorem getElem?_removeSwap {α : Type} {l : List α} {i j : ℕ} {last : α} (hj : j + 1 < l.length) :
    (removeSwap l i last)[j]? = if j = i then some last else l[j]? := by
  unfold removeSwap
  rw [List.getElem?_dropLast, List.length_set, if_pos (by omega)]
  by_cases hji : j = i
  · rw [hji, if_pos rfl, List.getElem?_set_self (by omega)]
  · rw [if_neg hji, List.getElem?_set_ne (Ne.symm hji)]

theorem length_removeSwap {α : Type} (l : List α) (i : ℕ) (last : α) :
    (removeSwap l i last).length = l.length - 1 := by
  unfold removeSwap
  rw [List.length_dropLast, List.length_set]

section RemoveItem

variable {object : JsonObject V} {c ix : ℕ} {item last : Item V}

/-- The object when the last item has taken the place of item `ix`. -/
def JsonObject.removed (object : JsonObject V) (ix : ℕ) (last : Item V) : JsonObject V :=
  { object with
    cells := object.cells.set last.cellIx (some ix)
    items := removeSwap object.items ix last }

variable (h : object.Linked) (hcell : object.cells[c]? = some (some ix))
  (hitem : object.items[ix]? = some item) (hlast : object.items[object.count - 1]? = some last)

include h hcell hitem hlast

/-- With the hole in the cell of the removed item, `removeItem` is the same in both of its branches.
-/
theorem removeItem_eq : ∃ object', object.removeItem ix = some object' ∧
    object'.hole c = (object.removed ix last).hole c ∧ object'.cellCapacity = object.cellCapacity ∧
    object'.itemCapacity = object.itemCapacity := by
  have hlt := (List.getElem?_eq_some_iff.mp hitem).1
  have hcount : object.count = object.items.length := rfl
  unfold JsonObject.removeItem
  by_cases hix : ix < object.count - 1
  · have hcap : last.cellIx < object.cellCapacity :=
      (List.getElem?_eq_some_iff.mp (h.cell_of_item _ last hlast)).1
    refine ⟨object.removed ix last, ?_, rfl, List.length_set, rfl⟩
    simp only [if_pos hix, hlast, if_pos hcap, Option.bind_eq_bind, Option.bind_some,
      Option.pure_def]
    rfl
  · have heq : ix = object.count - 1 := by omega
    rw [← heq, hitem] at hlast
    obtain rfl := Option.some.inj hlast
    obtain ⟨item', hitem', hcellIx⟩ := h.item_of_cell c ix hcell
    obtain rfl : item' = item := Option.some.inj (hitem'.symm.trans hitem)
    refine ⟨{ object with items := object.items.dropLast }, ?_, ?_, rfl, rfl⟩
    · simp only [if_neg hix, Option.pure_def]
    · have hself : object.items.set ix item' = object.items := by
        obtain ⟨hlt', hget⟩ := List.getElem?_eq_some_iff.mp hitem
        rw [← hget, List.set_getElem_self]
      unfold JsonObject.hole JsonObject.removed removeSwap
      simp only
      rw [hcellIx, List.set_set, hself]

/-- The cell of the last item, which is that of the removed one only if they are the same. -/
theorem last_cell : object.cells[last.cellIx]? = some (some (object.count - 1)) ∧
    (last.cellIx = c ↔ ix = object.count - 1) := by
  have hlastCell := h.cell_of_item _ last hlast
  refine ⟨hlastCell, ?_, ?_⟩
  · intro heq
    rw [heq, hcell] at hlastCell
    exact Option.some.inj (Option.some.inj hlastCell)
  · rintro rfl
    obtain ⟨item', hitem', hcellIx⟩ := h.item_of_cell c _ hcell
    obtain rfl : item' = last := Option.some.inj (hitem'.symm.trans hlast)
    exact hcellIx

/-- Another cell points to an item other than the removed and the last one. -/
theorem other_cell {c' t : ℕ} (hc : c' ≠ c) (hl : c' ≠ last.cellIx)
    (hcell' : object.cells[c']? = some (some t)) : t ≠ ix ∧ t + 1 < object.count := by
  obtain ⟨item', hitem', hcellIx'⟩ := h.item_of_cell c' t hcell'
  have hlt : t < object.count := (List.getElem?_eq_some_iff.mp hitem').1
  constructor
  · rintro rfl
    obtain ⟨old, hold, hcold⟩ := h.item_of_cell c t hcell
    obtain rfl : old = item' := Option.some.inj (hold.symm.trans hitem')
    exact hc (hcellIx'.symm.trans hcold)
  · by_contra hge
    obtain rfl : t = object.count - 1 := by omega
    obtain rfl : item' = last := Option.some.inj (hitem'.symm.trans hlast)
    exact hl hcellIx'.symm

theorem linked_removed : ((object.removed ix last).hole c).Linked := by
  obtain ⟨hlastCell, hlastIff⟩ := last_cell h hcell hitem hlast
  have hcells : ∀ c', c' ≠ c → c' ≠ last.cellIx →
      ((object.removed ix last).hole c).cells[c']? = object.cells[c']? := by
    intro c' hc hl
    rw [cells_hole_of_ne hc]
    exact List.getElem?_set_ne (Ne.symm hl)
  have hcellLast : last.cellIx ≠ c →
      ((object.removed ix last).hole c).cells[last.cellIx]? = some (some ix) := by
    intro hne
    rw [cells_hole_of_ne hne]
    exact List.getElem?_set_self (List.getElem?_eq_some_iff.mp hlastCell).1
  have hitems : ∀ t, t + 1 < object.count → ((object.removed ix last).hole c).items[t]? =
      if t = ix then some last else object.items[t]? := fun t ht => getElem?_removeSwap ht
  have hshort : ∀ (t : ℕ) (item' : Item V),
      ((object.removed ix last).hole c).items[t]? = some item' → t + 1 < object.count := by
    intro t item' hitem'
    have hlt : t < (removeSwap object.items ix last).length :=
      (List.getElem?_eq_some_iff.mp hitem').1
    rw [length_removeSwap] at hlt
    unfold JsonObject.count
    omega
  refine ⟨?_, ?_, ?_⟩
  · intro item' hmem
    obtain ⟨t, hitem'⟩ := List.mem_iff_getElem?.mp hmem
    rw [hitems t (hshort t item' hitem')] at hitem'
    split_ifs at hitem' with ht
    · obtain rfl := Option.some.inj hitem'
      exact h.hash last (List.mem_of_getElem? hlast)
    · exact h.hash item' (List.mem_of_getElem? hitem')
  · intro t item' hitem'
    have hlt := hshort t item' hitem'
    rw [hitems t hlt] at hitem'
    split_ifs at hitem' with ht
    · obtain rfl := Option.some.inj hitem'
      have hne : last.cellIx ≠ c := by
        rw [Ne, hlastIff]
        omega
      rw [hcellLast hne, ht]
    · have hcell' := h.cell_of_item t item' hitem'
      rw [hcells]
      · exact hcell'
      · intro heq
        rw [heq, hcell] at hcell'
        exact ht (Option.some.inj (Option.some.inj hcell')).symm
      · intro heq
        rw [heq, hlastCell] at hcell'
        have hteq := Option.some.inj (Option.some.inj hcell')
        omega
  · intro c' t hc
    obtain ⟨hne, -⟩ := cells_of_hole hc
    by_cases hl : c' = last.cellIx
    · rw [hl] at hne hc
      rw [hcellLast hne] at hc
      cases hc
      have hltIx := (List.getElem?_eq_some_iff.mp hitem).1
      have hix : ix ≠ object.count - 1 := mt hlastIff.mpr hne
      refine ⟨last, ?_, hl.symm⟩
      rw [hitems ix (by unfold JsonObject.count at hix ⊢; omega), if_pos rfl]
    · rw [hcells c' hne hl] at hc
      obtain ⟨hix, hlt⟩ := other_cell h hcell hitem hlast hne hl hc
      obtain ⟨item', hitem', hcellIx'⟩ := h.item_of_cell c' t hc
      exact ⟨item', by rw [hitems t hlt, if_neg hix]; exact hitem', hcellIx'⟩

theorem keys_removed : ((object.removed ix last).hole c).keys =
    Function.update object.keys c none := by
  obtain ⟨hlastCell, hlastIff⟩ := last_cell h hcell hitem hlast
  have hnames : ((object.removed ix last).hole c).names = removeSwap object.names ix last.name := by
    show (removeSwap object.items ix last).map Item.name = _
    unfold removeSwap JsonObject.names
    rw [List.map_dropLast, List.map_set]
  have hlen : object.names.length = object.count := List.length_map _
  have hc := (List.getElem?_eq_some_iff.mp hcell).1
  have hl := (List.getElem?_eq_some_iff.mp hlastCell).1
  unfold JsonObject.keys
  rw [hnames]
  show keysOf ((object.cells.set last.cellIx (some ix)).set c none) _ = _
  rw [keysOf_set (by rw [List.length_set]; exact hc), keysOf_set hl]
  funext c'
  by_cases hcc : c' = c
  · rw [hcc, Function.update_self, Function.update_self]
    rfl
  rw [Function.update_of_ne hcc, Function.update_of_ne hcc]
  by_cases hcl : c' = last.cellIx
  · -- the cell of the last item points to its new place
    have hltIx := (List.getElem?_eq_some_iff.mp hitem).1
    have hix : ix ≠ object.count - 1 := mt hlastIff.mpr (hcl ▸ hcc)
    have hlt : ix + 1 < object.names.length := by
      rw [hlen]
      unfold JsonObject.count at hix ⊢
      omega
    obtain ⟨item', hitem', -, -, hkey⟩ := h.keys_of_cell hlastCell
    obtain rfl : item' = last := Option.some.inj (hitem'.symm.trans hlast)
    rw [hcl, Function.update_self, Option.bind_some, getElem?_removeSwap hlt, if_pos rfl]
    exact hkey.symm
  · rw [Function.update_of_ne hcl]
    unfold keysOf
    cases hjoin : object.cells[c']?.join with
    | none => rfl
    | some t =>
      obtain ⟨hix, hlt⟩ :=
        other_cell h hcell hitem hlast hcc hcl (Option.join_eq_some_iff.mp hjoin)
      rw [Option.bind_some, Option.bind_some, getElem?_removeSwap (by rw [hlen]; exact hlt),
        if_neg hix]

end RemoveItem

/-! ## `json_object_remove_internal` -/

/-- A name is removed if it is there, and the last entry takes its place. -/
theorem jsonObjectRemove_spec {object : JsonObject V} (h : object.Inv) (name : List UInt8) :
    (name ∉ object.names ∧ jsonObjectRemove object name = some (object, .failure)) ∨
      ∃ ix value last object', object.entries[ix]? = some (name, value) ∧
        object.entries[object.count - 1]? = some last ∧
        jsonObjectRemove object name = some (object', .success) ∧ object'.Inv ∧
        object'.entries = removeSwap object.entries ix last := by
  obtain ⟨cellIx, found, hget, hsearch⟩ := jsonObjectGetCellIx_spec h name
  unfold jsonObjectRemove
  cases found with
  | false =>
    refine Or.inl ⟨hsearch.not_mem h, ?_⟩
    simp only [hget, Option.bind_eq_bind, Option.bind_some, Bool.false_eq_true, if_false,
      Option.pure_def]
  | true =>
    cases hsearch with
    | @found c hkey hc =>
      obtain ⟨ix, item, hcell, hitem, rfl, hentry⟩ := h.item_of_key hkey
      have hltIx := (List.getElem?_eq_some_iff.mp hitem).1
      have hlastLt : object.count - 1 < object.items.length := by
        unfold JsonObject.count
        omega
      have hlast : object.items[object.count - 1]? = some object.items[object.count - 1] :=
        List.getElem?_eq_getElem hlastLt
      generalize object.items[object.count - 1] = last at hlast
      obtain ⟨mid, hmid, hhole, hcap, hitemCap⟩ :=
        removeItem_eq h.toLinked hcell hitem hlast
      have hlinked := linked_removed h.toLinked hcell hitem hlast
      have hkeys := keys_removed h.toLinked hcell hitem hlast
      obtain ⟨e, hn⟩ := h.two_pow.resolve_left (by omega)
      obtain ⟨free, hfree, hnone⟩ := h.exists_free (by omega)
      obtain ⟨f, hf, rfl⟩ := Probing.exists_visit (h := c) hfree
      have hstart : visit object.cellCapacity c 0 = c := Nat.mod_eq_of_lt hc
      have hpos : 0 < f := by
        rw [Nat.pos_iff_ne_zero]
        rintro rfl
        rw [hstart, hkey] at hnone
        cases hnone
      have hshift := h.probed.shifting hc hpos hf hnone
      rw [← hkeys, ← hhole] at hshift
      rw [← hhole] at hlinked
      obtain ⟨object', i, hloop, hlinked', hprobed, hcap', hitemCap', hentries⟩ :=
        shiftLoop_spec (s := c) (f := f) hn (object.cellCapacity - 1) mid 0 0 hcap (by omega)
          (by rw [hstart]; exact hlinked) (by rw [hstart]; exact hshift)
      rw [hstart] at hloop
      have hentriesMid : mid.entries = removeSwap object.entries ix (last.name, last.value) := by
        have hitems := congrArg JsonObject.items hhole
        unfold JsonObject.entries
        rw [show mid.items = removeSwap object.items ix last from hitems]
        unfold removeSwap
        rw [List.map_dropLast, List.map_set]
      have hcount : (object'.hole i).count = object.count - 1 := by
        have hlen := congrArg List.length (hentries.trans hentriesMid)
        rwa [length_removeSwap, JsonObject.entries, JsonObject.entries, List.length_map,
          List.length_map] at hlen
      have hcapHole : (object'.hole i).cellCapacity = object.cellCapacity :=
        List.length_set.trans hcap'
      refine Or.inr ⟨ix, item.value, (last.name, last.value), object'.hole i, hentry, ?_, ?_, ?_,
        hentries.trans hentriesMid⟩
      · unfold JsonObject.entries
        rw [List.getElem?_map, hlast]
        rfl
      · simp only [hget, hcell, hmid, hcap, hloop, Option.bind_eq_bind, Option.bind_some, if_true,
          Option.pure_def]
        rfl
      · refine ⟨hlinked', ?_, ?_, ?_, ?_, ?_⟩
        · rw [hcapHole]
          exact h.capacity
        · rw [hcapHole]
          exact h.limit
        · rw [hcapHole, ← h.itemCapacity, ← hitemCap, ← hitemCap']
          rfl
        · have hroom := h.room
          have hsame : (object'.hole i).itemCapacity = object.itemCapacity :=
            hitemCap'.trans hitemCap
          rw [hcount, hsame]
          omega
        · rw [hcapHole]
          exact hprobed

end CDevHws.Hw08
