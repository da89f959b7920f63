import CDevHws.Hw08.Object
import CDevHws.Lib.ProbingRemoval
import Mathlib.Algebra.Group.Nat.Defs
import Mathlib.Data.Fintype.Card

/-!
# Proofs: the search for a name and the place for a new one

The cells of an object are a table with linear probing (`CDevHws.Lib.Probing`) for its names. The
invariant says that cells and items point to each other, and that there is room; from it,
`json_object_get_cell_ix` finds a name if it is there, or else a cell for it.
-/

namespace CDevHws.Hw08

open Probing (visit Passed StopsAt Fails WellProbed)

variable {V : Type}

/-! ## Cells -/

theorem keysOf_set {cells : List (Option ℕ)} {names : List (List UInt8)} {i : ℕ}
    (hi : i < cells.length) (v : Option ℕ) :
    keysOf (cells.set i v) names =
      Function.update (keysOf cells names) i (v.bind fun ix => names[ix]?) := by
  funext c
  unfold keysOf
  by_cases hc : c = i
  · subst hc
    rw [Function.update_self, List.getElem?_set_self hi]
    rfl
  · rw [Function.update_of_ne hc, List.getElem?_set_ne (Ne.symm hc)]

/-- Another element with the same image leaves the images as they are. -/
theorem map_set_of_eq {α β : Type} {f : α → β} {l : List α} {i : ℕ} {a b : α} (h : l[i]? = some a)
    (hf : f b = f a) : (l.set i b).map f = l.map f := by
  rw [List.map_set]
  refine List.ext_getElem? fun j => ?_
  by_cases hj : j = i
  · have hlt : i < (l.map f).length := by
      rw [List.length_map]
      exact (List.getElem?_eq_some_iff.mp h).1
    rw [hj, List.getElem?_set_self hlt, List.getElem?_map, h, hf]
    rfl
  · rw [List.getElem?_set_ne (Ne.symm hj)]

theorem JsonObject.Inv.two_pow {object : JsonObject V} (h : object.Inv) :
    object.cellCapacity = 0 ∨ ∃ e, object.cellCapacity = 2 ^ e := by
  refine h.capacity.imp_right ?_
  rintro ⟨e, he⟩
  exact ⟨4 + e, by rw [he, Nat.pow_add]; rfl⟩

/-- The cell that the loop looks at is the one that the probing visits. -/
theorem mask_eq_visit {n e : ℕ} (hn : n = 2 ^ e) (h i : ℕ) :
    ((h &&& (n - 1)) + i) &&& (n - 1) = visit n h i := by
  unfold visit
  rw [hn, Nat.and_two_pow_sub_one_eq_mod, Nat.and_two_pow_sub_one_eq_mod, Nat.mod_add_mod]

section Search

variable {object : JsonObject V}

theorem JsonObject.Linked.keys_of_cell (h : object.Linked) {c ix : ℕ}
    (hc : object.cells[c]? = some (some ix)) :
    ∃ item : Item V, object.items[ix]? = some item ∧ item.cellIx = c ∧
      item.hash = hashString item.name ∧ object.keys c = some item.name := by
  obtain ⟨item, hitem, hcell⟩ := h.item_of_cell c ix hc
  refine ⟨item, hitem, hcell, h.hash item (List.mem_of_getElem? hitem), ?_⟩
  unfold JsonObject.keys keysOf JsonObject.names
  rw [hc]
  show (object.items.map Item.name)[ix]? = _
  rw [List.getElem?_map, hitem]
  rfl

theorem keys_of_free {c : ℕ} (hc : object.cells[c]? = some none) : object.keys c = none := by
  unfold JsonObject.keys keysOf
  rw [hc]
  rfl

theorem JsonObject.Linked.keys_eq_none (h : object.Linked) {c : ℕ} (hc : c < object.cellCapacity)
    (hnone : object.keys c = none) : object.cells[c]? = some none := by
  have hget : object.cells[c]? = some object.cells[c] := List.getElem?_eq_getElem hc
  cases hcell : object.cells[c] with
  | none => rw [hget, hcell]
  | some ix =>
    rw [hcell] at hget
    obtain ⟨item, -, -, -, hkeys⟩ := h.keys_of_cell hget
    rw [hnone] at hkeys
    cases hkeys

theorem JsonObject.Linked.keys_eq_some (h : object.Linked) {c : ℕ} {name : List UInt8}
    (hsome : object.keys c = some name) :
    ∃ (ix : ℕ) (item : Item V), object.cells[c]? = some (some ix) ∧ object.items[ix]? = some item ∧
      item.cellIx = c ∧ item.name = name := by
  have hbind := hsome
  unfold JsonObject.keys keysOf at hbind
  rw [Option.bind_eq_some_iff] at hbind
  obtain ⟨ix, hjoin, -⟩ := hbind
  have hcell := Option.join_eq_some_iff.mp hjoin
  obtain ⟨item, hitem, hc, -, hkeys⟩ := h.keys_of_cell hcell
  rw [hsome] at hkeys
  exact ⟨ix, item, hcell, hitem, hc, (Option.some.inj hkeys).symm⟩

theorem JsonObject.Linked.mem_names_iff (h : object.Linked) {name : List UInt8} :
    name ∈ object.names ↔ ∃ c < object.cellCapacity, object.keys c = some name := by
  constructor
  · intro hmem
    obtain ⟨item, hitem, rfl⟩ := List.mem_map.mp hmem
    obtain ⟨ix, hix⟩ := List.mem_iff_getElem?.mp hitem
    have hcell := h.cell_of_item ix item hix
    obtain ⟨item', hitem', -, -, hkeys⟩ := h.keys_of_cell hcell
    obtain rfl : item' = item := Option.some.inj (hitem'.symm.trans hix)
    exact ⟨item'.cellIx, (List.getElem?_eq_some_iff.mp hcell).1, hkeys⟩
  · rintro ⟨c, -, hkeys⟩
    obtain ⟨ix, item, -, hitem, -, rfl⟩ := h.keys_eq_some hkeys
    exact List.mem_map_of_mem (List.mem_of_getElem? hitem)

variable {e : ℕ} (hn : object.cellCapacity = 2 ^ e) {key : List UInt8} {left i : ℕ}

include hn

theorem getCellIxLoop_free
    (hget : object.cells[visit object.cellCapacity (home key) i]? = some none) :
    getCellIxLoop object key (hashString key) (left + 1) i =
      some (some (visit object.cellCapacity (home key) i), false) := by
  unfold home at hget ⊢
  simp only [getCellIxLoop, mask_eq_visit hn, hget, Option.bind_eq_bind, Option.bind_some,
    Option.pure_def]

theorem getCellIxLoop_item {ix : ℕ} {item : Item V}
    (hget : object.cells[visit object.cellCapacity (home key) i]? = some (some ix))
    (hitem : object.items[ix]? = some item) (hhash : item.hash = hashString item.name) :
    getCellIxLoop object key (hashString key) (left + 1) i =
      if item.name = key then some (some (visit object.cellCapacity (home key) i), true)
      else getCellIxLoop object key (hashString key) left (i + 1) := by
  unfold home at hget ⊢
  simp only [getCellIxLoop, mask_eq_visit hn, hget, hitem, Option.bind_eq_bind, Option.bind_some,
    Option.pure_def]
  by_cases hname : item.name = key
  · rw [if_neg (by rw [hhash, hname]; simp), if_pos hname]
  · rw [if_neg hname, ite_self]

/-- From round `i` on, the loop stops where the probing stops, or goes round where it fails. -/
theorem getCellIxLoop_spec (h : object.Linked) :
    ∀ left i, i + left = object.cellCapacity →
      (∀ d < i, Passed object.keys key (visit object.cellCapacity (home key) d)) →
      (∃ c, getCellIxLoop object key (hashString key) left i = some (some c, false) ∧
        StopsAt object.cellCapacity home object.keys key c ∧ object.keys c = none) ∨
      (∃ c, getCellIxLoop object key (hashString key) left i = some (some c, true) ∧
        StopsAt object.cellCapacity home object.keys key c ∧ object.keys c = some key) ∨
      (getCellIxLoop object key (hashString key) left i = some (none, false) ∧
        Fails object.cellCapacity home object.keys key) := by
  intro left
  induction left with
  | zero =>
    intro i hi hpassed
    exact Or.inr (Or.inr ⟨rfl, fun d hd => hpassed d (by omega)⟩)
  | succ left ih =>
    intro i hi hpassed
    have hlt : visit object.cellCapacity (home key) i < object.cellCapacity :=
      Probing.visit_lt (by omega) _ _
    by_cases hfree : object.keys (visit object.cellCapacity (home key) i) = none
    · refine Or.inl ⟨_, getCellIxLoop_free hn (h.keys_eq_none hlt hfree), ?_, hfree⟩
      exact ⟨i, by omega, rfl, fun hp => hp.1 hfree, hpassed⟩
    · obtain ⟨name, hname⟩ := Option.ne_none_iff_exists'.mp hfree
      obtain ⟨ix, item, hget, hitem, -, rfl⟩ := h.keys_eq_some hname
      have hhash := h.hash item (List.mem_of_getElem? hitem)
      rw [getCellIxLoop_item hn hget hitem hhash]
      by_cases heq : item.name = key
      · rw [if_pos heq]
        rw [heq] at hname
        refine Or.inr (Or.inl ⟨_, rfl, ⟨i, by omega, rfl, fun hp => hp.2 hname, hpassed⟩, hname⟩)
      · rw [if_neg heq]
        refine ih (i + 1) (by omega) ?_
        intro d hd
        by_cases hdi : d = i
        · rw [hdi]
          exact ⟨hfree, fun hkey => heq (Option.some.inj (hname.symm.trans hkey))⟩
        · exact hpassed d (by omega)

end Search

/-! ## `json_object_get_cell_ix` -/

variable {object : JsonObject V}

/-- Not all cells are taken. -/
theorem JsonObject.Inv.exists_free (h : object.Inv) (hpos : 0 < object.cellCapacity) :
    ∃ c < object.cellCapacity, object.keys c = none := by
  by_contra hno
  have hall : ∀ c < object.cellCapacity, object.keys c ≠ none :=
    fun c hc hnone => hno ⟨c, hc, hnone⟩
  have hcell : ∀ c : Fin object.cellCapacity, ∃ ix : Fin object.count,
      object.cells[c.val]? = some (some ix.val) := by
    intro c
    obtain ⟨name, hname⟩ := Option.ne_none_iff_exists'.mp (hall c c.isLt)
    obtain ⟨ix, item, hget, hitem, -, -⟩ := h.keys_eq_some hname
    exact ⟨⟨ix, (List.getElem?_eq_some_iff.mp hitem).1⟩, hget⟩
  choose f hf using hcell
  have hinj : Function.Injective f := by
    intro c c' heq
    obtain ⟨item, hitem, hc⟩ := h.item_of_cell c (f c) (hf c)
    obtain ⟨item', hitem', hc'⟩ := h.item_of_cell c' (f c') (hf c')
    rw [heq] at hitem
    obtain rfl : item = item' := Option.some.inj (hitem.symm.trans hitem')
    exact Fin.ext (hc.symm.trans hc')
  have hle := Fintype.card_le_of_injective f hinj
  rw [Fintype.card_fin, Fintype.card_fin] at hle
  have hroom := h.room
  have hcap := h.itemCapacity
  omega

/-- The outcome of the search for a name. -/
inductive Searched (object : JsonObject V) (key : List UInt8) : Option ℕ → Bool → Prop where
  /-- The name is in the cell. -/
  | found {c : ℕ} (h : object.keys c = some key) (hc : c < object.cellCapacity) :
      Searched object key (some c) true
  /-- The name is not there, and the cell is the one for it. -/
  | free {c : ℕ} (hmem : key ∉ object.names) (h : object.keys c = none)
      (hstop : StopsAt object.cellCapacity home object.keys key c) :
      Searched object key (some c) false
  /-- There are no cells. -/
  | empty (h : object.cellCapacity = 0) : Searched object key none false

/-- `json_object_get_cell_ix` never reads outside the arrays, and finds a name if it is there. -/
theorem jsonObjectGetCellIx_spec (h : object.Inv) (key : List UInt8) :
    ∃ cellIx found, jsonObjectGetCellIx object key (hashString key) = some (cellIx, found) ∧
      Searched object key cellIx found := by
  rcases h.two_pow with hzero | ⟨e, hn⟩
  · refine ⟨none, false, ?_, .empty hzero⟩
    unfold jsonObjectGetCellIx
    rw [hzero]
    rfl
  · have hpos : 0 < object.cellCapacity := by
      rw [hn]
      exact Nat.two_pow_pos e
    have hpassed : ∀ d < 0, Passed object.keys key (visit object.cellCapacity (home key) d) :=
      fun d hd => absurd hd (Nat.not_lt_zero d)
    rcases getCellIxLoop_spec hn h.toLinked object.cellCapacity 0 (Nat.zero_add _) hpassed with
      ⟨c, hloop, hstop, hnone⟩ | ⟨c, hloop, hstop, hkey⟩ | ⟨-, hfails⟩
    · refine ⟨some c, false, hloop, .free ?_ hnone hstop⟩
      intro hmem
      obtain ⟨c', hc', hkey⟩ := h.mem_names_iff.mp hmem
      rw [hstop.eq_of_stored h.probed hc' hkey, hkey] at hnone
      cases hnone
    · exact ⟨some c, true, hloop, .found hkey hstop.lt⟩
    · obtain ⟨c, hc, hnone⟩ := h.exists_free hpos
      exact absurd hnone (hfails.passed hc).1

end CDevHws.Hw08
