import CDevHws.Hw22.TopTen
import CDevHws.Lib.Largest

/-!
# Proofs: the rows of the top ten

While the inner loop shifts rows down, the row at its index is there twice. So when it stops, the
new entry can overwrite either copy: the upper one if it is not smaller, else the lower one. In both
cases only the last row is gone, and the rows stay in their order.
-/

namespace CDevHws.Hw22

open CString (strncpy)
open Largest

section getTop

variable {Row : Type} {count : Row → UInt64} {url : Row → List UInt8}
  {row : UInt64 → List UInt8 → Row}

/-! ## The inner loop -/

theorem rowAt_append (front back : List Row) (r : Row) :
    rowAt row (front ++ r :: back) front.length = r := by
  unfold rowAt
  rw [List.getD_eq_getElem?_getD, List.getElem?_append_right (Nat.le_refl _), Nat.sub_self]
  rfl

theorem set_append (front back : List Row) (r new : Row) :
    (front ++ r :: back).set front.length new = front ++ new :: back := by
  rw [List.set_append_right _ _ (Nat.le_refl _), Nat.sub_self]
  rfl

/-- The last row, where the rows after `front` are known. -/
theorem split_last {init front back : List Row} {last r : Row}
    (h : init ++ [last] = front ++ r :: back) :
    init = front ++ (r :: back).dropLast ∧ (r :: back).dropLast ++ [last] = r :: back := by
  have hinit : init = front ++ (r :: back).dropLast := by
    have hdrop := congrArg List.dropLast h
    rwa [List.dropLast_concat, List.dropLast_append_of_ne_nil (List.cons_ne_nil r back)] at hdrop
  refine ⟨hinit, ?_⟩
  rw [hinit, List.append_assoc] at h
  exact List.append_cancel_left h

/-- One step of the loop: the row `y` is copied over the row `x` after it. -/
theorem shiftRows_step {val : UInt64} {x y : Row} (hx : count x < val)
    (hy : copyRow count url row y = y) (front after : List Row) :
    shiftRows count url row val (front.length + 1) (front ++ y :: x :: after) =
      shiftRows count url row val front.length (front ++ y :: y :: after) := by
  have hassoc : ∀ z, front ++ y :: z :: after = (front ++ [y]) ++ z :: after := by
    intro z
    rw [List.append_assoc]
    rfl
  have hlen : (front ++ [y]).length = front.length + 1 := List.length_append
  have hrow : rowAt row (front ++ y :: x :: after) (front.length + 1) = x := by
    rw [hassoc, ← hlen, rowAt_append]
  have hset : (front ++ y :: x :: after).set (front.length + 1) y = front ++ y :: y :: after := by
    rw [hassoc, ← hlen, set_append, ← hassoc]
  rw [shiftRows, hrow, if_pos hx, rowAt_append, hy, hset]

/-- From the last one of `rows` on, the loop shifts down all rows after some row `r` and a copy of
`r`, which stays in its place. -/
theorem shiftRows_spec (val : UInt64) {rows : List Row} (hne : rows ≠ [])
    (hcopy : ∀ r ∈ rows, copyRow count url row r = r) (after : List Row) :
    ∃ front r back, rows = front ++ r :: back ∧
      shiftRows count url row val (rows.length - 1) (rows ++ after) =
        (front.length, front ++ r :: ((r :: back).dropLast ++ after)) ∧
      (∀ b ∈ back, count b < val) ∧ (val ≤ count r ∨ front = []) := by
  induction rows using List.reverseRecOn generalizing after with
  | nil => exact absurd rfl hne
  | append_singleton init x ih =>
    rcases List.eq_nil_or_concat init with rfl | ⟨init', y, rfl⟩
    · exact ⟨[], x, [], rfl, rfl, fun b hb => absurd hb List.not_mem_nil, Or.inr rfl⟩
    · rw [List.concat_eq_append] at *
      have hlen : (init' ++ [y] ++ [x]).length - 1 = init'.length + 1 := by simp
      have hinitLen : (init' ++ [y]).length - 1 = init'.length := by simp
      have hstart : init' ++ [y] ++ [x] ++ after = init' ++ y :: x :: after := by simp
      rw [hlen, hstart]
      by_cases hx : count x < val
      · have hinit := ih (by simp) (fun r hr => hcopy r (List.mem_append_left _ hr)) (y :: after)
        obtain ⟨front, r, back, hsplit, hshift, hback, hstop⟩ := hinit
        obtain ⟨-, hlast⟩ := split_last hsplit
        have hassoc : init' ++ [y] ++ y :: after = init' ++ y :: y :: after := by simp
        rw [hinitLen, hassoc] at hshift
        have hdrop : (r :: (back ++ [x])).dropLast = r :: back := by
          rw [← List.cons_append, List.dropLast_concat]
        have hjoin : (r :: back).dropLast ++ y :: after = r :: back ++ after := by
          rw [List.append_cons, hlast]
        refine ⟨front, r, back ++ [x], by rw [hsplit]; simp, ?_, ?_, hstop⟩
        · rw [shiftRows_step hx (hcopy y (by simp)), hshift, hdrop, hjoin]
        · intro b hb
          rcases List.mem_append.mp hb with hb | hb
          · exact hback b hb
          · rw [List.mem_singleton.mp hb]
            exact hx
      · have hrow : rowAt row (init' ++ y :: x :: after) (init'.length + 1) = x := by
          have happend : rowAt row ((init' ++ [y]) ++ x :: after) (init' ++ [y]).length = x :=
            rowAt_append (init' ++ [y]) after x
          rw [List.length_append, List.append_assoc] at happend
          exact happend
        refine ⟨init' ++ [y], x, [], rfl, ?_, fun b hb => absurd hb List.not_mem_nil,
          Or.inl (UInt64.not_lt.mp hx)⟩
        rw [shiftRows, hrow, if_neg hx]
        simp

/-! ## One entry -/

/-- The row of an entry. -/
def entryRow (row : UInt64 → List UInt8 → Row) (entry : Σ _ : List UInt8, UInt64) : Row :=
  row entry.2 (strncpy entry.1 (strlenmax - 1))

theorem eq_nil_of_lt_zero {back : List Row} (hback : ∀ b ∈ back, count b < 0) : back = [] := by
  cases back with
  | nil => rfl
  | cons b back => exact absurd (hback b List.mem_cons_self) UInt64.not_lt_zero

/-- The entry overwrites the upper copy of `r`: it stands between larger and smaller rows. -/
theorem between_upper {val : UInt64} {front back : List Row} {r : Row}
    (hbefore : ∀ a ∈ front, count r ≤ count a) (hback : ∀ b ∈ back, count b < val)
    (hstop : val ≤ count r ∨ front = []) (hge : val ≥ count r) :
    (∀ a ∈ front, val ≤ count a) ∧ (∀ b ∈ (r :: back).dropLast, count b ≤ val) ∧
      (val = 0 → (r :: back).dropLast = []) := by
  refine ⟨?_, ?_, ?_⟩
  · intro a ha
    rcases hstop with hr | hnil
    · exact UInt64.le_trans hr (hbefore a ha)
    · rw [hnil] at ha
      cases ha
  · intro b hb
    rcases List.mem_cons.mp (List.mem_of_mem_dropLast hb) with rfl | hb
    · exact hge
    · exact UInt64.le_of_lt (hback b hb)
  · rintro rfl
    rw [eq_nil_of_lt_zero hback]
    rfl

/-- The entry overwrites the lower copy of `r`, and the row `b` is gone. -/
theorem between_lower {val : UInt64} {front back : List Row} {r b : Row}
    (hbefore : ∀ a ∈ front, count r ≤ count a) (hback : ∀ c ∈ back ++ [b], count c < val)
    (hlt : val < count r) :
    (∀ a ∈ front ++ [r], val ≤ count a) ∧ (∀ c ∈ back, count c ≤ val) ∧
      (val = 0 → back = []) := by
  refine ⟨?_, ?_, ?_⟩
  · intro a ha
    rcases List.mem_append.mp ha with ha | ha
    · exact UInt64.le_of_lt (UInt64.lt_of_lt_of_le hlt (hbefore a ha))
    · rw [List.mem_singleton.mp ha]
      exact UInt64.le_of_lt hlt
  · intro c hc
    exact UInt64.le_of_lt (hback c (List.mem_append_left _ hc))
  · rintro rfl
    cases List.append_ne_nil_of_right_ne_nil _ (List.cons_ne_nil b []) (eq_nil_of_lt_zero hback)

/-- An entry is left out if it is smaller than the last row; else it is put between the rows that
are not smaller and those that are not larger, and the last row is gone. An entry with the count 0
is put in the place of the last row. -/
theorem putEntry_spec {top init : List Row} {last : Row} (htop : top = init ++ [last])
    (hsorted : top.Pairwise fun a b => count b ≤ count a)
    (hcopy : ∀ r ∈ top, copyRow count url row r = r) (warning printed : List String)
    (entry : Σ _ : List UInt8, UInt64) :
    entry.2 < count last ∧
      putEntry count url row warning top.length (top, printed) entry = (top, printed) ∨
    count last ≤ entry.2 ∧ ∃ front back, init = front ++ back ∧
      putEntry count url row warning top.length (top, printed) entry =
        (front ++ entryRow row entry :: back, printed) ∧
      (∀ a ∈ front, entry.2 ≤ count a) ∧ (∀ b ∈ back, count b ≤ entry.2) ∧
      (entry.2 = 0 → back = []) := by
  have hlastRow : rowAt row top (top.length - 1) = last := by
    have hlen : top.length - 1 = init.length := by
      rw [htop, List.length_append]
      rfl
    rw [hlen, htop]
    exact rowAt_append init [] last
  unfold putEntry
  simp only [hlastRow]
  by_cases hsmall : entry.2 < count last
  · exact Or.inl ⟨hsmall, if_pos hsmall⟩
  · have hle := UInt64.not_lt.mp hsmall
    refine Or.inr ⟨hle, ?_⟩
    have hne : top ≠ [] := by
      rw [htop]
      simp
    obtain ⟨front, r, back, hsplit, hshift, hback, hstop⟩ :=
      shiftRows_spec entry.2 hne hcopy []
    rw [List.append_nil, List.append_nil] at hshift
    obtain ⟨hinit, -⟩ := split_last (htop.symm.trans hsplit)
    have hbefore : ∀ a ∈ front, count r ≤ count a := by
      rw [hsplit] at hsorted
      intro a ha
      exact (List.pairwise_append.mp hsorted).2.2 a ha r List.mem_cons_self
    rw [if_neg hsmall, hshift]
    simp only [rowAt_append]
    by_cases hge : entry.2 ≥ count r
    · -- the upper copy of `r` is overwritten
      rw [if_pos hge, set_append]
      exact ⟨front, (r :: back).dropLast, hinit, rfl, between_upper hbefore hback hstop hge⟩
    · -- the lower copy is overwritten; there is one, as `r` is not the last row
      have hlt := UInt64.not_le.mp hge
      rcases List.eq_nil_or_concat back with rfl | ⟨back', b, rfl⟩
      · obtain ⟨-, heq⟩ := List.append_inj' (htop.symm.trans hsplit) rfl
        rw [List.cons.inj heq |>.1] at hle
        exact absurd hle (UInt64.not_le.mpr hlt)
      · rw [List.concat_eq_append] at *
        have hdrop : (r :: (back' ++ [b])).dropLast = r :: back' := by
          rw [← List.cons_append, List.dropLast_concat]
        have hset : (front ++ r :: r :: back').set (front.length + 1) (entryRow row entry) =
            front ++ r :: entryRow row entry :: back' := by
          have hupper := set_append (front ++ [r]) back' r (entryRow row entry)
          rw [List.length_append, List.append_assoc, List.append_assoc] at hupper
          exact hupper
        have hroom : ¬ front.length + 1 = top.length := by
          rw [hsplit, List.length_append, List.length_cons, List.length_append,
            List.length_singleton]
          omega
        rw [if_neg hge, hdrop, if_neg hroom]
        refine ⟨front ++ [r], back', ?_, ?_, between_lower hbefore hback hlt⟩
        · rw [hinit, hdrop]
          simp
        · rw [List.append_assoc]
          exact congrArg (·, printed) hset

/-! ## All entries -/

/-- What is in a row: nothing yet, or an entry of the table. -/
abbrev Slot : Type := Option (Σ _ : List UInt8, UInt64)

/-- The row with this in it. -/
def slotRow (row : UInt64 → List UInt8 → Row) : Slot → Row
  | none => blankRow row
  | some entry => entryRow row entry

/-- The count in a row. -/
def slotCount : Slot → ℕ
  | none => 0
  | some entry => entry.2.toNat

/-- What an entry leaves in a last row with the count 0. -/
def zeroSlot (entry : Σ _ : List UInt8, UInt64) : Slot :=
  if entry.2 = 0 then some entry else none

/-- The rows with the count 0 are blank, but for the last one, which has `zero` in it. -/
def ZeroRows (zero : Slot) (slots : List Slot) : Prop :=
  ∃ init last, slots = init ++ [last] ∧ (∀ slot ∈ init, slotCount slot = 0 → slot = none) ∧
    (slotCount last = 0 → last = zero)

theorem slotCount_some_eq_zero {entry : Σ _ : List UInt8, UInt64} :
    slotCount (some entry) = 0 ↔ entry.2 = 0 :=
  UInt64.toNat_inj (b := 0)

theorem zeroRows_replicate {k : ℕ} (hk : 1 ≤ k) : ZeroRows none (List.replicate k none) := by
  obtain ⟨n, rfl⟩ := Nat.exists_eq_add_of_le' hk
  refine ⟨List.replicate n none, none, List.replicate_succ', fun slot hslot _ => ?_, fun _ => rfl⟩
  exact List.eq_of_mem_replicate hslot

/-- Where the last row has a positive count, all rows have. -/
theorem zeroRows_of_pos {all init : List Slot} {last : Slot}
    (htop : IsTop slotCount all (init ++ [last])) (hlast : 0 < slotCount last) (zero : Slot) :
    ZeroRows zero (init ++ [last]) := by
  refine ⟨init, last, rfl, fun slot hslot hzero => ?_, fun hzero => ?_⟩
  · have hle := (List.pairwise_append.mp htop.sorted).2.2 slot hslot last List.mem_cons_self
    omega
  · omega

/-- A positive count among the others pushes the last row out, and the row above it is blank. -/
theorem zeroRows_insert {zero last : Slot} {front back : List Slot}
    (h : ZeroRows zero (front ++ back ++ [last])) {entry : Σ _ : List UInt8, UInt64}
    (hback : entry.2 = 0 → back = []) :
    ZeroRows (zeroSlot entry) (front ++ some entry :: back) := by
  obtain ⟨init', last', hsplit, hinit, -⟩ := h
  obtain ⟨rfl, -⟩ := List.append_inj' hsplit rfl
  unfold zeroSlot
  by_cases hzero : entry.2 = 0
  · rw [hback hzero, if_pos hzero]
    exact ⟨front, some entry, rfl, fun slot hslot => hinit slot (List.mem_append_left _ hslot),
      fun _ => rfl⟩
  · rw [if_neg hzero]
    have hall : ∀ slot ∈ front ++ some entry :: back, slotCount slot = 0 → slot = none := by
      intro slot hslot hcount
      rcases List.mem_append.mp hslot with hfront | hrest
      · exact hinit slot (List.mem_append_left _ hfront) hcount
      · rcases List.mem_cons.mp hrest with rfl | hback
        · exact absurd (slotCount_some_eq_zero.mp hcount) hzero
        · exact hinit slot (List.mem_append_right _ hback) hcount
    have hne : front ++ some entry :: back ≠ [] :=
      List.append_ne_nil_of_right_ne_nil _ (List.cons_ne_nil _ _)
    obtain ⟨init, x, hconcat⟩ := (List.eq_nil_or_concat _).resolve_left hne
    rw [List.concat_eq_append] at hconcat
    rw [hconcat] at hall ⊢
    exact ⟨init, x, rfl, fun slot hslot => hall slot (List.mem_append_left _ hslot),
      hall x (List.mem_append_right _ List.mem_cons_self)⟩

variable (hcount : ∀ c u, count (row c u) = c) (hurl : ∀ c u, url (row c u) = u)
include hcount

theorem count_slotRow (slot : Slot) : (count (slotRow row slot)).toNat = slotCount slot := by
  cases slot with
  | none => exact congrArg UInt64.toNat (hcount 0 [])
  | some entry => exact congrArg UInt64.toNat (hcount _ _)

theorem sorted_slots {all slots : List Slot} (h : IsTop slotCount all slots) :
    (slots.map (slotRow row)).Pairwise fun a b => count b ≤ count a := by
  rw [List.pairwise_map]
  refine h.sorted.imp fun {a b} hle => ?_
  rw [UInt64.le_iff_toNat_le, count_slotRow hcount, count_slotRow hcount]
  exact hle

include hurl

/-- The URL of a row is never longer than what `strncpy` copies. -/
theorem copyRow_slotRow (slot : Slot) :
    copyRow count url row (slotRow row slot) = slotRow row slot := by
  cases slot with
  | none =>
    show row (count (row 0 [])) (strncpy (url (row 0 [])) (strlenmax - 1)) = row 0 []
    rw [hcount, hurl]
    rfl
  | some entry =>
    show row (count (entryRow row entry)) (strncpy (url (entryRow row entry)) (strlenmax - 1)) = _
    unfold entryRow
    rw [hcount, hurl]
    have hshort : (strncpy entry.1 (strlenmax - 1)).length ≤ strlenmax - 1 :=
      List.length_take_le _ _
    rw [CString.strncpy_eq_self hshort]
    rfl

/-- What one entry does to the rows, by what is in them. -/
theorem putEntry_cases {all init : List Slot} {last : Slot}
    (htop : IsTop slotCount all (init ++ [last])) (warning printed : List String)
    (entry : Σ _ : List UInt8, UInt64) :
    slotCount (some entry) < slotCount last ∧
      putEntry count url row warning (init ++ [last]).length
          ((init ++ [last]).map (slotRow row), printed) entry =
        ((init ++ [last]).map (slotRow row), printed) ∨
    slotCount last ≤ slotCount (some entry) ∧ ∃ front back, init = front ++ back ∧
      putEntry count url row warning (init ++ [last]).length
          ((init ++ [last]).map (slotRow row), printed) entry =
        ((front ++ some entry :: back).map (slotRow row), printed) ∧
      (∀ a ∈ front, slotCount (some entry) ≤ slotCount a) ∧
      (∀ b ∈ back, slotCount b ≤ slotCount (some entry)) ∧ (entry.2 = 0 → back = []) := by
  have hmap :
      (init ++ [last]).map (slotRow row) = init.map (slotRow row) ++ [slotRow row last] := by
    rw [List.map_append, List.map_singleton]
  have hcopy : ∀ r ∈ (init ++ [last]).map (slotRow row), copyRow count url row r = r := by
    intro r hr
    obtain ⟨slot, -, rfl⟩ := List.mem_map.mp hr
    exact copyRow_slotRow hcount hurl slot
  have hspec := putEntry_spec hmap (sorted_slots hcount htop) hcopy warning printed entry
  rw [List.length_map] at hspec
  rcases hspec with ⟨hsmall, hput⟩ | ⟨hle, front, back, hinit, hput, hfront, hback, hzero⟩
  · rw [UInt64.lt_iff_toNat_lt, count_slotRow hcount] at hsmall
    exact Or.inl ⟨hsmall, hput⟩
  · obtain ⟨front', back', rfl, rfl, rfl⟩ := List.map_eq_append_iff.mp hinit
    rw [UInt64.le_iff_toNat_le, count_slotRow hcount] at hle
    refine Or.inr ⟨hle, front', back', rfl, ?_, fun a ha => ?_, fun b hb => ?_, fun h => ?_⟩
    · rw [hput, List.map_append, List.map_cons]
      rfl
    · have hcmp := hfront _ (List.mem_map_of_mem ha)
      rw [UInt64.le_iff_toNat_le, count_slotRow hcount] at hcmp
      exact hcmp
    · have hcmp := hback _ (List.mem_map_of_mem hb)
      rw [UInt64.le_iff_toNat_le, count_slotRow hcount] at hcmp
      exact hcmp
    · exact List.map_eq_nil_iff.mp (hzero h)

/-- An entry leaves the largest ones of those seen so far in the rows. -/
theorem putEntry_slots {all slots : List Slot} {zero : Slot} {k : ℕ} (hk : 1 ≤ k)
    (hlen : slots.length = k) (htop : IsTop slotCount all slots) (hzero : ZeroRows zero slots)
    (warning printed : List String) (entry : Σ _ : List UInt8, UInt64) :
    ∃ slots', putEntry count url row warning k (slots.map (slotRow row), printed) entry =
        (slots'.map (slotRow row), printed) ∧ slots'.length = k ∧
      IsTop slotCount (some entry :: all) slots' ∧ ZeroRows (zeroSlot entry) slots' := by
  have hne : slots ≠ [] := by
    rintro rfl
    rw [List.length_nil] at hlen
    omega
  obtain ⟨init, last, rfl⟩ := (List.eq_nil_or_concat slots).resolve_left hne
  rw [List.concat_eq_append] at *
  have hcases := putEntry_cases hcount hurl htop warning printed entry
  rw [hlen] at hcases
  rcases hcases with ⟨hsmall, hput⟩ | ⟨hle, front, back, rfl, hput, hfront, hback, hnil⟩
  · exact ⟨init ++ [last], hput, hlen, htop.skip (Nat.le_of_lt hsmall),
      zeroRows_of_pos htop (Nat.zero_lt_of_lt hsmall) _⟩
  · refine ⟨front ++ some entry :: back, hput, ?_, htop.insert hfront hback hle,
      zeroRows_insert hzero hnil⟩
    rw [← hlen]
    simp only [List.length_append, List.length_cons, List.length_nil]
    omega

theorem foldl_putEntry_slots {all slots : List Slot} {zero : Slot} {k : ℕ} (hk : 1 ≤ k)
    (hlen : slots.length = k) (htop : IsTop slotCount all slots) (hzero : ZeroRows zero slots)
    (warning printed : List String) (iter : List (Σ _ : List UInt8, UInt64)) :
    ∃ slots', iter.foldl (putEntry count url row warning k) (slots.map (slotRow row), printed) =
        (slots'.map (slotRow row), printed) ∧ slots'.length = k ∧
      IsTop slotCount ((iter.map some).reverse ++ all) slots' ∧
      ZeroRows ((iter.getLast?.map zeroSlot).getD zero) slots' := by
  induction iter generalizing all slots zero with
  | nil => exact ⟨slots, rfl, hlen, htop, hzero⟩
  | cons entry iter ih =>
    obtain ⟨slots₁, hput, hlen₁, htop₁, hzero₁⟩ :=
      putEntry_slots hcount hurl hk hlen htop hzero warning printed entry
    obtain ⟨slots', hrest, hlen', htop', hzero'⟩ := ih hlen₁ htop₁ hzero₁
    refine ⟨slots', ?_, hlen', ?_, ?_⟩
    · rw [List.foldl_cons, hput, hrest]
    · rw [List.map_cons, List.reverse_cons, List.append_assoc]
      exact htop'
    · cases iter with
      | nil => exact hzero'
      | cons next iter =>
        rw [List.getLast?_cons_cons]
        rw [List.getLast?_eq_some_getLast (List.cons_ne_nil next iter)] at hzero' ⊢
        exact hzero'

/-- What the last entry leaves in a last row with the count 0. -/
def lastZero (iter : List (Σ _ : List UInt8, UInt64)) : Slot :=
  (iter.getLast?.map zeroSlot).getD none

/-- Starting with blank rows, the largest entries are in the rows at the end, and nothing has been
printed. -/
theorem getTop_slots {k : ℕ} (hk : 1 ≤ k) (warning : List String)
    (iter : List (Σ _ : List UInt8, UInt64)) :
    ∃ slots, getTop count url row warning iter k (List.replicate k (blankRow row)) =
        (slots.map (slotRow row), []) ∧ slots.length = k ∧
      IsTop slotCount (iter.map some ++ List.replicate k none) slots ∧
      ZeroRows (lastZero iter) slots := by
  have hblank : List.replicate k (blankRow row) =
      (List.replicate k (none : Slot)).map (slotRow row) := by
    rw [List.map_replicate]
    rfl
  obtain ⟨slots, hfold, hlen, htop, hzero⟩ := foldl_putEntry_slots hcount hurl hk
    List.length_replicate (isTop_replicate slotCount k none) (zeroRows_replicate hk) warning []
    iter
  refine ⟨slots, ?_, hlen, htop.perm ((List.reverse_perm _).append_right _), hzero⟩
  unfold getTop
  rw [hblank, hfold]

end getTop

/-! ## The two arrays -/

/-- The pair in a row. -/
def slotPair : Slot → List UInt8 × UInt64
  | none => ([], 0)
  | some entry => (entry.1, entry.2)

/-- The counts of the entries. -/
def tableCounts (iter : List (Σ _ : List UInt8, UInt64)) : List ℕ := iter.map fun e => e.2.toNat

/-- The rows are right for a table whose entries come in this order: the counts are the `k` largest
ones in falling order, with zeros if there are fewer, and each row is blank or holds an entry of the
table, with no entry in two rows. -/
structure TopCorrect (iter : List (Σ _ : List UInt8, UInt64)) (k : ℕ)
    (rows : List (List UInt8 × UInt64)) : Prop where
  counts : rows.map (·.2.toNat) =
    ((tableCounts iter ++ List.replicate k 0).mergeSort fun a b => b ≤ a).take k
  entries : ∃ slots : List Slot, rows = slots.map slotPair ∧ (slots.filterMap id).Nodup ∧
    ∀ entry ∈ slots.filterMap id, entry ∈ iter

theorem filterMap_entries (iter : List (Σ _ : List UInt8, UInt64)) (k : ℕ) :
    (iter.map some ++ List.replicate k none).filterMap id = iter := by
  rw [List.filterMap_append, List.filterMap_map, List.filterMap_replicate_of_none rfl,
    List.append_nil]
  exact List.filterMap_some

theorem topCorrect_of_isTop {iter : List (Σ _ : List UInt8, UInt64)} {k : ℕ} {slots : List Slot}
    (hnodup : iter.Nodup) (hlen : slots.length = k)
    (htop : IsTop slotCount (iter.map some ++ List.replicate k none) slots) :
    TopCorrect iter k (slots.map slotPair) := by
  obtain ⟨rest, hperm, -⟩ := htop.split
  have hentries := hperm.filterMap id
  rw [List.filterMap_append, filterMap_entries] at hentries
  refine ⟨?_, slots, rfl, ?_, fun entry hmem => ?_⟩
  · have hcounts := htop.map_eq_take
    have hall : (iter.map some ++ List.replicate k none).map slotCount =
        tableCounts iter ++ List.replicate k 0 := by
      rw [List.map_append, List.map_map, List.map_replicate]
      rfl
    have hrows : (slots.map slotPair).map (·.2.toNat) = slots.map slotCount := by
      rw [List.map_map]
      refine List.map_congr_left fun slot _ => ?_
      cases slot <;> rfl
    rw [hall, hlen] at hcounts
    rw [hrows, hcounts]
  · exact (List.nodup_append.mp (hentries.nodup_iff.mpr hnodup)).1
  · exact hentries.mem_iff.mp (List.mem_append_left _ hmem)

/-- The rows hold the pairs, as the keys are short. -/
theorem getTop_pairs {Row : Type} {count : Row → UInt64} {url : Row → List UInt8}
    {row : UInt64 → List UInt8 → Row} (hcount : ∀ c u, count (row c u) = c)
    (hurl : ∀ c u, url (row c u) = u) {iter : List (Σ _ : List UInt8, UInt64)} {k : ℕ}
    (hk : 1 ≤ k) (hshort : ∀ entry ∈ iter, entry.1.length < strlenmax) (warning : List String) :
    ∃ slots, ((getTop count url row warning iter k
        (List.replicate k (blankRow row))).1.map fun r => (url r, count r)) =
        slots.map slotPair ∧ slots.length = k ∧
      IsTop slotCount (iter.map some ++ List.replicate k none) slots ∧
      ZeroRows (lastZero iter) slots := by
  obtain ⟨slots, hrows, hlen, htop, hzero⟩ := getTop_slots hcount hurl hk warning iter
  refine ⟨slots, ?_, hlen, htop, hzero⟩
  obtain ⟨rest, hperm, -⟩ := htop.split
  rw [hrows, List.map_map]
  refine List.map_congr_left fun slot hslot => ?_
  cases slot with
  | none => exact Prod.ext (hurl 0 []) (hcount 0 [])
  | some entry =>
    have hmem : entry ∈ iter := by
      rw [← filterMap_entries iter k]
      refine List.mem_filterMap.mpr ⟨some entry, ?_, rfl⟩
      exact hperm.mem_iff.mp (List.mem_append_left _ hslot)
    have hcopy : strncpy entry.1 (strlenmax - 1) = entry.1 :=
      CString.strncpy_eq_self (Nat.le_sub_one_of_lt (hshort entry hmem))
    refine Prod.ext ?_ (hcount _ _)
    show url (row entry.2 (strncpy entry.1 (strlenmax - 1))) = entry.1
    rw [hurl, hcopy]

theorem topCorrect_getTop {Row : Type} {count : Row → UInt64} {url : Row → List UInt8}
    {row : UInt64 → List UInt8 → Row} (hcount : ∀ c u, count (row c u) = c)
    (hurl : ∀ c u, url (row c u) = u) {iter : List (Σ _ : List UInt8, UInt64)} {k : ℕ}
    (hk : 1 ≤ k) (hnodup : iter.Nodup) (hshort : ∀ entry ∈ iter, entry.1.length < strlenmax)
    (warning : List String) :
    TopCorrect iter k ((getTop count url row warning iter k
      (List.replicate k (blankRow row))).1.map fun r => (url r, count r)) := by
  obtain ⟨slots, hrows, hlen, htop, -⟩ := getTop_pairs hcount hurl hk hshort warning
  rw [hrows]
  exact topCorrect_of_isTop hnodup hlen htop

theorem length_key_lt {t : GHashTable (List UInt8) UInt64}
    {iter : List (Σ _ : List UInt8, UInt64)} (hiter : GHashTable.Enumerates iter t)
    (hkeys : ∀ key ∈ t, key.length < strlenmax) : ∀ entry ∈ iter, entry.1.length < strlenmax := by
  intro entry hmem
  have hlookup := (hiter.mem_iff entry.1 entry.2).mp hmem
  exact hkeys entry.1 (Finmap.mem_of_lookup_eq_some hlookup)

/-- For every table with short keys, every order of its entries and every array of at least one row,
all zero: both functions leave the right rows. -/
theorem get_top_correct {t : GHashTable (List UInt8) UInt64}
    {iter : List (Σ _ : List UInt8, UInt64)} (hiter : GHashTable.Enumerates iter t)
    (hkeys : ∀ key ∈ t, key.length < strlenmax) {k : ℕ} (hk : 1 ≤ k) :
    TopCorrect iter k ((getTopUrls iter k (List.replicate k ⟨0, []⟩)).1.map
        fun r => (r.url, r.urlBytesCount)) ∧
      TopCorrect iter k ((getTopReferers iter k (List.replicate k ⟨0, []⟩)).1.map
        fun r => (r.url, r.refererCount)) := by
  have hnodup : iter.Nodup := hiter.nodupKeys.nodup
  have hshort := length_key_lt hiter hkeys
  exact ⟨topCorrect_getTop (fun _ _ => rfl) (fun _ _ => rfl) hk hnodup hshort _,
    topCorrect_getTop (fun _ _ => rfl) (fun _ _ => rfl) hk hnodup hshort _⟩

theorem length_toFinmap_lt {iter : List (Σ _ : List UInt8, UInt64)}
    (hshort : ∀ entry ∈ iter, entry.1.length < strlenmax) :
    ∀ key ∈ iter.toFinmap, key.length < strlenmax := by
  intro key hkey
  obtain ⟨val, hmem⟩ := (Finmap.mem_list_toFinmap key iter).mp hkey
  exact hshort ⟨key, val⟩ hmem

/-- A table with three entries, two of them with the same count. -/
def threeEntries : List (Σ _ : List UInt8, UInt64) := [⟨[97], 5⟩, ⟨[98], 7⟩, ⟨[99], 5⟩]

/-- With two rows, one of the equal entries is left out; with four rows, the last one is blank. -/
theorem get_top_correct_three :
    (getTopUrls threeEntries 2 (List.replicate 2 ⟨0, []⟩)).1 = [⟨7, [98]⟩, ⟨5, [99]⟩] ∧
    (TopCorrect threeEntries 2 ((getTopUrls threeEntries 2 (List.replicate 2 ⟨0, []⟩)).1.map
        fun r => (r.url, r.urlBytesCount)) ∧
      TopCorrect threeEntries 2 ((getTopReferers threeEntries 2 (List.replicate 2 ⟨0, []⟩)).1.map
        fun r => (r.url, r.refererCount))) ∧
    (getTopUrls threeEntries 4 (List.replicate 4 ⟨0, []⟩)).1 =
      [⟨7, [98]⟩, ⟨5, [99]⟩, ⟨5, [97]⟩, ⟨0, []⟩] ∧
    (TopCorrect threeEntries 4 ((getTopUrls threeEntries 4 (List.replicate 4 ⟨0, []⟩)).1.map
        fun r => (r.url, r.urlBytesCount)) ∧
      TopCorrect threeEntries 4 ((getTopReferers threeEntries 4 (List.replicate 4 ⟨0, []⟩)).1.map
        fun r => (r.url, r.refererCount))) := by
  have hkeys : ∀ key ∈ threeEntries.toFinmap, key.length < strlenmax :=
    length_toFinmap_lt (by decide)
  have hiter : GHashTable.Enumerates threeEntries threeEntries.toFinmap := rfl
  exact ⟨rfl, get_top_correct hiter hkeys (by decide), rfl,
    get_top_correct hiter hkeys (by decide)⟩

end CDevHws.Hw22
