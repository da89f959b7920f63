import CDevHws.Lib.GHashTable
import Mathlib.Algebra.BigOperators.Group.Finset.Piecewise

/-!
# Tables of sums

A table that keeps a sum for each key: an addition to a key that is not there yet inserts it. The
values add up in any commutative monoid, so the order of the additions does not matter.
-/

namespace Tally

variable {K V : Type*} [DecidableEq K] [AddCommMonoid V]

/-- Add `v` to the value of `k`, or insert it. -/
def add (t : GHashTable K V) (k : K) (v : V) : GHashTable K V :=
  match t.lookup k with
  | some old => t.insert k (old + v)
  | none => t.insert k v

/-- The value of a key, 0 if it is not there. -/
def value (t : GHashTable K V) (k : K) : V := (t.lookup k).getD 0

/-- The sum of all values. -/
def total (t : GHashTable K V) : V := ∑ k ∈ t.keys, value t k

/-- A list of additions, in their order. -/
def addList (t : GHashTable K V) (l : List (K × V)) : GHashTable K V :=
  l.foldl (fun t e => add t e.1 e.2) t

/-- What a list of additions adds to the value of `k`. -/
def sumOf (l : List (K × V)) (k : K) : V := ((l.filter (·.1 = k)).map Prod.snd).sum

/-! ## One addition -/

theorem add_eq_insert (t : GHashTable K V) (k : K) (v : V) :
    add t k v = t.insert k (value t k + v) := by
  unfold add value
  cases t.lookup k with
  | none => rw [Option.getD_none, zero_add]
  | some old => rfl

theorem mem_add {t : GHashTable K V} {k k' : K} {v : V} : k' ∈ add t k v ↔ k' = k ∨ k' ∈ t := by
  rw [add_eq_insert, Finmap.mem_insert]

theorem value_add (t : GHashTable K V) (k k' : K) (v : V) :
    value (add t k v) k' = value t k' + if k = k' then v else 0 := by
  rw [add_eq_insert]
  by_cases h : k = k'
  · subst h
    unfold value
    rw [Finmap.lookup_insert, if_pos rfl, Option.getD_some]
  · unfold value
    rw [Finmap.lookup_insert_of_ne _ (Ne.symm h), if_neg h, add_zero]

theorem value_of_notMem {t : GHashTable K V} {k : K} (h : k ∉ t) : value t k = 0 := by
  unfold value
  rw [Finmap.lookup_eq_none.mpr h, Option.getD_none]

/-- The value of a key that is not there is 0, so it may be counted in. -/
theorem total_eq_sum {t : GHashTable K V} {s : Finset K} (h : t.keys ⊆ s) :
    total t = ∑ k ∈ s, value t k := by
  refine Finset.sum_subset h fun k _ hk => value_of_notMem ?_
  rwa [← Finmap.mem_keys]

theorem total_add (t : GHashTable K V) (k : K) (v : V) : total (add t k v) = total t + v := by
  have hkeys : (add t k v).keys = insert k t.keys := by
    ext k'
    rw [Finmap.mem_keys, mem_add, Finset.mem_insert, Finmap.mem_keys]
  have hsum : ∑ k' ∈ insert k t.keys, (if k = k' then v else 0) = v := by
    rw [Finset.sum_ite_eq, if_pos (Finset.mem_insert_self k _)]
  rw [total_eq_sum (Finset.subset_insert k t.keys)]
  unfold total
  rw [hkeys, Finset.sum_congr rfl fun k' _ => value_add t k k' v, Finset.sum_add_distrib, hsum]

/-! ## Many additions -/

theorem mem_addList {t : GHashTable K V} {l : List (K × V)} {k : K} :
    k ∈ addList t l ↔ k ∈ t ∨ k ∈ l.map Prod.fst := by
  unfold addList
  induction l generalizing t with
  | nil => simp
  | cons e l ih =>
    rw [List.foldl_cons, ih, mem_add, List.map_cons, List.mem_cons]
    tauto

theorem value_addList (t : GHashTable K V) (l : List (K × V)) (k : K) :
    value (addList t l) k = value t k + sumOf l k := by
  unfold addList sumOf
  induction l generalizing t with
  | nil => rw [List.filter_nil, List.map_nil, List.sum_nil, add_zero]; rfl
  | cons e l ih =>
    rw [List.foldl_cons, ih, value_add, List.filter_cons]
    by_cases h : e.1 = k
    · rw [if_pos h, if_pos (decide_eq_true h), List.map_cons, List.sum_cons, add_assoc]
    · rw [if_neg h, add_zero, if_neg (by simpa using h)]

theorem sumOf_append (l l' : List (K × V)) (k : K) :
    sumOf (l ++ l') k = sumOf l k + sumOf l' k := by
  unfold sumOf
  rw [List.filter_append, List.map_append, List.sum_append]

theorem total_addList (t : GHashTable K V) (l : List (K × V)) :
    total (addList t l) = total t + (l.map Prod.snd).sum := by
  unfold addList
  induction l generalizing t with
  | nil => rw [List.map_nil, List.sum_nil, add_zero]; rfl
  | cons e l ih => rw [List.foldl_cons, ih, total_add, List.map_cons, List.sum_cons, add_assoc]

@[simp] theorem total_empty : total (∅ : GHashTable K V) = 0 := rfl

@[simp] theorem value_empty (k : K) : value (∅ : GHashTable K V) k = 0 := by
  unfold value
  rw [Finmap.lookup_empty, Option.getD_none]

theorem lookup_addList_of_mem {l : List (K × V)} {k : K} (hk : k ∈ l.map Prod.fst) :
    (addList ∅ l).lookup k = some (sumOf l k) := by
  have hvalue := value_addList ∅ l k
  rw [value_empty, zero_add] at hvalue
  have hmem : k ∈ addList ∅ l := mem_addList.mpr (Or.inr hk)
  obtain ⟨v, hv⟩ := Finmap.mem_iff.mp hmem
  unfold value at hvalue
  rw [hv, Option.getD_some] at hvalue
  rw [hv, hvalue]

theorem lookup_addList_of_notMem {l : List (K × V)} {k : K} (hk : k ∉ l.map Prod.fst) :
    (addList ∅ l).lookup k = none := by
  refine Finmap.lookup_eq_none.mpr fun h => ?_
  exact (mem_addList.mp h).elim Finmap.notMem_empty hk

/-- Two tables with the same keys and the same values are the same. -/
theorem ext {t t' : GHashTable K V} (hmem : ∀ k, k ∈ t ↔ k ∈ t')
    (hval : ∀ k, value t k = value t' k) : t = t' := by
  refine Finmap.ext_lookup fun k => ?_
  have hk := hval k
  unfold value at hk
  cases h : t.lookup k with
  | none =>
    have hnot : k ∉ t' := fun hin => Finmap.lookup_eq_none.mp h ((hmem k).mpr hin)
    rw [Finmap.lookup_eq_none.mpr hnot]
  | some v =>
    have hin : k ∈ t' := (hmem k).mp (Finmap.mem_of_lookup_eq_some h)
    obtain ⟨v', hv'⟩ := Finmap.mem_iff.mp hin
    rw [h, hv', Option.getD_some, Option.getD_some] at hk
    rw [hv', hk]

/-- The order of the additions does not matter. -/
theorem addList_perm {l l' : List (K × V)} (h : l.Perm l') (t : GHashTable K V) :
    addList t l = addList t l' := by
  refine ext (fun k => ?_) fun k => ?_
  · rw [mem_addList, mem_addList, (h.map Prod.fst).mem_iff]
  · rw [value_addList, value_addList]
    exact congrArg _ ((h.filter _).map Prod.snd).sum_eq

/-! ## Adding up another table -/

section iter

variable {iter : List (Σ _ : K, V)} {k : K}

theorem sumOf_of_notMem (f : V → V) (h : k ∉ iter.keys) :
    sumOf (iter.map fun e => (e.1, f e.2)) k = 0 := by
  unfold sumOf
  have hnil : (iter.map fun e => (e.1, f e.2)).filter (·.1 = k) = [] := by
    rw [List.filter_eq_nil_iff]
    intro p hp
    obtain ⟨e, he, rfl⟩ := List.mem_map.mp hp
    have hne : e.1 ≠ k := fun heq => h (heq ▸ List.mem_keys_of_mem he)
    simpa using hne
  rw [hnil, List.map_nil, List.sum_nil]

theorem sumOf_of_mem (f : V → V) (hn : iter.NodupKeys) {v : V} (h : ⟨k, v⟩ ∈ iter) :
    sumOf (iter.map fun e => (e.1, f e.2)) k = f v := by
  induction iter with
  | nil => cases h
  | cons e iter ih =>
    obtain ⟨hnot, hn'⟩ := List.nodupKeys_cons.mp hn
    rcases List.mem_cons.mp h with rfl | hrest
    · have hzero := sumOf_of_notMem f hnot
      unfold sumOf at hzero ⊢
      rw [List.map_cons, List.filter_cons_of_pos (by simp), List.map_cons, List.sum_cons, hzero,
        add_zero]
    · have hne : e.1 ≠ k := fun heq => hnot (heq ▸ List.mem_keys_of_mem hrest)
      have hsum := ih hn' hrest
      unfold sumOf at hsum ⊢
      rw [List.map_cons, List.filter_cons_of_neg (by simpa using hne)]
      exact hsum

/-- Adding up the entries of another table, in any order, adds to each key what `f` makes of its
value there. -/
theorem sumOf_enumerates {f : V → V} (hf : f 0 = 0) {t : GHashTable K V}
    (h : GHashTable.Enumerates iter t) (k : K) :
    sumOf (iter.map fun e => (e.1, f e.2)) k = f (value t k) := by
  unfold value
  cases hlookup : t.lookup k with
  | none =>
    rw [Option.getD_none, hf]
    refine sumOf_of_notMem f fun hmem => ?_
    obtain ⟨v, hv⟩ := List.exists_of_mem_keys hmem
    rw [h.mem_iff, hlookup] at hv
    cases hv
  | some v =>
    rw [Option.getD_some]
    exact sumOf_of_mem f h.nodupKeys ((h.mem_iff k v).mpr hlookup)

end iter

end Tally
