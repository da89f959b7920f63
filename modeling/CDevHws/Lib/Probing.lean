import Mathlib.Logic.Function.Basic
import Mathlib.Order.Basic

/-!
# Open addressing with linear probing

A table of `n` cells holds at most one key in each cell. The search for a key starts in the key's
home cell, goes from cell to cell, wraps around at the end, and stops at the first cell that is free
or holds the key. What makes it find every stored key is an invariant, `WellProbed`: on the way from
the home cell of a stored key to its cell there is no free cell. Filling the cell that a search
stops at keeps the invariant.
-/

namespace Probing

variable {K : Type*}

/-- The cell visited at step `d` of a search that starts in cell `h`. -/
def visit (n h d : ℕ) : ℕ := (h + d) % n

theorem visit_lt {n : ℕ} (hn : 0 < n) (h d : ℕ) : visit n h d < n := Nat.mod_lt _ hn

/-- The next cell, as a loop computes it that starts again at 0 behind the last cell. -/
theorem visit_succ {n : ℕ} (hn : 0 < n) (h d : ℕ) :
    visit n h (d + 1) = if visit n h d + 1 = n then 0 else visit n h d + 1 := by
  have hlt := visit_lt hn h d
  unfold visit at *
  have hstep : (h + (d + 1)) % n = ((h + d) % n + 1) % n := by rw [← Nat.add_assoc, Nat.mod_add_mod]
  rw [hstep]
  split_ifs with heq
  · rw [heq, Nat.mod_self]
  · exact Nat.mod_eq_of_lt (by omega)

theorem exists_visit {n h i : ℕ} (hi : i < n) : ∃ d < n, visit n h d = i := by
  have hn : 0 < n := by omega
  have hlt := Nat.mod_lt h hn
  by_cases hle : h % n ≤ i
  · refine ⟨i - h % n, by omega, ?_⟩
    unfold visit
    rw [← Nat.mod_add_mod, show h % n + (i - h % n) = i by omega]
    exact Nat.mod_eq_of_lt hi
  · refine ⟨i + n - h % n, by omega, ?_⟩
    unfold visit
    rw [← Nat.mod_add_mod, show h % n + (i + n - h % n) = i + n by omega, Nat.add_mod_right]
    exact Nat.mod_eq_of_lt hi

variable (n : ℕ) (home : K → ℕ) (keys : ℕ → Option K)

/-- Cell `i` is neither free nor does it hold `k`: the search for `k` goes on. -/
def Passed (k : K) (i : ℕ) : Prop := keys i ≠ none ∧ keys i ≠ some k

/-- The search for `k` stops at cell `i`. -/
def StopsAt (k : K) (i : ℕ) : Prop :=
  ∃ d < n, visit n (home k) d = i ∧ ¬ Passed keys k i ∧
    ∀ e < d, Passed keys k (visit n (home k) e)

/-- The search for `k` visits all cells and stops at none. -/
def Fails (k : K) : Prop := ∀ d < n, Passed keys k (visit n (home k) d)

/-- The probing invariant. -/
structure WellProbed : Prop where
  /-- A key is stored once. -/
  unique : ∀ i < n, ∀ j < n, ∀ k, keys i = some k → keys j = some k → i = j
  /-- There is no free cell on the way from the home of a stored key to its cell. -/
  chain : ∀ i < n, ∀ k, keys i = some k →
    ∃ d < n, visit n (home k) d = i ∧ ∀ e < d, keys (visit n (home k) e) ≠ none

variable {n home keys}

theorem StopsAt.lt {k : K} {i : ℕ} (h : StopsAt n home keys k i) : i < n := by
  obtain ⟨d, hd, rfl, -, -⟩ := h
  exact visit_lt (by omega) _ _

theorem StopsAt.free_or_key {k : K} {i : ℕ} (h : StopsAt n home keys k i) :
    keys i = none ∨ keys i = some k := by
  obtain ⟨d, hd, rfl, hp, -⟩ := h
  by_cases hf : keys (visit n (home k) d) = none
  · exact Or.inl hf
  · exact Or.inr (by_contra fun hne => hp ⟨hf, hne⟩)

/-- The search for a stored key stops at its cell. -/
theorem StopsAt.eq_of_stored (hw : WellProbed n home keys) {k : K} {i j : ℕ}
    (h : StopsAt n home keys k i) (hj : j < n) (hk : keys j = some k) : i = j := by
  obtain ⟨d', hd', hvisit, hchain⟩ := hw.chain j hj k hk
  have hfree := h.free_or_key
  have hi := h.lt
  obtain ⟨d, hd, rfl, -, hbefore⟩ := h
  rcases Nat.lt_trichotomy d d' with hlt | rfl | hgt
  · have hne := hchain d hlt
    exact hw.unique _ hi j hj k (hfree.resolve_left hne) hk
  · exact hvisit
  · obtain ⟨-, hne⟩ := hbefore d' hgt
    rw [hvisit] at hne
    exact absurd hk hne

theorem Fails.passed {k : K} (h : Fails n home keys k) {i : ℕ} (hi : i < n) : Passed keys k i := by
  obtain ⟨d, hd, rfl⟩ := exists_visit (h := home k) hi
  exact h d hd

theorem wellProbed_empty (h : ∀ i < n, keys i = none) : WellProbed n home keys where
  unique := by
    intro i hi j hj k hk
    rw [h i hi] at hk
    cases hk
  chain := by
    intro i hi k hk
    rw [h i hi] at hk
    cases hk

/-- Putting a key into the cell at which the search for it stops keeps the invariant. -/
theorem WellProbed.insert (hw : WellProbed n home keys) {k : K} {i : ℕ}
    (h : StopsAt n home keys k i) : WellProbed n home (Function.update keys i (some k)) := by
  have hkeep : ∀ j, keys j ≠ none → Function.update keys i (some k) j ≠ none := by
    intro j hj
    by_cases hji : j = i
    · rw [hji, Function.update_self]; simp
    · rw [Function.update_of_ne hji]; exact hj
  have hold : ∀ j k', j ≠ i → Function.update keys i (some k) j = some k' → keys j = some k' := by
    intro j k' hji hjk
    rwa [Function.update_of_ne hji] at hjk
  have hnew : ∀ k', Function.update keys i (some k) i = some k' → k' = k := by
    intro k' hk'
    rw [Function.update_self] at hk'
    exact (Option.some.inj hk').symm
  constructor
  · intro j hj j' hj' k' hk' hk''
    by_cases hji : j = i
    · by_cases hji' : j' = i
      · rw [hji, hji']
      · rw [hji] at hk'
        rw [hnew k' hk'] at hk''
        rw [hji]
        exact h.eq_of_stored hw hj' (hold j' k hji' hk'')
    · by_cases hji' : j' = i
      · rw [hji'] at hk''
        rw [hnew k' hk''] at hk'
        rw [hji']
        exact (h.eq_of_stored hw hj (hold j k hji hk')).symm
      · exact hw.unique j hj j' hj' k' (hold j k' hji hk') (hold j' k' hji' hk'')
  · intro j hj k' hk'
    by_cases hji : j = i
    · rw [hji] at hk'
      rw [hnew k' hk', hji]
      obtain ⟨d, hd, hvisit, -, hbefore⟩ := h
      exact ⟨d, hd, hvisit, fun e he => hkeep _ (hbefore e he).1⟩
    · obtain ⟨d, hd, hvisit, hchain⟩ := hw.chain j hj k' (hold j k' hji hk')
      exact ⟨d, hd, hvisit, fun e he => hkeep _ (hchain e he)⟩

end Probing
