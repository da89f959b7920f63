import CDevHws.Lib.Probing
import Mathlib.Data.Nat.ModEq
import Mathlib.Order.Defs.PartialOrder
import Mathlib.Tactic.Set

/-!
# Removal from a table with linear probing

When a key is removed, its cell becomes a hole on the way to other keys. Backward shifting repairs
this: the cells behind the hole are visited in order up to the first free one, and a key whose way
leads over the hole is moved into it, so that its own cell is the new hole.

Cells are named by their offset from the cell where the removal began. `Shifting` holds at each step
of the loop; there is one rule for its start, for each way in which a step can go, and for its end.
-/

namespace Probing

variable {K : Type*}

/-! ## Offsets -/

section Offsets

variable {n s : ℕ}

theorem visit_inj {o o' : ℕ} (ho : o < n) (ho' : o' < n) (h : visit n s o = visit n s o') :
    o = o' := by
  have hmod : o % n = o' % n := Nat.ModEq.add_left_cancel' s h
  rwa [Nat.mod_eq_of_lt ho, Nat.mod_eq_of_lt ho'] at hmod

/-- The offset `t` cells before offset `o`. -/
def back (n o t : ℕ) : ℕ := if t ≤ o then o - t else o + n - t

theorem back_lt {o t : ℕ} (ho : o < n) : back n o t < n := by
  unfold back
  split_ifs <;> omega

/-- The way to a cell, from its end. -/
theorem visit_back {h d o t : ℕ} (hd : d < n) (heq : visit n h d = visit n s o) (ht : t ≤ d) :
    visit n h (d - t) = visit n s (back n o t) := by
  have hsum : h + (d - t) + t ≡ s + back n o t + t [MOD n] := by
    have hleft : h + (d - t) + t = h + d := by omega
    rw [hleft]
    unfold back
    split_ifs with hle
    · have hright : s + (o - t) + t = s + o := by omega
      rw [hright]
      exact heq
    · have hright : s + (o + n - t) + t = s + o + n := by omega
      rw [hright]
      exact Nat.ModEq.trans heq (Nat.add_mod_right _ _).symm
  exact Nat.ModEq.add_right_cancel' t hsum

/-- How far a search that starts in cell `k` has come when it visits cell `j`. -/
def distance (n k j : ℕ) : ℕ := if k ≤ j then j - k else j + n - k

theorem distance_lt {k j : ℕ} (hj : j < n) : distance n k j < n := by
  unfold distance
  split_ifs with hle
  · exact (Nat.sub_le j k).trans_lt hj
  · omega

theorem visit_distance {k j : ℕ} (hk : k < n) (hj : j < n) : visit n k (distance n k j) = j := by
  unfold visit distance
  split_ifs with hle
  · rw [Nat.add_sub_cancel' hle, Nat.mod_eq_of_lt hj]
  · rw [Nat.add_sub_cancel' (hk.le.trans (Nat.le_add_left n j)), Nat.add_mod_right,
      Nat.mod_eq_of_lt hj]

/-- Whether the way from cell `k` to cell `j` leads over cell `i`, by comparisons of the three
alone. -/
theorem leadsOver_iff {i j k : ℕ} (hi : i < n) (hk : k < n) (hij : i ≠ j) :
    (j > i ∧ (k ≤ i ∨ k > j)) ∨ (j < i ∧ (k ≤ i ∧ k > j)) ↔ distance n i j ≤ distance n k j := by
  unfold distance
  split_ifs <;> omega

end Offsets

/-! ## The loop -/

variable (n : ℕ) (home : K → ℕ)

/-- The loop has visited the offsets up to `x` from cell `s`, and the hole is at offset `p`; there
is a free cell at offset `f`. -/
structure Shifting (keys : ℕ → Option K) (s f x p : ℕ) : Prop where
  lt : x < f
  free_lt : f < n
  hole_le : p ≤ x
  free : keys (visit n s f) = none
  hole : keys (visit n s p) = none
  unique : ∀ i < n, ∀ j < n, ∀ k, keys i = some k → keys j = some k → i = j
  /-- The only free cell on the way to a key is the hole, and only if the key is not yet visited. -/
  chain : ∀ o < n, ∀ k, keys (visit n s o) = some k → ∃ d < n, visit n (home k) d = visit n s o ∧
    (∀ t, 1 ≤ t → t ≤ d → keys (visit n s (back n o t)) = none → back n o t = p) ∧
    (o ≤ x → ∀ t, 1 ≤ t → t ≤ d → back n o t ≠ p)

variable {n home} {keys : ℕ → Option K} {s f x p : ℕ}

/-- The start: the key in cell `s` is gone. -/
theorem WellProbed.shifting (hw : WellProbed n home keys) (hs : s < n) (hf : 0 < f) (hfn : f < n)
    (hfree : keys (visit n s f) = none) :
    Shifting n home (Function.update keys s none) s f 0 0 := by
  have hzero : visit n s 0 = s := Nat.mod_eq_of_lt hs
  have hold : ∀ i k, Function.update keys s none i = some k → i ≠ s ∧ keys i = some k := by
    intro i k hi
    by_cases his : i = s
    · rw [his, Function.update_self] at hi
      cases hi
    · rw [Function.update_of_ne his] at hi
      exact ⟨his, hi⟩
  refine ⟨hf, hfn, le_rfl, ?_, ?_, ?_, ?_⟩
  · by_cases hfs : visit n s f = s
    · rw [hfs, Function.update_self]
    · rw [Function.update_of_ne hfs, hfree]
  · rw [hzero, Function.update_self]
  · intro i hi j hj k hik hjk
    exact hw.unique i hi j hj k (hold i k hik).2 (hold j k hjk).2
  · intro o ho k hk
    obtain ⟨hne, hok⟩ := hold _ _ hk
    obtain ⟨d, hd, hvisit, hbefore⟩ := hw.chain _ (visit_lt (by omega) s o) k hok
    refine ⟨d, hd, hvisit, ?_, ?_⟩
    · intro t ht htd hnone
      have hkey : keys (visit n s (back n o t)) ≠ none := by
        rw [← visit_back hd hvisit htd]
        exact hbefore (d - t) (by omega)
      by_cases hbs : visit n s (back n o t) = s
      · exact visit_inj (back_lt ho) (by omega) (hbs.trans hzero.symm)
      · rw [Function.update_of_ne hbs] at hnone
        exact absurd hnone hkey
    · intro ho0
      obtain rfl : o = 0 := by omega
      exact absurd hzero hne

/-- The next cell holds a key that the hole does not concern. -/
theorem Shifting.keep (h : Shifting n home keys s f x p) {k : K}
    (hk : keys (visit n s (x + 1)) = some k) {d : ℕ} (hd : d < n)
    (hvisit : visit n (home k) d = visit n s (x + 1)) (hpass : ¬ x + 1 - p ≤ d) :
    Shifting n home keys s f (x + 1) p := by
  have hlt := h.lt
  have hfn := h.free_lt
  have hxf : x + 1 ≠ f := by
    rintro rfl
    rw [h.free] at hk
    cases hk
  refine ⟨by omega, hfn, h.hole_le.trans (Nat.le_succ x), h.free, h.hole, h.unique, ?_⟩
  intro o ho k' hk'
  obtain ⟨d', hd', hvisit', hnone, hseen⟩ := h.chain o ho k' hk'
  refine ⟨d', hd', hvisit', hnone, ?_⟩
  intro hox t ht htd
  by_cases hoeq : o = x + 1
  · subst hoeq
    obtain rfl : k' = k := Option.some.inj (hk'.symm.trans hk)
    obtain rfl : d' = d := visit_inj hd' hd (hvisit'.trans hvisit.symm)
    unfold back
    split_ifs <;> omega
  · exact hseen (by omega) t ht htd

/-- The next cell holds a key whose way leads over the hole: it is moved into the hole. -/
theorem Shifting.move (h : Shifting n home keys s f x p) {k : K}
    (hk : keys (visit n s (x + 1)) = some k) {d : ℕ} (hd : d < n)
    (hvisit : visit n (home k) d = visit n s (x + 1)) (hpass : x + 1 - p ≤ d) :
    Shifting n home (Function.update (Function.update keys (visit n s p) (some k))
      (visit n s (x + 1)) none) s f (x + 1) (x + 1) := by
  have hlt := h.lt
  have hfn := h.free_lt
  have hpx := h.hole_le
  have hxf : x + 1 ≠ f := by
    rintro rfl
    rw [h.free] at hk
    cases hk
  set keys' := Function.update (Function.update keys (visit n s p) (some k))
    (visit n s (x + 1)) none with hkeys'
  have hhole : keys' (visit n s (x + 1)) = none := Function.update_self ..
  have hne : visit n s p ≠ visit n s (x + 1) := by
    intro heq
    have := visit_inj (by omega) (by omega) heq
    omega
  have hmoved : keys' (visit n s p) = some k := by
    rw [hkeys', Function.update_of_ne hne, Function.update_self]
  have hother : ∀ i, i ≠ visit n s p → i ≠ visit n s (x + 1) → keys' i = keys i := by
    intro i hip hix
    rw [hkeys', Function.update_of_ne hix, Function.update_of_ne hip]
  have hoff : ∀ o < n, o ≠ p → o ≠ x + 1 → keys' (visit n s o) = keys (visit n s o) := by
    intro o ho hop hox
    refine hother _ (fun heq => hop ?_) (fun heq => hox ?_)
    · exact visit_inj ho (by omega) heq
    · exact visit_inj ho (by omega) heq
  -- a cell of the new table that is free, other than the new hole, was free before
  have hnone : ∀ o < n, o ≠ x + 1 → keys' (visit n s o) = none →
      o ≠ p ∧ keys (visit n s o) = none := by
    intro o ho hox hfree
    by_cases hop : o = p
    · rw [hop, hmoved] at hfree
      cases hfree
    · rw [hoff o ho hop hox] at hfree
      exact ⟨hop, hfree⟩
  refine ⟨by omega, hfn, le_rfl, ?_, hhole, ?_, ?_⟩
  · rw [hoff f hfn (by omega) (by omega)]
    exact h.free
  · -- only `k` has moved
    have hcell : ∀ i < n, ∀ k', keys' i = some k' →
        i = visit n s p ∧ k' = k ∨ i ≠ visit n s p ∧ i ≠ visit n s (x + 1) ∧ keys i = some k' := by
      intro i hi k' hik
      by_cases hip : i = visit n s p
      · rw [hip, hmoved] at hik
        exact Or.inl ⟨hip, (Option.some.inj hik).symm⟩
      · by_cases hix : i = visit n s (x + 1)
        · rw [hix, hhole] at hik
          cases hik
        · rw [hother i hip hix] at hik
          exact Or.inr ⟨hip, hix, hik⟩
    have hx : visit n s (x + 1) < n := visit_lt (by omega) _ _
    intro i hi j hj k' hik hjk
    rcases hcell i hi k' hik with ⟨rfl, rfl⟩ | ⟨-, hix, hik'⟩
    · rcases hcell j hj k' hjk with ⟨rfl, -⟩ | ⟨-, hjx, hjk'⟩
      · rfl
      · exact absurd (h.unique j hj _ hx k' hjk' hk) hjx
    · rcases hcell j hj k' hjk with ⟨-, rfl⟩ | ⟨-, -, hjk'⟩
      · exact absurd (h.unique i hi _ hx k' hik' hk) hix
      · exact h.unique i hi j hj k' hik' hjk'
  · intro o ho k' hk'
    have hox : o ≠ x + 1 := by
      rintro rfl
      rw [hhole] at hk'
      cases hk'
    by_cases hop : o = p
    · -- the moved key: its way is the first part of the way that it had before
      subst hop
      obtain rfl : k' = k := Option.some.inj (hk'.symm.trans hmoved)
      obtain ⟨d', hd', hvisit', hbefore, -⟩ := h.chain (x + 1) (by omega) k' hk
      obtain rfl : d' = d := visit_inj hd' hd (hvisit'.trans hvisit.symm)
      have hback : ∀ t, t ≤ d' - (x + 1 - o) →
          back n o t = back n (x + 1) (t + (x + 1 - o)) ∧ back n o t ≠ x + 1 := by
        intro t ht
        unfold back
        constructor
        · split_ifs <;> omega
        · split_ifs <;> omega
      refine ⟨d' - (x + 1 - o), by omega, ?_, ?_, ?_⟩
      · rw [visit_back hd' hvisit' (by omega)]
        congr 1
        unfold back
        split_ifs <;> omega
      · intro t ht htd hfree
        obtain ⟨heq, hbx⟩ := hback t htd
        obtain ⟨hbo, hfree'⟩ := hnone _ (back_lt ho) hbx hfree
        rw [heq] at hfree' hbo
        exact absurd (hbefore _ (by omega) (by omega) hfree') hbo
      · intro _ t ht htd
        exact (hback t htd).2
    · -- a key that stays where it is
      rw [hoff o ho hop hox] at hk'
      obtain ⟨d', hd', hvisit', hbefore, hseen⟩ := h.chain o ho k' hk'
      refine ⟨d', hd', hvisit', ?_, ?_⟩
      · intro t ht htd hfree
        by_contra hbx
        obtain ⟨hbp, hfree'⟩ := hnone _ (back_lt ho) hbx hfree
        exact hbp (hbefore t ht htd hfree')
      · intro hox' t ht htd hbx
        -- the way would lead over the free cell at offset `f`
        have hno : ¬ t ≤ o := by
          intro hle
          unfold back at hbx
          rw [if_pos hle] at hbx
          omega
        have htx : t = o + n - (x + 1) := by
          unfold back at hbx
          rw [if_neg hno] at hbx
          omega
        have hbf : back n o (o + n - f) = f := by
          unfold back
          rw [if_neg (by omega)]
          omega
        have hpf := hbefore (o + n - f) (by omega) (by omega) (by rw [hbf]; exact h.free)
        omega

/-- The end: the next cell is free, and no key needs the hole. -/
theorem Shifting.finish (h : Shifting n home keys s f x p)
    (hfree : keys (visit n s (x + 1)) = none) : WellProbed n home keys where
  unique := h.unique
  chain := by
    have hlt := h.lt
    have hfn := h.free_lt
    have hpx := h.hole_le
    intro i hi k hk
    obtain ⟨o, ho, rfl⟩ := exists_visit (h := s) hi
    obtain ⟨d, hd, hvisit, hbefore, hseen⟩ := h.chain o ho k hk
    refine ⟨d, hd, hvisit, ?_⟩
    intro e he hnone
    have hback := visit_back hd hvisit (show d - e ≤ d by omega)
    rw [show d - (d - e) = e by omega] at hback
    rw [hback] at hnone
    have hp := hbefore (d - e) (by omega) (by omega) hnone
    by_cases hox : o ≤ x
    · exact hseen hox (d - e) (by omega) (by omega) hp
    · -- the way from the hole to the key would lead over the free cell
      have hoy : o ≠ x + 1 := by
        rintro rfl
        rw [hfree] at hk
        cases hk
      have hde : d - e = o - p := by
        unfold back at hp
        split_ifs at hp <;> omega
      have hbx : back n o (o - (x + 1)) = x + 1 := by
        unfold back
        rw [if_pos (by omega)]
        omega
      have hpx' := hbefore (o - (x + 1)) (by omega) (by omega) (by rw [hbx]; exact hfree)
      omega

end Probing
