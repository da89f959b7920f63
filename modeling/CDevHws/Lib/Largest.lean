import Mathlib.Data.List.Basic
import Mathlib.Order.Lattice

/-!
# The largest elements of a list

Elements are compared by a weight in a linear order. The first ones of a list, from the largest on,
can be kept up to date element by element: a new one is put into its place and the last one is
dropped.
-/

namespace Largest

variable {α β : Type*} [LinearOrder α] {w : β → α}

/-- `top` are the largest elements of `all`, the largest one first; among elements of the same
weight, it does not matter which. -/
structure IsTop (w : β → α) (all top : List β) : Prop where
  sorted : top.Pairwise fun a b => w b ≤ w a
  split : ∃ rest, (top ++ rest).Perm all ∧ ∀ x ∈ top, ∀ y ∈ rest, w y ≤ w x

theorem isTop_replicate (w : β → α) (n : ℕ) (b : β) :
    IsTop w (List.replicate n b) (List.replicate n b) :=
  ⟨List.pairwise_replicate.mpr (Or.inr (le_refl _)), [], by rw [List.append_nil],
    fun _ _ y hy => absurd hy List.not_mem_nil⟩

variable {all all' front back : List β} {b last : β}

theorem IsTop.perm {top : List β} (h : IsTop w all top) (hperm : all.Perm all') :
    IsTop w all' top := by
  obtain ⟨hsorted, rest, hsplit, hrest⟩ := h
  exact ⟨hsorted, rest, hsplit.trans hperm, hrest⟩

/-- A new element that is not larger than the last one is left out. -/
theorem IsTop.skip (h : IsTop w all (front ++ [last])) (hle : w b ≤ w last) :
    IsTop w (b :: all) (front ++ [last]) := by
  obtain ⟨hsorted, rest, hperm, hrest⟩ := h
  refine ⟨hsorted, b :: rest, List.perm_middle.trans (hperm.cons b), fun x hx y hy => ?_⟩
  rcases List.mem_cons.mp hy with rfl | hy
  · rcases List.mem_append.mp hx with hfront | hlast
    · have hpair := (List.pairwise_append.mp hsorted).2.2 x hfront last List.mem_cons_self
      exact hle.trans hpair
    · rw [List.mem_singleton.mp hlast]
      exact hle
  · exact hrest x hx y hy

/-- A new element is put between those that are not smaller and those that are not larger, and the
last one is dropped. -/
theorem IsTop.insert (h : IsTop w all (front ++ back ++ [last])) (hfront : ∀ a ∈ front, w b ≤ w a)
    (hback : ∀ c ∈ back, w c ≤ w b) (hlast : w last ≤ w b) :
    IsTop w (b :: all) (front ++ b :: back) := by
  obtain ⟨hsorted, rest, hperm, hrest⟩ := h
  obtain ⟨hkeep, -, hdrop⟩ := List.pairwise_append.mp hsorted
  obtain ⟨hsortedFront, hsortedBack, hcross⟩ := List.pairwise_append.mp hkeep
  refine ⟨?_, last :: rest, ?_, fun x hx y hy => ?_⟩
  · refine List.pairwise_append.mpr ⟨hsortedFront, List.pairwise_cons.mpr ⟨hback, hsortedBack⟩, ?_⟩
    intro a ha c hc
    rcases List.mem_cons.mp hc with rfl | hc
    · exact hfront a ha
    · exact hcross a ha c hc
  · have hmove : (front ++ b :: back ++ last :: rest).Perm
        (b :: (front ++ back ++ [last] ++ rest)) := by
      have hassoc : front ++ b :: back ++ last :: rest =
          front ++ b :: (back ++ last :: rest) := List.append_assoc ..
      have hassoc' : front ++ back ++ [last] ++ rest = front ++ (back ++ last :: rest) := by simp
      rw [hassoc, hassoc']
      exact List.perm_middle
    exact hmove.trans (hperm.cons b)
  · have hlastx : w last ≤ w x := by
      rcases List.mem_append.mp hx with hxf | hxb
      · exact hlast.trans (hfront x hxf)
      · rcases List.mem_cons.mp hxb with rfl | hxb
        · exact hlast
        · exact hdrop x (List.mem_append_right _ hxb) last List.mem_cons_self
    rcases List.mem_cons.mp hy with rfl | hy
    · exact hlastx
    · rcases List.mem_append.mp hx with hxf | hxb
      · exact hrest x (List.mem_append_left _ (List.mem_append_left _ hxf)) y hy
      · rcases List.mem_cons.mp hxb with rfl | hxb
        · exact (hrest last (List.mem_append_right _ List.mem_cons_self) y hy).trans hlast
        · exact hrest x (List.mem_append_left _ (List.mem_append_right _ hxb)) y hy

/-- The weights are the first ones of all weights in falling order. -/
theorem IsTop.map_eq_take {top : List β} (h : IsTop w all top) :
    top.map w = ((all.map w).mergeSort fun a b => b ≤ a).take top.length := by
  obtain ⟨hsorted, rest, hperm, hrest⟩ := h
  have htrans : ∀ a b c : α, decide (b ≤ a) = true → decide (c ≤ b) = true →
      decide (c ≤ a) = true := by
    intro a b c hab hbc
    exact decide_eq_true ((of_decide_eq_true hbc).trans (of_decide_eq_true hab))
  have htotal : ∀ a b : α, (decide (b ≤ a) || decide (a ≤ b)) = true := by
    intro a b
    rcases le_total b a with hle | hle
    · rw [decide_eq_true hle, Bool.true_or]
    · rw [decide_eq_true hle, Bool.or_true]
  have hsortedAll := List.pairwise_mergeSort htrans htotal (all.map w)
  have hsortedRest := List.pairwise_mergeSort htrans htotal (rest.map w)
  have hsame : top.map w ++ (rest.map w).mergeSort (fun a b => decide (b ≤ a)) =
      (all.map w).mergeSort fun a b => decide (b ≤ a) := by
    refine List.Perm.eq_of_pairwise (fun a b _ _ hab hba => ?_) ?_ hsortedAll ?_
    · exact le_antisymm (of_decide_eq_true hba) (of_decide_eq_true hab)
    · refine List.pairwise_append.mpr ⟨?_, hsortedRest, ?_⟩
      · rw [List.pairwise_map]
        exact hsorted.imp fun hle => decide_eq_true hle
      · intro x hx y hy
        obtain ⟨a, ha, rfl⟩ := List.mem_map.mp hx
        obtain ⟨c, hc, rfl⟩ := List.mem_map.mp ((List.mergeSort_perm _ _).mem_iff.mp hy)
        exact decide_eq_true (hrest a ha c hc)
    · refine ((List.mergeSort_perm _ _).append_left _).trans ?_
      rw [← List.map_append]
      exact (hperm.map w).trans (List.mergeSort_perm _ _).symm
  rw [← hsame, List.take_left' (List.length_map w)]

end Largest
