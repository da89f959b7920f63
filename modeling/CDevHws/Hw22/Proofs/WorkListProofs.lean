import CDevHws.Hw22.WorkList
import CDevHws.Lib.LinkedList
import Mathlib.Algebra.BigOperators.Group.Finset.Piecewise
import Mathlib.Algebra.Order.BigOperators.Group.Finset
import Mathlib.Data.Nat.Basic

/-!
# Proofs: which thread gets which files

The loop deals the files out in turn and puts each one before what is there. What is there at the
beginning is never set, so the lists are right if and only if all pointers in the memory that
`malloc` returns are null.
-/

namespace CDevHws.Hw22

open LinkedList

variable {File : Type}

/-- The lists of the `k` threads hold each file exactly once and nothing else, and their lengths
differ by at most one. -/
def Distributed (k : ℕ) (files : List File) (w : WorkLists File) : Prop :=
  ∃ lists : ℕ → List File,
    (∀ t < k, Holds (nodeAt w.nodes) 0 (w.logfiles t) (lists t)) ∧
    ∑ t ∈ Finset.range k, (lists t : Multiset File) = files ∧
    ∀ t < k, ∀ t' < k, (lists t).length ≤ (lists t').length + 1

/-- The files that the thread `t` gets, the last one first. -/
def share (k : ℕ) : ℕ → List File → ℕ → List File
  | _, [], _ => []
  | i, file :: files, t => share k (i + 1) files t ++ if (i + 1) % k = t then [file] else []

/-! ## The shares -/

section share

variable {k : ℕ}

theorem share_cons (i : ℕ) (file : File) (files : List File) (t : ℕ) :
    share k i (file :: files) t =
      share k (i + 1) files t ++ if (i + 1) % k = t then [file] else [] := rfl

theorem sum_share (hk : 1 ≤ k) (i : ℕ) (files : List File) :
    ∑ t ∈ Finset.range k, (share k i files t : Multiset File) = files := by
  induction files generalizing i with
  | nil => simp [share]
  | cons file files ih =>
    have hturn : (i + 1) % k ∈ Finset.range k := Finset.mem_range.mpr (Nat.mod_lt _ hk)
    have hone : ∀ t, ((if (i + 1) % k = t then [file] else [] : List File) : Multiset File) =
        if (i + 1) % k = t then {file} else 0 := by
      intro t
      split_ifs <;> rfl
    simp only [share_cons, ← Multiset.coe_add, hone]
    rw [Finset.sum_add_distrib, ih, Finset.sum_ite_eq, if_pos hturn, add_comm]
    rfl

/-- How many of the first `i` files the thread `t` gets. -/
def dealt (k i t : ℕ) : ℕ := i / k + if 1 ≤ t ∧ t ≤ i % k then 1 else 0

theorem dealt_succ {t : ℕ} (ht : t < k) (i : ℕ) :
    dealt k (i + 1) t = dealt k i t + if (i + 1) % k = t then 1 else 0 := by
  have hk : 0 < k := by omega
  have hmod := Nat.mod_lt i hk
  have hsplit := Nat.div_add_mod i k
  unfold dealt
  by_cases hlast : i % k + 1 = k
  · have hi : i + 1 = k * (i / k + 1) := by rw [Nat.mul_add, Nat.mul_one]; omega
    have hdiv : (i + 1) / k = i / k + 1 := by rw [hi, Nat.mul_div_cancel_left _ hk]
    have hzero : (i + 1) % k = 0 := by rw [hi, Nat.mul_mod_right]
    rw [hdiv, hzero]
    split_ifs <;> omega
  · have hi : i + 1 = i % k + 1 + k * (i / k) := by omega
    have hdiv : (i + 1) / k = i / k := by
      rw [hi, Nat.add_mul_div_left _ _ hk, Nat.div_eq_of_lt (by omega), Nat.zero_add]
    have hnext : (i + 1) % k = i % k + 1 := by
      rw [hi, Nat.add_mul_mod_self_left, Nat.mod_eq_of_lt (by omega)]
    rw [hdiv, hnext]
    split_ifs <;> omega

theorem length_share {t : ℕ} (ht : t < k) (i : ℕ) (files : List File) :
    (share k i files t).length + dealt k i t = dealt k (i + files.length) t := by
  induction files generalizing i with
  | nil => simp [share]
  | cons file files ih =>
    have hrest := ih (i + 1)
    have hsucc := dealt_succ ht i
    have hcount : i + (file :: files).length = i + 1 + files.length := by
      rw [List.length_cons]
      omega
    rw [share_cons, List.length_append, hcount, ← hrest, hsucc]
    split_ifs <;> simp only [List.length_singleton, List.length_nil] <;> omega

/-- The lengths of the shares differ by at most one. -/
theorem length_share_le {t t' : ℕ} (ht : t < k) (ht' : t' < k) (files : List File) :
    (share k 0 files t).length ≤ (share k 0 files t').length + 1 := by
  have hlen := length_share ht 0 files
  have hlen' := length_share ht' 0 files
  unfold dealt at hlen hlen'
  rw [Nat.zero_add, Nat.zero_div, Nat.zero_mod] at hlen hlen'
  split_ifs at hlen hlen' <;> omega

end share

/-! ## The loop -/

section loop

variable {k i : ℕ} {files : List File} {w w' : WorkLists File}

theorem distribute_cons {file : File} (h : distribute k i (file :: files) w = some w') :
    i + 1 < 2 ^ 31 ∧
      distribute k (i + 1) files (w.prepend ((i + 1) % k) file) = some w' := by
  unfold distribute at h
  split_ifs at h with hlt
  exact ⟨hlt, h⟩

/-- The loop ends if and only if the counter does not overflow. -/
theorem distribute_isSome_iff (hi : i < 2 ^ 31) :
    (∃ w', distribute k i files w = some w') ↔ i + files.length < 2 ^ 31 := by
  induction files generalizing i w with
  | nil => exact iff_of_true ⟨w, rfl⟩ hi
  | cons file files ih =>
    rw [List.length_cons]
    by_cases hlt : i + 1 < 2 ^ 31
    · have hrest := ih (w := w.prepend ((i + 1) % k) file) hlt
      unfold distribute
      rw [if_pos hlt, hrest]
      omega
    · unfold distribute
      rw [if_neg hlt]
      refine iff_of_false ?_ (by omega)
      rintro ⟨w', hw'⟩
      cases hw'

/-- No node is changed. -/
theorem nodes_distribute (h : distribute k i files w = some w') : w.nodes <+: w'.nodes := by
  induction files generalizing i w with
  | nil =>
    cases h
    exact List.prefix_refl _
  | cons file files ih =>
    obtain ⟨-, hrest⟩ := distribute_cons h
    exact (List.prefix_append w.nodes _).trans (ih hrest)

/-- The list of a thread is its share before what has been there at the beginning, in the memory as
it is at the end. -/
theorem holds_distribute_iff (h : distribute k i files w = some w') (t : ℕ) (l : List File) :
    Holds (nodeAt w'.nodes) 0 (w'.logfiles t) l ↔
      ∃ l₀, l = share k i files t ++ l₀ ∧ Holds (nodeAt w'.nodes) 0 (w.logfiles t) l₀ := by
  induction files generalizing i w l with
  | nil =>
    cases h
    simp [share]
  | cons file files ih =>
    obtain ⟨-, hrest⟩ := distribute_cons h
    have hnode : nodeAt w'.nodes (w.nodes.length + 1) =
        some (file, w.logfiles ((i + 1) % k)) := by
      obtain ⟨more, hmore⟩ := nodes_distribute hrest
      show w'.nodes[w.nodes.length]? = _
      rw [← hmore]
      show ((w.nodes ++ [(file, w.logfiles ((i + 1) % k))]) ++ more)[w.nodes.length]? = _
      rw [List.append_assoc, List.getElem?_append_right (Nat.le_refl _), Nat.sub_self]
      rfl
    rw [ih hrest, share_cons]
    by_cases hturn : (i + 1) % k = t
    · have hhead : (w.prepend ((i + 1) % k) file).logfiles t = w.nodes.length + 1 := by
        rw [← hturn]
        exact Function.update_self ..
      rw [hhead, if_pos hturn]
      rw [hturn] at hnode
      constructor
      · rintro ⟨l₁, rfl, hl₁⟩
        obtain ⟨l₀, rfl, hl₀⟩ := hl₁.of_get (Nat.succ_ne_zero _) hnode
        exact ⟨l₀, by rw [List.append_assoc]; rfl, hl₀⟩
      · rintro ⟨l₀, rfl, hl₀⟩
        exact ⟨file :: l₀, by rw [List.append_assoc]; rfl,
          Holds.cons (Nat.succ_ne_zero _) hnode hl₀⟩
    · have hhead : (w.prepend ((i + 1) % k) file).logfiles t = w.logfiles t :=
        Function.update_of_ne (fun heq => hturn heq.symm) _ _
      rw [hhead, if_neg hturn, List.append_nil]

end loop

/-! ## The lists -/

/-- For every list of log files, every number of threads and every memory: after the distribution
loop the lists of the threads hold each file exactly once and nothing else, and their lengths differ
by at most one, if and only if the counter does not overflow and every pointer that `malloc` has
found in the array is null. -/
theorem distributed_iff {k : ℕ} (hk : 1 ≤ k) (files : List File) (w : WorkLists File) :
    (∃ w', distribute k 0 files w = some w' ∧ Distributed k files w') ↔
      files.length < 2 ^ 31 ∧ ∀ t < k, w.logfiles t = 0 := by
  have hend : (∃ w', distribute k 0 files w = some w') ↔ 0 + files.length < 2 ^ 31 :=
    distribute_isSome_iff (Nat.two_pow_pos 31)
  rw [Nat.zero_add] at hend
  constructor
  · rintro ⟨w', hw', lists, hlists, hsum, -⟩
    refine ⟨hend.mp ⟨w', hw'⟩, fun t ht => ?_⟩
    have hsplit : ∀ t < k, ∃ l₀, lists t = share k 0 files t ++ l₀ ∧
        Holds (nodeAt w'.nodes) 0 (w.logfiles t) l₀ :=
      fun t ht => (holds_distribute_iff hw' t _).mp (hlists t ht)
    have hlen : ∑ t ∈ Finset.range k, (lists t).length =
        ∑ t ∈ Finset.range k, (share k 0 files t).length := by
      have hcard := congrArg Multiset.card (hsum.trans (sum_share hk 0 files).symm)
      rw [Multiset.card_sum, Multiset.card_sum] at hcard
      exact hcard
    have hle : ∀ t ∈ Finset.range k, (share k 0 files t).length ≤ (lists t).length := by
      intro t ht
      obtain ⟨l₀, heq, -⟩ := hsplit t (Finset.mem_range.mp ht)
      rw [heq, List.length_append]
      exact Nat.le_add_right _ _
    have hall := (Finset.sum_eq_sum_iff_of_le hle).mp hlen.symm
    obtain ⟨l₀, heq, hl₀⟩ := hsplit t ht
    have hzero := hall t (Finset.mem_range.mpr ht)
    rw [heq, List.length_append] at hzero
    have hnil : l₀ = [] := List.eq_nil_of_length_eq_zero (by omega)
    rw [hnil] at hl₀
    exact holds_nil_iff.mp hl₀
  · rintro ⟨hlt, hnull⟩
    obtain ⟨w', hw'⟩ := hend.mpr hlt
    refine ⟨w', hw', share k 0 files, fun t ht => ?_, sum_share hk 0 files,
      fun t ht t' ht' => length_share_le ht ht' files⟩
    rw [holds_distribute_iff hw']
    refine ⟨[], (List.append_nil _).symm, ?_⟩
    rw [hnull t ht]
    exact holds_null_iff.mpr rfl

/-- Three files for two threads. -/
theorem distributed_three : ∃ w', distribute 2 0 [7, 8, 9] ⟨[], fun _ => 0⟩ = some w' ∧
    Distributed 2 [7, 8, 9] w' :=
  (distributed_iff (by decide) [7, 8, 9] ⟨[], fun _ => 0⟩).mpr ⟨by decide, fun _ _ => rfl⟩

/-- The allocator's bytes happen to point to a node with another file: the thread processes it,
too. -/
theorem distributed_stale : distribute 1 0 [7] ⟨[(8, 0)], fun _ => 1⟩ =
      some ⟨[(8, 0), (7, 1)], Function.update (fun _ => 1) 0 2⟩ ∧
    Holds (nodeAt [(8, 0), (7, 1)]) 0 2 [7, 8] ∧
    ¬ ∃ w', distribute 1 0 [7] ⟨[(8, 0)], fun _ => 1⟩ = some w' ∧ Distributed 1 [7] w' := by
  have hrun : distribute 1 0 [7] ⟨[(8, 0)], fun _ => 1⟩ =
      some ⟨[(8, 0), (7, 1)], Function.update (fun _ => 1) 0 2⟩ := rfl
  have hlist : Holds (nodeAt [(8, 0), (7, 1)]) 0 2 [7, 8] :=
    Holds.cons (by decide) rfl (Holds.cons (by decide) rfl rfl)
  refine ⟨hrun, hlist, ?_⟩
  rintro ⟨w', hw', lists, hlists, hsum, -⟩
  rw [hrun] at hw'
  cases hw'
  have hfirst : Holds (nodeAt [(8, 0), (7, 1)]) 0 2 (lists 0) := hlists 0 (Nat.one_pos)
  obtain ⟨l₁, hl₁, htail⟩ := hfirst.of_get (by decide) rfl
  obtain ⟨l₂, hl₂, -⟩ := htail.of_get (by decide) rfl
  rw [Finset.sum_range_one, hl₁, hl₂] at hsum
  have hcard := congrArg Multiset.card hsum
  simp at hcard

end CDevHws.Hw22
