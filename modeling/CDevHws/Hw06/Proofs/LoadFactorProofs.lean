import CDevHws.Hw06.Proofs.HashtableProofs
import Mathlib.Data.List.Dedup

/-!
# Proofs: the load factor

`occupied` is meant to be the number of occupied cells. It is incremented by every call, also when
the word has a cell already, and an extension starts it at 0 again although the new table is not
empty. So it is right only as long as neither has happened.
-/

namespace CDevHws.Hw06

/-- The load-factor invariant: `occupied` is the number of occupied cells, and it is below
`max_occupied`, which is three quarters of the size. -/
def LoadFactor (t : Hashtable) : Prop :=
  t.occupied.toNat = t.stored.length ∧ t.occupied < t.maxOccupied ∧
    4 * t.maxOccupied.toNat = 3 * t.size.toNat

/-- The occupied cells are the different words with their counts. -/
theorem stored_perm {t : Hashtable} (hi : t.Inv) {words : List Word} (hc : Counts t words) :
    t.stored.Perm (words.dedup.map fun w => ⟨w, UInt32.ofNat (words.count w)⟩) := by
  have hnodup : (words.dedup.map fun w => (⟨w, UInt32.ofNat (words.count w)⟩ : Wcnt)).Nodup := by
    refine words.nodup_dedup.map ?_
    intro w w' heq
    exact congrArg Wcnt.word heq
  rw [List.perm_ext_iff_of_nodup hi.stored_nodup hnodup]
  intro cell
  rw [hc cell, List.mem_map]
  constructor
  · rintro ⟨hin, hcount⟩
    exact ⟨cell.word, List.mem_dedup.mpr hin, by rw [← hcount]⟩
  · rintro ⟨w, hin, rfl⟩
    exact ⟨List.mem_dedup.mp hin, rfl⟩

/-- There are as many occupied cells as different words. -/
theorem stored_length {t : Hashtable} (hi : t.Inv) {words : List Word} (hc : Counts t words) :
    t.stored.length = words.dedup.length := by
  rw [(stored_perm hi hc).length_eq, List.length_map]

/-- One call on a table that has seen at most two calls and no extension. -/
theorem added_early {t t' : Hashtable} (hi : t.Inv) {words : List Word} (hc : Counts t words)
    (hlen : words.length ≤ 2) (hsize : t.size = hashtableSize)
    (hocc : t.occupied.toNat = words.length) {word : Word} (h : Added t words word t') :
    if words.length = 2 then t'.occupied = 0
    else t'.occupied.toNat = words.length + 1 ∧ t'.size = hashtableSize := by
  have hfree : t.stored.length < t.size.toNat := by
    have hle := words.dedup_sublist.length_le
    rw [stored_length hi hc, hsize]
    show _ < 4
    omega
  have hmax : t.maxOccupied.toNat = 3 := by
    rw [hi.maxOccupied_eq, hsize]
    rfl
  have hadd : (t.occupied + 1).toNat = words.length + 1 := by
    rw [UInt32.toNat_add, hocc, UInt32.toNat_one]
    omega
  have hstep := h.occupied_eq hfree
  by_cases h2 : words.length = 2
  · rw [if_pos (UInt32.toNat_inj.mp (by rw [hadd, hmax]; omega))] at hstep
    rw [if_pos h2]
    exact hstep
  · rw [if_neg fun heq => h2 (by rw [heq, hmax] at hadd; omega)] at hstep
    rw [if_neg h2, hstep.1, hadd]
    exact ⟨rfl, hstep.2.trans hsize⟩

theorem exists_after {words : List Word} (hne : ∀ word ∈ words, word ≠ .empty)
    (hlen : words.length ≤ 29) : ∃ t, After words t := by
  obtain ⟨t, hrun, -⟩ := addAll_spec hne (sizeBounded_of_length hne hlen)
  exact ⟨t, 2, hrun 2 (Nat.le_refl _)⟩

theorem After.inv_counts {words : List Word} {t : Hashtable} (h : After words t)
    (hne : ∀ word ∈ words, word ≠ .empty) (hlen : words.length ≤ 29) : t.Inv ∧ Counts t words := by
  obtain ⟨t', hrun, hi, hc, -⟩ := addAll_spec hne (sizeBounded_of_length hne hlen)
  rw [h.eq (hrun 2 (Nat.le_refl _))]
  exact ⟨hi, hc⟩

theorem added_of_after {words : List Word} {word : Word}
    (hne : ∀ w ∈ words ++ [word], w ≠ .empty) (hlen : words.length ≤ 28) {t t' : Hashtable}
    (h : After words t) (h' : After (words ++ [word]) t') : Added t words word t' := by
  obtain ⟨hi, hc⟩ := h.inv_counts (fun w hw => hne w (List.mem_append_left _ hw)) (by omega)
  have hbounded : SizeBounded (words ++ [word]) :=
    sizeBounded_of_length hne (by rw [List.length_append, List.length_singleton]; omega)
  obtain ⟨t₁, hcall, hadded⟩ := hashtableAdd_spec hi hc (hne word (by simp))
    fun u hu => hbounded words word t u (List.prefix_refl _) h hu
  obtain ⟨fuel, hrun⟩ := h
  have hrun₁ : addAll (max fuel 2) (hashtableNew hashtableSize) (words ++ [word]) = some t₁ := by
    rw [addAll_append_singleton, addAll_mono (Nat.le_max_left fuel 2) hrun]
    exact hcall _ (Nat.le_max_right fuel 2)
  rw [h'.eq hrun₁]
  exact hadded

theorem occupied_after {words : List Word} (hne : ∀ word ∈ words, word ≠ .empty)
    (hlen : words.length ≤ 2) {t : Hashtable} (h : After words t) :
    t.occupied.toNat = words.length ∧ t.size = hashtableSize := by
  induction words using List.reverseRecOn generalizing t with
  | nil =>
    have hnew : addAll 0 (hashtableNew hashtableSize) [] = some (hashtableNew hashtableSize) := rfl
    rw [h.eq hnew]
    exact ⟨rfl, rfl⟩
  | append_singleton words word ih =>
    rw [List.length_append, List.length_singleton] at hlen ⊢
    have hne' : ∀ w ∈ words, w ≠ .empty := fun w hw => hne w (List.mem_append_left _ hw)
    obtain ⟨t₀, hafter⟩ := exists_after hne' (by omega)
    obtain ⟨hi, hc⟩ := hafter.inv_counts hne' (by omega)
    obtain ⟨hocc, hsize⟩ := ih hne' (by omega) hafter
    have hstep := added_early hi hc (by omega) hsize hocc (added_of_after hne (by omega) hafter h)
    rw [if_neg (by omega)] at hstep
    exact hstep

/-- The third call extends the table, which starts the counter at 0. -/
theorem occupied_after_three {words : List Word} (hne : ∀ word ∈ words, word ≠ .empty)
    (hlen : words.length = 3) {t : Hashtable} (h : After words t) : t.occupied = 0 := by
  induction words using List.reverseRecOn with
  | nil => cases hlen
  | append_singleton words word _ =>
    rw [List.length_append, List.length_singleton] at hlen
    have hne' : ∀ w ∈ words, w ≠ .empty := fun w hw => hne w (List.mem_append_left _ hw)
    obtain ⟨t₀, hafter⟩ := exists_after hne' (by omega)
    obtain ⟨hi, hc⟩ := hafter.inv_counts hne' (by omega)
    obtain ⟨hocc, hsize⟩ := occupied_after hne' (by omega) hafter
    have hstep := added_early hi hc (by omega) hsize hocc (added_of_after hne (by omega) hafter h)
    rw [if_pos (by omega)] at hstep
    exact hstep

/-- The load-factor invariant holds after every call of a sequence if and only if the sequence has
at most two calls, with different words. -/
theorem load_factor_iff {words : List Word} (hne : ∀ word ∈ words, word ≠ .empty) :
    (∀ done, done <+: words → done ≠ [] → ∃ t, After done t ∧ LoadFactor t) ↔
      words.length ≤ 2 ∧ words.Nodup := by
  constructor
  · intro hall
    have hlen : words.length ≤ 2 := by
      by_contra hlong
      have h3 : (words.take 3).length = 3 := by
        rw [List.length_take]
        omega
      have hne3 : ∀ w ∈ words.take 3, w ≠ .empty := fun w hw => hne w (List.mem_of_mem_take hw)
      have hnil : words.take 3 ≠ [] := List.ne_nil_of_length_pos (by omega)
      obtain ⟨t, hafter, hocc, -⟩ := hall _ (List.take_prefix 3 words) hnil
      obtain ⟨hi, hc⟩ := hafter.inv_counts hne3 (by omega)
      have hpos : 0 < (words.take 3).dedup.length := by
        obtain ⟨w, hw⟩ := List.exists_mem_of_ne_nil _ hnil
        exact List.length_pos_of_mem (List.mem_dedup.mpr hw)
      rw [occupied_after_three hne3 h3 hafter, stored_length hi hc] at hocc
      have hzero : (0 : UInt32).toNat = 0 := rfl
      omega
    refine ⟨hlen, ?_⟩
    by_cases hnil : words = []
    · rw [hnil]
      exact List.nodup_nil
    · obtain ⟨t, hafter, hocc, -⟩ := hall words (List.prefix_refl _) hnil
      obtain ⟨hi, hc⟩ := hafter.inv_counts hne (by omega)
      rw [(occupied_after hne hlen hafter).1, stored_length hi hc] at hocc
      exact List.dedup_eq_self.mp (words.dedup_sublist.eq_of_length hocc.symm)
  · rintro ⟨hlen, hnodup⟩ done hpre -
    have hne' : ∀ w ∈ done, w ≠ .empty := fun w hw => hne w (hpre.subset hw)
    have hle := hpre.length_le
    obtain ⟨t, hafter⟩ := exists_after hne' (by omega)
    obtain ⟨hi, hc⟩ := hafter.inv_counts hne' (by omega)
    obtain ⟨hocc, hsize⟩ := occupied_after hne' (by omega) hafter
    have hmax : t.maxOccupied.toNat = 3 := by
      rw [hi.maxOccupied_eq, hsize]
      rfl
    refine ⟨t, hafter, ?_, ?_, ?_⟩
    · rw [hocc, stored_length hi hc, (hnodup.sublist hpre.sublist).dedup]
    · rw [UInt32.lt_iff_toNat_lt, hocc, hmax]
      omega
    · rw [hmax, hsize]
      rfl

theorem load_factor_two : ∃ t, After [wordA, wordB] t ∧ LoadFactor t := by
  have hne : ∀ word ∈ [wordA, wordB], word ≠ .empty := by simp [wordA, wordB, Word.empty]
  exact (load_factor_iff hne).mpr (by simp [wordA, wordB]) _ (List.prefix_refl _) (by simp)

/-- Three times the same word: the table has twice the size for one word, and by its counter it is
empty. -/
theorem load_factor_fails : ∃ t, After [wordA, wordA, wordA] t ∧ t.size = 8 ∧ t.occupied = 0 ∧
    t.stored.length = 1 ∧ ¬ LoadFactor t := by
  refine ⟨_, ⟨2, rfl⟩, rfl, rfl, rfl, ?_⟩
  rintro ⟨hocc, -⟩
  cases hocc

end CDevHws.Hw06
