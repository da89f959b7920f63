import CDevHws.Hw06.Proofs.CellsProofs

/-!
# Proofs: `hashtable_extend`

The extended table has twice the size, no occupied cells by its own count, and the same entries. The
loop copies the occupied cells one by one: the words copied so far are fewer than the cells of the
new table, so that the search for a free cell succeeds, and the next word is not among them.
-/

namespace CDevHws.Hw06

open Probing (StopsAt Fails WellProbed)

theorem stored_put_new {t : Hashtable} (hi : t.Inv) {cell : Wcnt} (hne : cell.word ≠ .empty) {i : ℕ}
    (hstop : StopsAt t.size.toNat (home t.size.toNat) t.keys cell.word i)
    (hnew : ∀ old ∈ t.stored, old.word ≠ cell.word) :
    (t.put i cell).stored.Perm (cell :: t.stored) := by
  have hnodup : (cell :: t.stored).Nodup :=
    List.nodup_cons.mpr ⟨fun hmem => hnew cell hmem rfl, hi.stored_nodup⟩
  rw [List.perm_ext_iff_of_nodup (inv_put hi hne hstop).stored_nodup hnodup]
  intro other
  rw [List.mem_cons, mem_stored, mem_stored]
  constructor
  · rintro ⟨hmem, hother⟩
    rcases (mem_words_put hi hne hstop hother).mp hmem with heq | ⟨-, hold⟩
    · exact Or.inl heq
    · exact Or.inr ⟨hold, hother⟩
  · rintro (heq | ⟨hold, hother⟩)
    · have hother : other.word ≠ .empty := by rw [heq]; exact hne
      exact ⟨(mem_words_put hi hne hstop hother).mpr (Or.inl heq), hother⟩
    · have hw := hnew other (mem_stored.mpr ⟨hold, hother⟩)
      exact ⟨(mem_words_put hi hne hstop hother).mpr (Or.inr ⟨hw, hold⟩), hother⟩

/-- Copying an occupied cell puts it where the search for its word stops, with its count. -/
theorem copyCell_spec {u : Hashtable} (hi : u.Inv) (hroom : u.stored.length < u.size.toNat)
    {cell : Wcnt} (hne : cell.word ≠ .empty) :
    ∃ i, StopsAt u.size.toNat (home u.size.toNat) u.keys cell.word i ∧
      copyCell u cell = some (u.put i cell) := by
  obtain ⟨index, hsearch, hstop⟩ := searchWord_of_room hi hroom hne
  obtain ⟨n, hadd, -⟩ := addWord_spec hi hne hstop rfl
  have hset := setCount_put hstop.lt cell.word rfl (n + 1) cell.count
  refine ⟨index.toNat, hstop, ?_⟩
  unfold copyCell
  rw [if_pos hne, hsearch]
  simp only [Option.bind_eq_bind, Option.bind_some, UInt32.toUInt32_toInt32, hadd, hset]

/-- Table `u` after the loop of `hashtable_extend` has gone through the cells `done` of `t`. -/
structure Copied (t : Hashtable) (done : List Wcnt) (u : Hashtable) : Prop where
  inv : u.Inv
  size_eq : u.size.toNat = 2 * t.size.toNat
  occupied_eq : u.occupied = 0
  stored_perm : u.stored.Perm (done.filter (·.word ≠ .empty))

theorem Copied.stored_length_le {t u : Hashtable} {done : List Wcnt} (h : Copied t done u) :
    u.stored.length ≤ done.length := by
  rw [h.stored_perm.length_eq]
  exact List.length_filter_le _ _

theorem copied_step {t u : Hashtable} (hi : t.Inv) {done rest : List Wcnt} {cell : Wcnt}
    (hcells : done ++ cell :: rest = t.words) (hu : Copied t done u) :
    ∃ u', copyCell u cell = some u' ∧ Copied t (done ++ [cell]) u' := by
  have hlen : done.length < t.words.length := by
    rw [← hcells, List.length_append, List.length_cons]
    omega
  by_cases he : cell.word = .empty
  · refine ⟨u, by unfold copyCell; rw [if_neg (not_not.mpr he)], hu.inv, hu.size_eq,
      hu.occupied_eq, ?_⟩
    rw [List.filter_append, List.filter_singleton]
    simp only [he, ne_eq, not_true_eq_false, decide_false, Bool.cond_false, List.append_nil]
    exact hu.stored_perm
  · have hroom : u.stored.length < u.size.toNat := by
      have hle := hu.stored_length_le
      rw [hu.size_eq]
      rw [t.length_words] at hlen
      omega
    have hnew : ∀ old ∈ u.stored, old.word ≠ cell.word := by
      intro old hmem hw
      have hdone : old ∈ done := List.mem_of_mem_filter (hu.stored_perm.mem_iff.mp hmem)
      obtain ⟨j, hj, hget⟩ := List.mem_iff_getElem.mp hdone
      have hj' : t.words[j]? = some old := by
        rw [← hcells, List.getElem?_append_left hj, List.getElem?_eq_getElem hj, hget]
      have hlast : t.words[done.length]? = some cell := by
        rw [← hcells, List.getElem?_append_right (Nat.le_refl _), Nat.sub_self]
        rfl
      have hsame := hi.unique hlast hj' he hw.symm
      omega
    obtain ⟨i, hstop, hcopy⟩ := copyCell_spec hu.inv hroom he
    refine ⟨u.put i cell, hcopy, inv_put hu.inv he hstop, hu.size_eq, hu.occupied_eq, ?_⟩
    have hperm := stored_put_new hu.inv he hstop hnew
    rw [List.filter_append, List.filter_singleton]
    simp only [he, ne_eq, not_false_eq_true, decide_true, Bool.cond_true]
    exact (hperm.trans (hu.stored_perm.cons cell)).trans (List.perm_append_singleton _ _).symm

theorem copied_loop {t : Hashtable} (hi : t.Inv) : ∀ (rest done : List Wcnt) (u : Hashtable),
    done ++ rest = t.words → Copied t done u →
    ∃ u', rest.foldlM copyCell u = some u' ∧ Copied t t.words u' := by
  intro rest
  induction rest with
  | nil =>
    intro done u hcells hu
    rw [List.append_nil] at hcells
    exact ⟨u, rfl, hcells ▸ hu⟩
  | cons cell rest ih =>
    intro done u hcells hu
    obtain ⟨u', hcopy, hu'⟩ := copied_step hi hcells hu
    rw [List.foldlM_cons, hcopy]
    exact ih (done ++ [cell]) u' (by rw [← hcells, List.append_assoc]; rfl) hu'

/-- `hashtable_extend` keeps every entry. -/
theorem hashtableExtend_spec {t : Hashtable} (hi : t.Inv) (hsize : t.size.toNat ≤ 2 ^ 30) :
    ∃ t', hashtableExtend t = some t' ∧ Copied t t.words t' := by
  have h4 := hi.four_le_size
  have hdouble : (t.size * extendFactor).toNat = 2 * t.size.toNat := by
    rw [UInt32.toNat_mul]
    show t.size.toNat * 2 % 2 ^ 32 = _
    omega
  have hnew : Copied t [] (hashtableNew (t.size * extendFactor)) := by
    refine ⟨inv_hashtableNew (by omega) (by omega), hdouble, rfl, ?_⟩
    rw [stored_hashtableNew]
    exact List.Perm.nil
  exact copied_loop hi t.words [] _ rfl hnew

theorem copied_room {t t' : Hashtable} (hi : t.Inv) (h : Copied t t.words t') :
    t'.stored.length < t'.size.toNat := by
  have h4 := hi.four_le_size
  have hle := h.stored_length_le
  rw [t.length_words] at hle
  rw [h.size_eq]
  omega

theorem copied_load {t t' : Hashtable} (hi : t.Inv) (h : Copied t t.words t') :
    t'.occupied + 1 ≠ t'.maxOccupied := by
  have h4 := hi.four_le_size
  have hsize := h.size_eq
  have hle := h.inv.size_le
  rw [h.occupied_eq, h.inv.maxOccupied_eq]
  intro hone
  have htoNat := congrArg UInt32.toNat hone
  have hmax : (maxLoad t'.size).toNat = t'.size.toNat * 3 / 4 := by
    unfold maxLoad
    exact UInt32.toNat_ofNat_of_lt' (by show _ < 2 ^ 32; omega)
  have hzero : ((0 : UInt32) + 1).toNat = 1 := rfl
  rw [hmax, hzero] at htoNat
  omega

end CDevHws.Hw06
