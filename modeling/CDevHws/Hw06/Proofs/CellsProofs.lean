import CDevHws.Hw06.Proofs.ProbingProofs

/-!
# Proofs: the cells of the table

The invariant of the table, and `hashtable_extend`. What a table stores is the list of its occupied
cells; filling a cell changes the entry of one word, and extending the table changes no entry.
-/

namespace CDevHws.Hw06

open Probing (StopsAt Fails WellProbed)

/-- The occupied cells. -/
def Hashtable.stored (t : Hashtable) : List Wcnt := t.words.filter (·.word ≠ .empty)

/-- The invariant of the table. -/
structure Hashtable.Inv (t : Hashtable) : Prop where
  four_le_size : 4 ≤ t.size.toNat
  /-- The indices are not negative as an `int`. -/
  size_le : t.size.toNat ≤ 2 ^ 31
  maxOccupied_eq : t.maxOccupied = maxLoad t.size
  wellProbed : WellProbed t.size.toNat (home t.size.toNat) t.keys
  count_free : ∀ cell ∈ t.words, cell.word = .empty → cell.count = 0

theorem mem_stored {t : Hashtable} {cell : Wcnt} :
    cell ∈ t.stored ↔ cell ∈ t.words ∧ cell.word ≠ .empty := by
  unfold Hashtable.stored
  rw [List.mem_filter, decide_eq_true_eq]

theorem getElem?_lt {t : Hashtable} {i : ℕ} {cell : Wcnt} (h : t.words[i]? = some cell) :
    i < t.size.toNat := by
  rw [← t.length_words]
  exact (List.getElem?_eq_some_iff.mp h).1

theorem Hashtable.Inv.unique {t : Hashtable} (hi : t.Inv) {i j : ℕ} {cell cell' : Wcnt}
    (h : t.words[i]? = some cell) (h' : t.words[j]? = some cell') (hne : cell.word ≠ .empty)
    (hw : cell.word = cell'.word) : i = j := by
  have hk : t.keys i = some cell.word := keys_eq_some_iff.mpr ⟨hne, cell.count, h⟩
  have hk' : t.keys j = some cell.word :=
    keys_eq_some_iff.mpr ⟨hne, cell'.count, by rw [hw]; exact h'⟩
  exact hi.wellProbed.unique i (getElem?_lt h) j (getElem?_lt h') _ hk hk'

theorem Hashtable.Inv.stored_nodup {t : Hashtable} (hi : t.Inv) : t.stored.Nodup := by
  have hdistinct : t.words.Pairwise fun a b => a.word ≠ .empty → a.word ≠ b.word := by
    rw [List.pairwise_iff_getElem]
    intro i j hil hjl hij hne heq
    have hij' := hi.unique (List.getElem?_eq_getElem hil) (List.getElem?_eq_getElem hjl) hne heq
    omega
  refine (List.Pairwise.filter _ hdistinct).imp_of_mem ?_
  intro a b ha _ hab heq
  exact hab (mem_stored.mp ha).2 (by rw [heq])

/-- If fewer words are stored than there are cells, the search for a word does not fail. -/
theorem not_fails_of_stored_lt {t : Hashtable} (h : t.stored.length < t.size.toNat) {word : Word} :
    ¬ Fails t.size.toNat (home t.size.toNat) t.keys word := by
  intro hf
  have hfull : t.stored = t.words := by
    unfold Hashtable.stored
    rw [List.filter_eq_self]
    intro cell hmem
    obtain ⟨i, hget⟩ := List.mem_iff_getElem?.mp hmem
    have hkey := (hf.passed (getElem?_lt hget)).1
    rw [decide_eq_true_eq]
    exact fun he => hkey ((keys_eq_none_iff hget).mpr he)
  rw [hfull, t.length_words] at h
  omega

/-- In a table with a free cell `search_word` finds a cell. -/
theorem searchWord_of_room {t : Hashtable} (hi : t.Inv) (hroom : t.stored.length < t.size.toNat)
    {word : Word} (hne : word ≠ .empty) : ∃ i : UInt32, searchWord t word = some i.toInt32 ∧
      StopsAt t.size.toNat (home t.size.toNat) t.keys word i.toNat := by
  have h4 := hi.four_le_size
  rcases searchWord_spec t hne (by omega) with hfound | ⟨-, hfails⟩
  · exact hfound
  · exact absurd hfails (not_fails_of_stored_lt hroom)

/-! ## A new table -/

theorem inv_hashtableNew {size : UInt32} (h4 : 4 ≤ size.toNat) (h31 : size.toNat ≤ 2 ^ 31) :
    (hashtableNew size).Inv where
  four_le_size := h4
  size_le := h31
  maxOccupied_eq := rfl
  wellProbed := by
    refine Probing.wellProbed_empty fun i (hi : i < size.toNat) => ?_
    have hget : (hashtableNew size).words[i]? = some ⟨.empty, 0⟩ := by
      show (List.replicate size.toNat _)[i]? = _
      rw [List.getElem?_replicate, if_pos hi]
    rw [keys_eq_none_iff hget]
  count_free := by
    intro cell hmem _
    rw [List.eq_of_mem_replicate hmem]

theorem stored_hashtableNew (size : UInt32) : (hashtableNew size).stored = [] := by
  refine List.filter_eq_nil_iff.mpr fun cell hmem => ?_
  rw [List.eq_of_mem_replicate hmem]
  simp

/-! ## Filling a cell -/

section put

variable {t : Hashtable} {word : Word} {i : ℕ} {count : UInt32}

theorem getElem?_put (hlt : i < t.size.toNat) (cell : Wcnt) (j : ℕ) :
    (t.put i cell).words[j]? = if j = i then some cell else t.words[j]? := by
  show (t.words.set i cell)[j]? = _
  rw [List.getElem?_set]
  by_cases hji : j = i
  · rw [if_pos hji.symm, if_pos hji, if_pos (by rw [t.length_words]; exact hlt)]
  · rw [if_neg (Ne.symm hji), if_neg hji]

theorem keys_put (hlt : i < t.size.toNat) (hne : word ≠ .empty) :
    (t.put i ⟨word, count⟩).keys = Function.update t.keys i (some word) := by
  funext j
  unfold Hashtable.keys
  rw [getElem?_put hlt]
  by_cases hji : j = i
  · rw [if_pos hji, hji, Function.update_self, Option.bind_some, if_neg hne]
  · rw [if_neg hji, Function.update_of_ne hji]

variable (hi : t.Inv) (hne : word ≠ .empty)
  (hstop : StopsAt t.size.toNat (home t.size.toNat) t.keys word i)

include hi hne hstop

/-- Putting a word into the cell at which the search for it stops keeps the invariant. -/
theorem inv_put : (t.put i ⟨word, count⟩).Inv where
  four_le_size := hi.four_le_size
  size_le := hi.size_le
  maxOccupied_eq := hi.maxOccupied_eq
  wellProbed := by
    rw [keys_put hstop.lt hne]
    exact hi.wellProbed.insert hstop
  count_free := by
    intro cell hmem he
    rcases List.mem_or_eq_of_mem_set hmem with hold | hnew
    · exact hi.count_free cell hold he
    · rw [hnew] at he
      exact absurd he hne

/-- The cell at which the search for a word stops is the only one that may hold it. -/
theorem mem_words_put {cell : Wcnt} (hcell : cell.word ≠ .empty) :
    cell ∈ (t.put i ⟨word, count⟩).words ↔
      cell = ⟨word, count⟩ ∨ cell.word ≠ word ∧ cell ∈ t.words := by
  rw [List.mem_iff_getElem?, List.mem_iff_getElem?]
  constructor
  · rintro ⟨j, hj⟩
    rw [getElem?_put hstop.lt] at hj
    by_cases hji : j = i
    · rw [if_pos hji] at hj
      exact Or.inl (Option.some.inj hj).symm
    · rw [if_neg hji] at hj
      refine Or.inr ⟨fun hw => hji ?_, j, hj⟩
      have hk : t.keys j = some word :=
        keys_eq_some_iff.mpr ⟨hne, cell.count, by rw [← hw]; exact hj⟩
      exact (hstop.eq_of_stored hi.wellProbed (getElem?_lt hj) hk).symm
  · rintro (rfl | ⟨hw, j, hj⟩)
    · exact ⟨i, by rw [getElem?_put hstop.lt, if_pos rfl]⟩
    · refine ⟨j, ?_⟩
      have hji : j ≠ i := by
        rintro rfl
        have hk : t.keys j = some cell.word := keys_eq_some_iff.mpr ⟨hcell, cell.count, hj⟩
        rcases hstop.free_or_key with hfree | hkey
        · rw [hk] at hfree; cases hfree
        · rw [hk] at hkey; exact hw (Option.some.inj hkey)
      rw [getElem?_put hstop.lt, if_neg hji]
      exact hj

/-- `add_word` at the cell where the search stops adds one to the count of the word, which is 0 if
the word is new. -/
theorem addWord_spec {index : UInt32} (hindex : index.toNat = i) :
    ∃ n, addWord t word index = some (t.put i ⟨word, n + 1⟩) ∧
      (⟨word, n⟩ ∈ t.words ∨ n = 0 ∧ ∀ count, ⟨word, count⟩ ∉ t.words) := by
  have hlt : i < t.words.length := by rw [t.length_words]; exact hstop.lt
  have hget : t.words[i]? = some t.words[i] := List.getElem?_eq_getElem hlt
  have hmem : t.words[i] ∈ t.words := List.getElem_mem hlt
  set cell := t.words[i] with hcell
  have hadd : addWord t word index =
      some (t.put i ⟨if cell.word = .empty then word else cell.word, cell.count + 1⟩) := by
    unfold addWord
    rw [hindex, hget, Option.map_some]
    by_cases he : cell.word = .empty
    · simp only [if_pos he]
    · simp only [if_neg he]
  rcases hstop.free_or_key with hfree | hkey
  · have he := (keys_eq_none_iff hget).mp hfree
    refine ⟨cell.count, by rw [hadd, if_pos he], Or.inr ⟨hi.count_free cell hmem he, ?_⟩⟩
    intro count hc
    obtain ⟨j, hj⟩ := List.mem_iff_getElem?.mp hc
    have hk : t.keys j = some word := keys_eq_some_iff.mpr ⟨hne, count, hj⟩
    rw [hstop.eq_of_stored hi.wellProbed (getElem?_lt hj) hk, hk] at hfree
    cases hfree
  · obtain ⟨-, count, hc⟩ := keys_eq_some_iff.mp hkey
    have hw : cell.word = word := by
      rw [hget] at hc
      rw [Option.some.inj hc]
    refine ⟨cell.count, by rw [hadd, if_neg (by rw [hw]; exact hne), hw], Or.inl ?_⟩
    rw [← hw]
    exact hmem

end put

theorem setCount_put {t : Hashtable} {i : ℕ} (hlt : i < t.size.toNat) (word : Word) {index : UInt32}
    (hindex : index.toNat = i) (n m : UInt32) :
    setCount (t.put i ⟨word, n⟩) index m = some (t.put i ⟨word, m⟩) := by
  have hget : (t.put i ⟨word, n⟩).words[index.toNat]? = some ⟨word, n⟩ := by
    rw [getElem?_put hlt, if_pos hindex]
  unfold setCount
  rw [hget, Option.map_some, hindex]
  simp only [Hashtable.put, List.set_set]

end CDevHws.Hw06
