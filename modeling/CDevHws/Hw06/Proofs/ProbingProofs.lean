import CDevHws.Hw06.Hashtable
import CDevHws.Lib.Probing

/-!
# Proofs: searching and filling cells

`search_word` is the search of linear probing (`CDevHws.Lib.Probing`), and `add_word` fills the cell
at which it stops. The cells are read through `keys`, which shows a free cell as `none`.
-/

namespace CDevHws.Hw06

open Probing (visit Passed StopsAt Fails WellProbed)

/-- The word in cell `i`, if there is one. -/
def Hashtable.keys (t : Hashtable) (i : ℕ) : Option Word :=
  (t.words[i]?).bind fun cell => if cell.word = .empty then none else some cell.word

/-- The cell in which the search for a word starts, in a table of `n` cells. -/
def home (n : ℕ) (word : Word) : ℕ := (hash word).toNat % n

theorem keys_eq_none_iff {t : Hashtable} {i : ℕ} {cell : Wcnt} (h : t.words[i]? = some cell) :
    t.keys i = none ↔ cell.word = .empty := by
  unfold Hashtable.keys
  rw [h, Option.bind_some]
  by_cases he : cell.word = .empty
  · simp [he]
  · simp [he]

theorem keys_eq_some_iff {t : Hashtable} {i : ℕ} {word : Word} :
    t.keys i = some word ↔ word ≠ .empty ∧ ∃ count, t.words[i]? = some ⟨word, count⟩ := by
  unfold Hashtable.keys
  rw [Option.bind_eq_some_iff]
  constructor
  · rintro ⟨⟨w, count⟩, hc, hif⟩
    split_ifs at hif with he
    cases hif
    exact ⟨he, count, hc⟩
  · rintro ⟨hne, count, hc⟩
    exact ⟨_, hc, if_neg hne⟩

/-! ## `search_word` -/

/-- In a cell of the table, `empty_cell` is true if and only if the search need not go on. -/
theorem emptyCell_spec {t : Hashtable} {word : Word} (hne : word ≠ .empty) {index : UInt32}
    (h : index.toNat < t.size.toNat) :
    ∃ b, emptyCell t.words word index = some b ∧
      (b = true ↔ ¬ Passed t.keys word index.toNat) := by
  have hlt : index.toNat < t.words.length := by rw [t.length_words]; exact h
  have hget : t.words[index.toNat]? = some t.words[index.toNat] := List.getElem?_eq_getElem hlt
  set cell := t.words[index.toNat] with hcell
  refine ⟨cell.word = .empty || word = cell.word, by unfold emptyCell; rw [hget]; rfl, ?_⟩
  have hnone := keys_eq_none_iff hget
  have hsome : t.keys index.toNat = some word ↔ word = cell.word := by
    rw [keys_eq_some_iff, hget]
    constructor
    · rintro ⟨-, count, hc⟩
      rw [Option.some.inj hc]
    · intro hw
      exact ⟨hne, cell.count, by rw [hw]⟩
  unfold Passed
  rw [Bool.or_eq_true, decide_eq_true_eq, decide_eq_true_eq, Ne, Ne, hnone, hsome]
  by_cases he : cell.word = .empty
  · simp [he]
  · simp [he]

/-- The step from one cell to the next does not wrap around as an `unsigned int`. -/
theorem next_index {t : Hashtable} {index : UInt32} (h : index.toNat < t.size.toNat) :
    (if index + 1 = t.size then 0 else index + 1).toNat =
      if index.toNat + 1 = t.size.toNat then 0 else index.toNat + 1 := by
  have hsize := t.size.toNat_lt
  have hadd : (index + 1).toNat = index.toNat + 1 := by
    rw [UInt32.toNat_add, UInt32.toNat_one]
    omega
  by_cases heq : index.toNat + 1 = t.size.toNat
  · have h32 : index + 1 = t.size := UInt32.toNat_inj.mp (by rw [hadd, heq])
    rw [if_pos heq, if_pos h32]
    rfl
  · have h32 : index + 1 ≠ t.size := fun hc => heq (by rw [← hadd, hc])
    rw [if_neg heq, if_neg h32, hadd]

/-- From the cell visited at step `d` on, the loop of `search_word` stops where the probing stops,
or fails where it fails. -/
theorem searchLoop_spec (t : Hashtable) {word : Word} (hne : word ≠ .empty)
    (hn : 0 < t.size.toNat) : ∀ left d (index : UInt32), d + left = t.size.toNat →
      index.toNat = visit t.size.toNat (home t.size.toNat word) d →
      (∀ e < d, Passed t.keys word (visit t.size.toNat (home t.size.toNat word) e)) →
      (∃ i : UInt32, searchLoop t word left index = some (some i) ∧
        StopsAt t.size.toNat (home t.size.toNat) t.keys word i.toNat) ∨
      (searchLoop t word left index = some none ∧
        Fails t.size.toNat (home t.size.toNat) t.keys word) := by
  intro left
  induction left with
  | zero =>
    intro d index hd _ hpassed
    exact Or.inr ⟨rfl, fun e he => hpassed e (by omega)⟩
  | succ left ih =>
    intro d index hd hindex hpassed
    have hlt : index.toNat < t.size.toNat := by rw [hindex]; exact Probing.visit_lt hn _ _
    obtain ⟨b, hb, hbp⟩ := emptyCell_spec hne hlt
    cases b with
    | true =>
      refine Or.inl ⟨index, by simp [searchLoop, hb], d, by omega, hindex.symm, hbp.mp rfl, hpassed⟩
    | false =>
      have hp : Passed t.keys word index.toNat := by
        by_contra hc
        exact Bool.false_ne_true (hbp.mpr hc)
      have hloop : searchLoop t word (left + 1) index =
          searchLoop t word left (if index + 1 = t.size then 0 else index + 1) := by
        simp [searchLoop, hb]
      rw [hloop]
      refine ih (d + 1) _ (by omega) ?_ ?_
      · rw [next_index hlt, hindex, Probing.visit_succ hn]
      · intro e he
        by_cases hed : e = d
        · rw [hed, ← hindex]; exact hp
        · exact hpassed e (by omega)

theorem toInt32_nonneg {i : UInt32} (h : i.toNat < 2 ^ 31) : ¬ i.toInt32 < 0 := by
  rw [Int32.lt_iff_toInt_lt]
  have hbv : i.toInt32.toInt = i.toBitVec.toInt := rfl
  rw [hbv, BitVec.toInt_eq_toNat_cond, if_pos (by show 2 * i.toNat < 2 ^ 32; omega)]
  show ¬ (i.toNat : Int) < 0
  omega

/-- `search_word` returns the cell at which the probing stops, or -1 where it fails. -/
theorem searchWord_spec (t : Hashtable) {word : Word} (hne : word ≠ .empty)
    (hn : 0 < t.size.toNat) :
    (∃ i : UInt32, searchWord t word = some i.toInt32 ∧
      StopsAt t.size.toNat (home t.size.toNat) t.keys word i.toNat) ∨
    (searchWord t word = some (-1) ∧ Fails t.size.toNat (home t.size.toNat) t.keys word) := by
  have hsize : t.size ≠ 0 := by
    intro h0
    rw [h0] at hn
    simp at hn
  have hlt := Nat.mod_lt (hash word).toNat hn
  have hsz := t.size.toNat_lt
  set index := UInt32.ofNat ((hash word).toNat % t.size.toNat) with hindex
  have hget : getHashIndex word t.size = some index := by
    unfold getHashIndex
    rw [if_neg hsize]
  have hnat : index.toNat = visit t.size.toNat (home t.size.toNat word) 0 := by
    unfold visit home
    rw [hindex, Nat.add_zero, Nat.mod_mod]
    exact UInt32.toNat_ofNat_of_lt' (by show _ < 2 ^ 32; omega)
  rcases searchLoop_spec t hne hn t.size.toNat 0 index (by omega) hnat (by omega) with
    ⟨i, hi, hstop⟩ | ⟨hi, hfail⟩
  · exact Or.inl ⟨i, by simp [searchWord, hget, hi], hstop⟩
  · exact Or.inr ⟨by simp [searchWord, hget, hi], hfail⟩

end CDevHws.Hw06
