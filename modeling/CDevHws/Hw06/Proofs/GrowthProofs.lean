import CDevHws.Hw06.Proofs.LoadFactorProofs

/-!
# Proofs: how far the table grows

The number of cells depends on the sequence of words alone, not on their hashes: the table is
doubled when a new word finds every cell occupied, and when the calls since the last extension reach
three quarters of the cells. Beyond `2 ^ 31` cells the number wraps around to 0, and the program
fails.
-/

namespace CDevHws.Hw06

open Probing (StopsAt Fails)

/-! ## The numbers of cells and of calls -/

/-- The number of cells, and of calls since the last extension. -/
structure Growth where
  size : ℕ
  occupied : ℕ

/-- A new table. -/
def Growth.start : Growth := ⟨4, 0⟩

/-- The table is doubled. -/
def Growth.extend (g : Growth) : Growth := ⟨2 * g.size, 0⟩

/-- A call that finds a cell for its word. -/
def Growth.load (g : Growth) : Growth :=
  if g.occupied + 1 = g.size * 3 / 4 then g.extend else ⟨g.size, g.occupied + 1⟩

section growth

variable {α : Type} [DecidableEq α]

/-- A call with `word`, after the calls with the words `done`. -/
def Growth.call (done : List α) (g : Growth) (word : α) : Growth :=
  if word ∉ done ∧ done.dedup.length = g.size then g.extend.load else g.load

/-- The calls with `words`, after those with `done`. -/
def growthFrom (done : List α) (g : Growth) : List α → Growth
  | [] => g
  | word :: words => growthFrom (done ++ [word]) (g.call done word) words

/-- The growth of a new table by a sequence of words. -/
def growth (words : List α) : Growth := growthFrom [] .start words

theorem growthFrom_append_singleton (words : List α) (word : α) : ∀ (done : List α) (g : Growth),
    growthFrom done g (words ++ [word]) = (growthFrom done g words).call (done ++ words) word := by
  induction words with
  | nil =>
    intro done g
    rw [List.append_nil]
    rfl
  | cons first words ih =>
    intro done g
    show growthFrom (done ++ [first]) (g.call done first) (words ++ [word]) = _
    rw [ih, List.append_assoc]
    rfl

theorem growth_append_singleton (words : List α) (word : α) :
    growth (words ++ [word]) = (growth words).call words word :=
  growthFrom_append_singleton words word [] .start

/-- There are at least four cells, their number is a power of two, and the load factor is not
reached. -/
structure Growth.Valid (g : Growth) : Prop where
  four_le_size : 4 ≤ g.size
  size_eq_pow : ∃ k, g.size = 2 ^ k
  occupied_lt : g.occupied < g.size * 3 / 4

theorem Growth.Valid.extend {g : Growth} (hg : g.Valid) : g.extend.Valid := by
  obtain ⟨h4, ⟨k, hk⟩, hocc⟩ := hg
  refine ⟨?_, ⟨k + 1, ?_⟩, ?_⟩
  · show 4 ≤ 2 * g.size
    omega
  · show 2 * g.size = 2 ^ (k + 1)
    rw [hk, Nat.pow_succ, Nat.mul_comm]
  · show 0 < 2 * g.size * 3 / 4
    omega

theorem Growth.Valid.load {g : Growth} (hg : g.Valid) : g.load.Valid := by
  unfold Growth.load
  by_cases hfull : g.occupied + 1 = g.size * 3 / 4
  · rw [if_pos hfull]
    exact hg.extend
  · rw [if_neg hfull]
    have hocc := hg.occupied_lt
    exact ⟨hg.four_le_size, hg.size_eq_pow, by show g.occupied + 1 < g.size * 3 / 4; omega⟩

theorem Growth.size_le_load (g : Growth) : g.size ≤ g.load.size := by
  unfold Growth.load
  split_ifs with hfull
  · show g.size ≤ 2 * g.size
    omega
  · exact Nat.le_refl g.size

theorem Growth.size_le_call (g : Growth) (done : List α) (word : α) :
    g.size ≤ (g.call done word).size := by
  unfold Growth.call
  by_cases hfull : word ∉ done ∧ done.dedup.length = g.size
  · rw [if_pos hfull]
    have hle := g.extend.size_le_load
    have hsize : g.extend.size = 2 * g.size := rfl
    omega
  · rw [if_neg hfull]
    exact g.size_le_load

theorem growth_valid (words : List α) : (growth words).Valid := by
  induction words using List.reverseRecOn with
  | nil => exact ⟨Nat.le_refl 4, ⟨2, rfl⟩, by show 0 < 4 * 3 / 4; omega⟩
  | append_singleton words word ih =>
    rw [growth_append_singleton]
    unfold Growth.call
    by_cases hfull : word ∉ words ∧ words.dedup.length = (growth words).size
    · rw [if_pos hfull]
      exact ih.extend.load
    · rw [if_neg hfull]
      exact ih.load

/-- The largest table that an `unsigned int` allows for. -/
theorem Growth.Valid.size_eq {g : Growth} (hg : g.Valid) (hle : g.size ≤ 2 ^ 31)
    (hbig : 2 ^ 31 < 2 * g.size) : g.size = 2 ^ 31 := by
  obtain ⟨k, hk⟩ := hg.size_eq_pow
  have hk31 : k ≤ 31 := by
    refine (Nat.pow_le_pow_iff_right (Nat.lt_succ_self 1)).mp ?_
    rw [← hk]
    exact hle
  have hk30 : 30 < k := by
    by_contra hlow
    have hpow : 2 ^ k ≤ 2 ^ 30 := Nat.pow_le_pow_right (by omega) (by omega)
    omega
  rw [hk, show k = 31 by omega]

/-- Renaming the words does not change the growth. -/
theorem growth_map {β : Type} [DecidableEq β] {f : α → β} (hf : Function.Injective f)
    (words : List α) : growth (words.map f) = growth words := by
  induction words using List.reverseRecOn with
  | nil => rfl
  | append_singleton words word ih =>
    rw [List.map_append, List.map_singleton, growth_append_singleton, growth_append_singleton, ih]
    unfold Growth.call
    simp only [List.mem_map_of_injective hf, List.dedup_map_of_injective hf, List.length_map]

end growth

/-! ## The table -/

/-- The table `t` counts the words and has grown with them. -/
structure Grown (t : Hashtable) (words : List Word) (g : Growth) : Prop where
  inv : t.Inv
  counts : Counts t words
  size_eq : t.size.toNat = g.size
  occupied_eq : t.occupied.toNat = g.occupied

theorem Grown.stored_length {t : Hashtable} {words : List Word} {g : Growth}
    (h : Grown t words g) : t.stored.length = words.dedup.length :=
  Hw06.stored_length h.inv h.counts

/-- A copy of a table with `2 ^ 30` cells at most. -/
theorem Grown.extend {t : Hashtable} {words : List Word} {g : Growth} (h : Grown t words g)
    (hsize : 2 * g.size ≤ 2 ^ 31) :
    ∃ t', hashtableExtend t = some t' ∧ Grown t' words g.extend := by
  have heq := h.size_eq
  obtain ⟨t', hextend, hcopied⟩ := hashtableExtend_spec h.inv (by omega)
  refine ⟨t', hextend, hcopied.inv, counts_copied h.counts hcopied, ?_, ?_⟩
  · rw [hcopied.size_eq, heq]
    rfl
  · rw [hcopied.occupied_eq]
    rfl

/-- A table of `2 ^ 31` cells cannot be extended: the new size is 0, and there is a word to copy. -/
theorem hashtableExtend_none {t : Hashtable} (hsize : t.size.toNat = 2 ^ 31)
    (hne : t.stored ≠ []) : hashtableExtend t = none := by
  have hzero : t.size * extendFactor = 0 := by
    refine UInt32.toNat_inj.mp ?_
    rw [UInt32.toNat_mul, hsize]
    rfl
  have hcopy : ∀ cell : Wcnt, cell.word ≠ .empty → copyCell (hashtableNew 0) cell = none := by
    intro cell hcell
    unfold copyCell
    rw [if_pos hcell]
    rfl
  have hloop : ∀ cells : List Wcnt, (∃ cell ∈ cells, cell.word ≠ .empty) →
      cells.foldlM copyCell (hashtableNew 0) = none := by
    intro cells
    induction cells with
    | nil =>
      rintro ⟨cell, hmem, -⟩
      cases hmem
    | cons first cells ih =>
      rintro ⟨cell, hmem, hcell⟩
      rw [List.foldlM_cons]
      by_cases hfirst : first.word = .empty
      · have hsame : copyCell (hashtableNew 0) first = some (hashtableNew 0) := by
          unfold copyCell
          rw [if_neg (not_not.mpr hfirst)]
        rw [hsame]
        refine ih ⟨cell, ?_, hcell⟩
        rcases List.mem_cons.mp hmem with rfl | hrest
        · exact absurd hfirst hcell
        · exact hrest
      · rw [hcopy first hfirst]
        rfl
  obtain ⟨cell, hmem⟩ := List.exists_mem_of_ne_nil _ hne
  unfold hashtableExtend
  rw [hzero]
  exact hloop t.words ⟨cell, mem_stored.mp hmem⟩

/-- A call that fails with any fuel for one more call fails without fuel, too. -/
theorem hashtableAdd_none {t : Hashtable} {word : Word}
    (h : ∀ fuel, hashtableAdd (fuel + 1) t word = none) (fuel : ℕ) :
    hashtableAdd fuel t word = none := by
  cases fuel with
  | zero => rfl
  | succ fuel => exact h fuel

theorem hashtableAdd_some {t t' : Hashtable} {word : Word} {bound : ℕ}
    (h : ∀ fuel ≥ bound, hashtableAdd (fuel + 1) t word = some t') :
    ∀ fuel ≥ bound + 1, hashtableAdd fuel t word = some t' := by
  intro fuel hfuel
  cases fuel with
  | zero => exact absurd hfuel (Nat.not_succ_le_zero bound)
  | succ fuel => exact h fuel (Nat.le_of_succ_le_succ hfuel)

/-- The search for a word fails if and only if the word is new and every cell is occupied. -/
theorem fails_iff {t : Hashtable} {words : List Word} {g : Growth} (h : Grown t words g)
    {word : Word} (hne : word ≠ .empty) : Fails t.size.toNat (home t.size.toNat) t.keys word ↔
      word ∉ words ∧ words.dedup.length = g.size := by
  rw [← h.stored_length, ← h.size_eq]
  constructor
  · intro hfails
    refine ⟨fun hin => ?_, ?_⟩
    · have hstored := (h.counts ⟨word, UInt32.ofNat (words.count word)⟩).mpr ⟨hin, rfl⟩
      obtain ⟨i, hget⟩ := List.mem_iff_getElem?.mp (mem_stored.mp hstored).1
      exact (hfails.passed (getElem?_lt hget)).2 (keys_eq_some_iff.mpr ⟨hne, _, hget⟩)
    · have hle : t.stored.length ≤ t.words.length := List.length_filter_le _ _
      have hnot : ¬ t.stored.length < t.size.toNat := fun hlt => not_fails_of_stored_lt hlt hfails
      rw [t.length_words] at hle
      omega
  · rintro ⟨hnew, hfull⟩ d hd
    have hpos : 0 < t.size.toNat := by omega
    have hlt := Probing.visit_lt hpos (home t.size.toNat word) d
    generalize Probing.visit t.size.toNat (home t.size.toNat word) d = i at hlt
    have hlt' : i < t.words.length := by rw [t.length_words]; exact hlt
    have hget : t.words[i]? = some t.words[i] := List.getElem?_eq_getElem hlt'
    have hall : t.stored = t.words :=
      List.filter_sublist.eq_of_length (by rw [t.length_words]; exact hfull)
    have hmem : t.words[i] ∈ t.stored := by
      rw [hall]
      exact List.getElem_mem hlt'
    refine ⟨fun hnone => ?_, fun hsome => ?_⟩
    · exact (mem_stored.mp hmem).2 ((keys_eq_none_iff hget).mp hnone)
    · obtain ⟨-, count, hc⟩ := keys_eq_some_iff.mp hsome
      have hcell := (h.counts t.words[i]).mp hmem
      rw [Option.some.inj (hget.symm.trans hc)] at hcell
      exact hnew hcell.1

/-- The result of a call, or of a sequence of calls, that follows the growth `g`. -/
def Follows (run : ℕ → Option Hashtable) (words : List Word) (g : Growth) : Prop :=
  (g.size ≤ 2 ^ 31 → ∃ t, (∀ fuel ≥ 2, run fuel = some t) ∧ Grown t words g) ∧
    (2 ^ 31 < g.size → ∀ fuel, run fuel = none)

theorem load_iff {v : Hashtable} (hi : v.Inv) {g : Growth} (hsize : v.size.toNat = g.size)
    (hocc : v.occupied.toNat = g.occupied + 1) :
    v.occupied = v.maxOccupied ↔ g.occupied + 1 = g.size * 3 / 4 := by
  have hle := hi.size_le
  have hmax : v.maxOccupied.toNat = g.size * 3 / 4 := by
    rw [hi.maxOccupied_eq, ← hsize]
    unfold maxLoad
    exact UInt32.toNat_ofNat_of_lt' (by show _ < 2 ^ 32; omega)
  rw [← UInt32.toNat_inj, hocc, hmax]

/-- One call on a table in which the search stops at a cell. -/
theorem follows_of_stops {t : Hashtable} {words : List Word} {g : Growth} (hg : g.Valid)
    (h : Grown t words g) {word : Word} (hne : word ≠ .empty) {index : UInt32}
    (hsearch : searchWord t word = some index.toInt32)
    (hstop : StopsAt t.size.toNat (home t.size.toNat) t.keys word index.toNat) :
    (g.load.size ≤ 2 ^ 31 →
      ∃ t', (∀ fuel ≥ 1, hashtableAdd fuel t word = some t') ∧
        Grown t' (words ++ [word]) g.load) ∧
    (2 ^ 31 < g.load.size → ∀ fuel, hashtableAdd fuel t word = none) := by
  obtain ⟨v, hiv, hcv, hsv, hov, -, hcall⟩ := hashtableAdd_call h.inv h.counts hne hsearch hstop
  have hle := h.inv.size_le
  have hoccLt := hg.occupied_lt
  have hsize : v.size.toNat = g.size := by rw [hsv]; exact h.size_eq
  have hocc : v.occupied.toNat = g.occupied + 1 := by
    rw [hov, UInt32.toNat_add, h.occupied_eq, UInt32.toNat_one]
    have heq := h.size_eq
    omega
  have hiff := load_iff hiv hsize hocc
  unfold Growth.load
  by_cases hfull : g.occupied + 1 = g.size * 3 / 4
  · rw [if_pos hfull]
    have hcall' : ∀ fuel, hashtableAdd (fuel + 1) t word = hashtableExtend v := by
      intro fuel
      rw [hcall fuel, if_pos (hiff.mpr hfull)]
    have hgrown : Grown v (words ++ [word]) ⟨g.size, g.occupied + 1⟩ := ⟨hiv, hcv, hsize, hocc⟩
    have hextend : (Growth.mk g.size (g.occupied + 1)).extend = g.extend := rfl
    constructor
    · intro hroom
      obtain ⟨t', ht', hgrown'⟩ := hgrown.extend hroom
      refine ⟨t', hashtableAdd_some fun fuel _ => ?_, hextend ▸ hgrown'⟩
      rw [hcall', ht']
    · intro hbig
      have hnone : hashtableExtend v = none := by
        refine hashtableExtend_none ?_ ?_
        · have heq := h.size_eq
          rw [hsize]
          exact hg.size_eq (by omega) hbig
        · intro hnil
          have hstored := (hcv ⟨word, UInt32.ofNat ((words ++ [word]).count word)⟩).mpr
            ⟨by simp, rfl⟩
          rw [hnil] at hstored
          cases hstored
      refine hashtableAdd_none fun fuel => ?_
      rw [hcall', hnone]
  · rw [if_neg hfull]
    have hcall' : ∀ fuel, hashtableAdd (fuel + 1) t word = some v := by
      intro fuel
      rw [hcall fuel, if_neg (fun hv => hfull (hiff.mp hv))]
    constructor
    · intro _
      exact ⟨v, hashtableAdd_some fun fuel _ => hcall' fuel, hiv, hcv, hsize, hocc⟩
    · intro hbig
      have heq := h.size_eq
      have hsame : (Growth.mk g.size (g.occupied + 1)).size = g.size := rfl
      omega

/-- One call. -/
theorem follows_call {t : Hashtable} {words : List Word} {g : Growth} (hg : g.Valid)
    (h : Grown t words g) {word : Word} (hne : word ≠ .empty) :
    Follows (fun fuel => hashtableAdd fuel t word) (words ++ [word]) (g.call words word) := by
  have h4 := h.inv.four_le_size
  have hle := h.inv.size_le
  have heq := h.size_eq
  have hiff := fails_iff h hne
  unfold Growth.call
  rcases searchWord_spec t hne (by omega) with ⟨index, hsearch, hstop⟩ | ⟨hsearch, hfails⟩
  · have hnot : ¬ (word ∉ words ∧ words.dedup.length = g.size) := by
      intro hfull
      obtain ⟨d, hd, hvisit, hstops, -⟩ := hstop
      rw [← hvisit] at hstops
      exact hstops (hiff.mpr hfull d hd)
    rw [if_neg hnot]
    obtain ⟨hsome, hnone⟩ := follows_of_stops hg h hne hsearch hstop
    refine ⟨fun hroom => ?_, hnone⟩
    obtain ⟨t', hcall, hgrown⟩ := hsome hroom
    exact ⟨t', fun fuel hfuel => hcall fuel (by omega), hgrown⟩
  · have hfull := hiff.mp hfails
    rw [if_pos hfull]
    have hdouble : g.extend.size = 2 * g.size := rfl
    have hgrows := g.extend.size_le_load
    by_cases hroom : 2 * g.size ≤ 2 ^ 31
    · obtain ⟨t₁, hextend, hgrown₁⟩ := h.extend hroom
      have hagain : ∀ fuel, hashtableAdd (fuel + 1) t word = hashtableAdd fuel t₁ word := by
        intro fuel
        rw [hashtableAdd_again hsearch, hextend]
        rfl
      have hroom₁ : t₁.stored.length < t₁.size.toNat := by
        rw [hgrown₁.stored_length, hgrown₁.size_eq]
        omega
      obtain ⟨index, hsearch₁, hstop⟩ := searchWord_of_room hgrown₁.inv hroom₁ hne
      obtain ⟨hsome, hnone⟩ := follows_of_stops hg.extend hgrown₁ hne hsearch₁ hstop
      constructor
      · intro hsize
        obtain ⟨t', hcall, hgrown⟩ := hsome hsize
        refine ⟨t', hashtableAdd_some fun fuel hfuel => ?_, hgrown⟩
        rw [hagain]
        exact hcall fuel hfuel
      · intro hbig
        refine hashtableAdd_none fun fuel => ?_
        rw [hagain]
        exact hnone hbig fuel
    · have hnone : hashtableExtend t = none := by
        refine hashtableExtend_none ?_ (List.ne_nil_of_length_pos ?_)
        · rw [heq]
          exact hg.size_eq (by omega) (by omega)
        · rw [h.stored_length]
          omega
      refine ⟨fun hsize => by omega, fun _ => hashtableAdd_none fun fuel => ?_⟩
      rw [hashtableAdd_again hsearch, hnone]
      rfl

/-- A sequence of calls on a new table. -/
theorem follows_addAll {words : List Word} (hne : ∀ word ∈ words, word ≠ .empty) :
    Follows (fun fuel => addAll fuel (hashtableNew hashtableSize) words) words (growth words) := by
  induction words using List.reverseRecOn with
  | nil =>
    have hnew : Grown (hashtableNew hashtableSize) [] .start :=
      ⟨inv_hashtableNew (by decide) (by decide), counts_hashtableNew _, rfl, rfl⟩
    refine ⟨fun _ => ⟨_, fun fuel _ => rfl, hnew⟩, fun hbig => ?_⟩
    have h4 : (growth ([] : List Word)).size = 4 := rfl
    omega
  | append_singleton words word ih =>
    obtain ⟨hsome, hnone⟩ := ih fun w hw => hne w (List.mem_append_left _ hw)
    have hword : word ≠ .empty := hne word (by simp)
    have hvalid := growth_valid words
    have hgrows := (growth words).size_le_call words word
    rw [growth_append_singleton]
    by_cases hroom : (growth words).size ≤ 2 ^ 31
    · obtain ⟨t, hrun, hgrown⟩ := hsome hroom
      obtain ⟨hsome', hnone'⟩ := follows_call hvalid hgrown hword
      constructor
      · intro hsize
        obtain ⟨t', hcall, hgrown'⟩ := hsome' hsize
        refine ⟨t', fun fuel hfuel => ?_, hgrown'⟩
        show addAll fuel _ (words ++ [word]) = some t'
        have hrun' : addAll fuel (hashtableNew hashtableSize) words = some t := hrun fuel hfuel
        rw [addAll_append_singleton, hrun']
        exact hcall fuel hfuel
      · intro hbig fuel
        show addAll fuel _ (words ++ [word]) = none
        rw [addAll_append_singleton, Option.bind_eq_none_iff]
        intro t₁ hrun₁
        have hafter : After words t₁ := ⟨fuel, hrun₁⟩
        rw [hafter.eq (hrun 2 (Nat.le_refl _))]
        exact hnone' hbig fuel
    · refine ⟨fun hsize => by omega, fun _ fuel => ?_⟩
      have hrun : addAll fuel (hashtableNew hashtableSize) words = none := hnone (by omega) fuel
      show addAll fuel _ (words ++ [word]) = none
      rw [addAll_append_singleton, hrun]
      rfl

end CDevHws.Hw06
