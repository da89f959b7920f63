import CDevHws.Hw06.Proofs.ExtendProofs
import Mathlib.Data.List.Induction

/-!
# Proofs: the counts of the words

One call of `hashtable_add` adds one to the count of its word: if the search stops at a cell, the
cell is filled and the table perhaps extended; if it fails, the table is full, it is extended once,
and the search in the new table stops. By induction the table counts the words of the whole
sequence.
-/

namespace CDevHws.Hw06

open Probing (StopsAt Fails WellProbed)

/-! ## Fuel -/

theorem searchOrExtend_mono {word : Word} {fuel fuel' : ℕ} (h : fuel ≤ fuel') {t : Hashtable}
    {r : Hashtable × UInt32} (hr : searchOrExtend word fuel t = some r) :
    searchOrExtend word fuel' t = some r := by
  induction fuel generalizing fuel' t with
  | zero => cases hr
  | succ fuel ih =>
    obtain ⟨fuel', rfl⟩ : ∃ k, fuel' = k + 1 := ⟨fuel' - 1, by omega⟩
    simp only [searchOrExtend, Option.bind_eq_bind, Option.bind_eq_some_iff] at hr ⊢
    obtain ⟨index, hsearch, hrest⟩ := hr
    refine ⟨index, hsearch, ?_⟩
    by_cases hneg : index < 0
    · rw [if_pos hneg, Option.bind_eq_some_iff] at hrest ⊢
      obtain ⟨t', hextend, hloop⟩ := hrest
      exact ⟨t', hextend, ih (by omega) hloop⟩
    · rw [if_neg hneg] at hrest ⊢
      exact hrest

theorem hashtableAdd_mono {fuel fuel' : ℕ} (h : fuel ≤ fuel') {t t' : Hashtable} {word : Word}
    (ht : hashtableAdd fuel t word = some t') : hashtableAdd fuel' t word = some t' := by
  unfold hashtableAdd at ht ⊢
  rw [Option.bind_eq_bind, Option.bind_eq_some_iff] at ht ⊢
  obtain ⟨r, hr, hrest⟩ := ht
  exact ⟨r, searchOrExtend_mono h hr, hrest⟩

theorem addAll_mono {fuel fuel' : ℕ} (h : fuel ≤ fuel') {words : List Word} {t t' : Hashtable}
    (ht : addAll fuel t words = some t') : addAll fuel' t words = some t' := by
  unfold addAll at ht ⊢
  induction words generalizing t with
  | nil => exact ht
  | cons word words ih =>
    rw [List.foldlM_cons, Option.bind_eq_bind, Option.bind_eq_some_iff] at ht ⊢
    obtain ⟨t₁, hadd, hrest⟩ := ht
    exact ⟨t₁, hashtableAdd_mono h hadd, ih hrest⟩

theorem addAll_append_singleton (fuel : ℕ) (t : Hashtable) (words : List Word) (word : Word) :
    addAll fuel t (words ++ [word]) =
      (addAll fuel t words).bind fun t' => hashtableAdd fuel t' word := by
  unfold addAll
  rw [List.foldlM_append]
  congr 1
  funext t'
  simp

theorem After.eq {words : List Word} {t t' : Hashtable} (h : After words t) {fuel : ℕ}
    (ht' : addAll fuel (hashtableNew hashtableSize) words = some t') : t = t' := by
  obtain ⟨fuel₁, ht⟩ := h
  rcases Nat.le_total fuel₁ fuel with hle | hle
  · exact Option.some.inj ((addAll_mono hle ht).symm.trans ht')
  · exact Option.some.inj (ht.symm.trans (addAll_mono hle ht'))

/-! ## What the table counts -/

/-- The entries of the table are the words of the sequence with their numbers of occurrences. -/
def Counts (t : Hashtable) (words : List Word) : Prop :=
  ∀ cell, cell ∈ t.stored ↔
    cell.word ∈ words ∧ cell.count = UInt32.ofNat (words.count cell.word)

theorem counts_hashtableNew (size : UInt32) : Counts (hashtableNew size) [] := by
  intro cell
  rw [stored_hashtableNew]
  simp

theorem counts_copied {t t' : Hashtable} {words : List Word} (hc : Counts t words)
    (h : Copied t t.words t') : Counts t' words :=
  fun cell => h.stored_perm.mem_iff.trans (hc cell)

theorem counts_put {t : Hashtable} (hi : t.Inv) {words : List Word} (hc : Counts t words)
    {word : Word} (hne : word ≠ .empty) {i : ℕ}
    (hstop : StopsAt t.size.toNat (home t.size.toNat) t.keys word i) :
    Counts (t.put i ⟨word, UInt32.ofNat (words.count word) + 1⟩) (words ++ [word]) := by
  intro cell
  rw [mem_stored, List.mem_append, List.mem_singleton, List.count_append, List.count_singleton]
  have hold := hc cell
  rw [mem_stored] at hold
  constructor
  · rintro ⟨hmem, hcell⟩
    rcases (mem_words_put hi hne hstop hcell).mp hmem with heq | ⟨hw, hmem'⟩
    · rw [heq]
      simp [UInt32.ofNat_add]
    · obtain ⟨hin, hcount⟩ := hold.mp ⟨hmem', hcell⟩
      refine ⟨Or.inl hin, ?_⟩
      rw [hcount, if_neg (by simpa using Ne.symm hw), Nat.add_zero]
  · rintro ⟨hin, hcount⟩
    by_cases hw : cell.word = word
    · have hcell : cell.word ≠ .empty := by rw [hw]; exact hne
      refine ⟨(mem_words_put hi hne hstop hcell).mpr (Or.inl ?_), hcell⟩
      rw [hw, if_pos (beq_self_eq_true word), UInt32.ofNat_add] at hcount
      have hcount' : cell.count = UInt32.ofNat (words.count word) + 1 := hcount
      rw [← hcount', ← hw]
    · rw [if_neg (by simpa using Ne.symm hw), Nat.add_zero] at hcount
      obtain ⟨hmem, hcell⟩ := hold.mpr ⟨hin.resolve_right hw, hcount⟩
      exact ⟨(mem_words_put hi hne hstop hcell).mpr (Or.inr ⟨hw, hmem⟩), hcell⟩

theorem addWord_counts {t : Hashtable} (hi : t.Inv) {words : List Word} (hc : Counts t words)
    {word : Word} (hne : word ≠ .empty) {index : UInt32}
    (hstop : StopsAt t.size.toNat (home t.size.toNat) t.keys word index.toNat) :
    ∃ u, addWord t word index = some u ∧ u.Inv ∧ Counts u (words ++ [word]) ∧ u.size = t.size ∧
      u.occupied = t.occupied := by
  obtain ⟨n, hadd, hn⟩ := addWord_spec hi hne hstop rfl
  have hcount : n = UInt32.ofNat (words.count word) := by
    rcases hn with hmem | ⟨rfl, hnot⟩
    · exact ((hc ⟨word, n⟩).mp (mem_stored.mpr ⟨hmem, hne⟩)).2
    · have hnew : word ∉ words := by
        intro hin
        have hmem := (hc ⟨word, UInt32.ofNat (words.count word)⟩).mpr ⟨hin, rfl⟩
        exact hnot _ (mem_stored.mp hmem).1
      rw [List.count_eq_zero_of_not_mem hnew]
      rfl
  refine ⟨_, hadd, inv_put hi hne hstop, ?_, rfl, rfl⟩
  rw [hcount]
  exact counts_put hi hc hne hstop

theorem inv_occupied {t : Hashtable} (hi : t.Inv) (occupied : UInt32) :
    ({ t with occupied := occupied } : Hashtable).Inv :=
  ⟨hi.four_le_size, hi.size_le, hi.maxOccupied_eq, hi.wellProbed, hi.count_free⟩

/-! ## One call of `hashtable_add` -/

/-- The table `t'` after a call with `word` on the table `t` that counts `words`. -/
structure Added (t : Hashtable) (words : List Word) (word : Word) (t' : Hashtable) : Prop where
  inv : t'.Inv
  counts : Counts t' (words ++ [word])
  size_le : t'.size.toNat ≤ 2 * t.size.toNat
  /-- As long as there is a free cell, the call counts itself, until the load factor is reached. -/
  occupied_eq : t.stored.length < t.size.toNat →
    if t.occupied + 1 = t.maxOccupied then t'.occupied = 0
    else t'.occupied = t.occupied + 1 ∧ t'.size = t.size

/-- A call on a table in which the search stops at a cell: the cell is filled, and the table `v` is
extended if it has reached its load factor. -/
theorem hashtableAdd_call {t : Hashtable} (hi : t.Inv) {words : List Word} (hc : Counts t words)
    {word : Word} (hne : word ≠ .empty) {index : UInt32}
    (hsearch : searchWord t word = some index.toInt32)
    (hstop : StopsAt t.size.toNat (home t.size.toNat) t.keys word index.toNat) :
    ∃ v : Hashtable, v.Inv ∧ Counts v (words ++ [word]) ∧ v.size = t.size ∧
      v.occupied = t.occupied + 1 ∧ (v.occupied = v.maxOccupied → Extends word t v) ∧
      ∀ fuel, hashtableAdd (fuel + 1) t word =
        if v.occupied = v.maxOccupied then hashtableExtend v else some v := by
  have hlt := hstop.lt
  have hle := hi.size_le
  have hnonneg : ¬ index.toInt32 < 0 := toInt32_nonneg (by omega)
  obtain ⟨u, hadd, hiu, hcu, hsu, hou⟩ := addWord_counts hi hc hne hstop
  refine ⟨{ u with occupied := u.occupied + 1 }, inv_occupied hiu _, hcu, hsu, ?_, ?_, ?_⟩
  · rw [← hou]
  · intro hfull
    refine Extends.load hsearch hnonneg ?_ hfull
    rw [UInt32.toUInt32_toInt32]
    exact hadd
  · intro fuel
    have hfound : searchOrExtend word (fuel + 1) t = some (t, index) := by
      simp [searchOrExtend, hsearch, hnonneg]
    unfold hashtableAdd
    rw [hfound]
    simp only [Option.bind_eq_bind, Option.bind_some, hadd]
    rfl

theorem hashtableAdd_of_stops {t : Hashtable} (hi : t.Inv) {words : List Word} (hc : Counts t words)
    {word : Word} (hne : word ≠ .empty) {index : UInt32}
    (hsearch : searchWord t word = some index.toInt32)
    (hstop : StopsAt t.size.toNat (home t.size.toNat) t.keys word index.toNat)
    (hsize : ∀ u, Extends word t u → 2 * u.size.toNat ≤ 2 ^ 31) :
    ∃ t', (∀ fuel ≥ 1, hashtableAdd fuel t word = some t') ∧ Added t words word t' := by
  obtain ⟨v, hiv, hcv, hsv, hov, hload, hcall⟩ := hashtableAdd_call hi hc hne hsearch hstop
  have hmax : v.maxOccupied = t.maxOccupied := by rw [hiv.maxOccupied_eq, hi.maxOccupied_eq, hsv]
  have hcall' : ∀ fuel ≥ 1, hashtableAdd fuel t word =
      if v.occupied = v.maxOccupied then hashtableExtend v else some v := by
    intro fuel hfuel
    obtain ⟨fuel, rfl⟩ : ∃ k, fuel = k + 1 := ⟨fuel - 1, by omega⟩
    exact hcall fuel
  by_cases hfull : v.occupied = v.maxOccupied
  · have h31 := hsize v (hload hfull)
    obtain ⟨t', hextend, hcopied⟩ := hashtableExtend_spec hiv (by omega)
    refine ⟨t', fun fuel hfuel => by rw [hcall' fuel hfuel, if_pos hfull, hextend], hcopied.inv,
      counts_copied hcv hcopied, ?_, fun _ => ?_⟩
    · exact Nat.le_of_eq (by rw [hcopied.size_eq, hsv])
    · rw [if_pos (by rw [← hov, ← hmax]; exact hfull)]
      exact hcopied.occupied_eq
  · refine ⟨v, fun fuel hfuel => by rw [hcall' fuel hfuel, if_neg hfull], hiv, hcv, ?_,
      fun _ => ?_⟩
    · rw [hsv]
      omega
    · rw [if_neg (by rw [← hov, ← hmax]; exact hfull)]
      exact ⟨hov, hsv⟩

/-- A call on a table in which the search fails goes on with the extended table. -/
theorem hashtableAdd_again {t : Hashtable} {word : Word} (hsearch : searchWord t word = some (-1))
    (fuel : ℕ) :
    hashtableAdd (fuel + 1) t word =
      (hashtableExtend t).bind fun t' => hashtableAdd fuel t' word := by
  have hneg : (-1 : Int32) < 0 := by decide
  unfold hashtableAdd
  have hagain : searchOrExtend word (fuel + 1) t =
      (hashtableExtend t).bind fun t' => searchOrExtend word fuel t' := by
    simp [searchOrExtend, hsearch, hneg]
  rw [hagain]
  cases hashtableExtend t with
  | none => rfl
  | some t' => rfl

/-- Storing a word in a table that has just been extended does not extend it again. -/
theorem not_extends_copied {t t' u : Hashtable} (hi : t.Inv) (h : Copied t t.words t') {word : Word}
    (hne : word ≠ .empty) : ¬ Extends word t' u := by
  obtain ⟨i, hfound, hstop⟩ := searchWord_of_room h.inv (copied_room hi h) hne
  have hlt := hstop.lt
  have hle := h.inv.size_le
  have hnonneg : ¬ i.toInt32 < 0 := toInt32_nonneg (by omega)
  have hindex : ∀ index, searchWord t' word = some index → index = i.toInt32 := by
    intro index hsearch
    rw [hfound] at hsearch
    exact (Option.some.inj hsearch).symm
  intro hext
  cases hext with
  | search hsearch hneg => exact hnonneg (hindex _ hsearch ▸ hneg)
  | again hsearch hneg => exact hnonneg (hindex _ hsearch ▸ hneg)
  | load hsearch _ hadd hmax =>
    rw [hindex _ hsearch, UInt32.toUInt32_toInt32] at hadd
    obtain ⟨n, hadd', -⟩ := addWord_spec h.inv hne hstop rfl
    obtain rfl := Option.some.inj (hadd.symm.trans hadd')
    exact copied_load hi h hmax

/-- A call of `hashtable_add` ends after at most two searches and counts its word. -/
theorem hashtableAdd_spec {t : Hashtable} (hi : t.Inv) {words : List Word} (hc : Counts t words)
    {word : Word} (hne : word ≠ .empty)
    (hsize : ∀ u, Extends word t u → 2 * u.size.toNat ≤ 2 ^ 31) :
    ∃ t', (∀ fuel ≥ 2, hashtableAdd fuel t word = some t') ∧ Added t words word t' := by
  have h4 := hi.four_le_size
  rcases searchWord_spec t hne (by omega) with ⟨index, hsearch, hstop⟩ | ⟨hsearch, hfails⟩
  · obtain ⟨t', hcall, hadded⟩ := hashtableAdd_of_stops hi hc hne hsearch hstop hsize
    exact ⟨t', fun fuel hfuel => hcall fuel (by omega), hadded⟩
  · -- every cell is occupied by another word
    have hneg : (-1 : Int32) < 0 := by decide
    have h31 := hsize t (Extends.search hsearch hneg)
    obtain ⟨t₁, hextend, hcopied⟩ := hashtableExtend_spec hi (by omega)
    have hi₁ := hcopied.inv
    have hroom := copied_room hi hcopied
    have hnone : ∀ u, ¬ Extends word t₁ u := fun u => not_extends_copied hi hcopied hne
    obtain ⟨index, hsearch₁, hstop⟩ := searchWord_of_room hi₁ hroom hne
    obtain ⟨t', hcall, hadded⟩ := hashtableAdd_of_stops hi₁ (counts_copied hc hcopied) hne hsearch₁
      hstop (fun u hu => absurd hu (hnone u))
    refine ⟨t', fun fuel hfuel => ?_, hadded.inv, hadded.counts, ?_, ?_⟩
    · obtain ⟨fuel, rfl⟩ : ∃ k, fuel = k + 1 := ⟨fuel - 1, by omega⟩
      rw [hashtableAdd_again hsearch, hextend]
      exact hcall fuel (by omega)
    · have hocc := hadded.occupied_eq hroom
      rw [if_neg (copied_load hi hcopied)] at hocc
      exact Nat.le_of_eq (by rw [hocc.2, hcopied.size_eq])
    · intro hlt
      exact absurd hfails (not_fails_of_stored_lt hlt)

/-- The tables that a call extends have the invariant, and the size that the table had before. -/
theorem extends_inv {t u : Hashtable} (hi : t.Inv) {word : Word} (hne : word ≠ .empty)
    (hsize : Extends word t t → 2 * t.size.toNat ≤ 2 ^ 31) (h : Extends word t u) :
    u.Inv ∧ u.size = t.size := by
  cases h with
  | search => exact ⟨hi, rfl⟩
  | again hsearch hneg hextend hu =>
    have h31 := hsize (Extends.search hsearch hneg)
    obtain ⟨t₁, hextend₁, hcopied⟩ := hashtableExtend_spec hi (by omega)
    obtain rfl := Option.some.inj (hextend.symm.trans hextend₁)
    exact absurd hu (not_extends_copied hi hcopied hne)
  | load hsearch hnonneg hadd hmax =>
    have h4 := hi.four_le_size
    rcases searchWord_spec t hne (by omega) with ⟨i, hsearch', hstop⟩ | ⟨hsearch', -⟩
    · obtain rfl := Option.some.inj (hsearch.symm.trans hsearch')
      rw [UInt32.toUInt32_toInt32] at hadd
      obtain ⟨n, hadd', -⟩ := addWord_spec hi hne hstop rfl
      obtain rfl := Option.some.inj (hadd.symm.trans hadd')
      exact ⟨inv_occupied (inv_put hi hne hstop) _, rfl⟩
    · obtain rfl := Option.some.inj (hsearch.symm.trans hsearch')
      exact absurd (by decide) hnonneg

/-! ## Sequences of calls -/

theorem SizeBounded.mono {words words' : List Word} (h : SizeBounded words')
    (hpre : words <+: words') : SizeBounded words :=
  fun done word t u hdone => h done word t u (hdone.trans hpre)

/-- Every sequence of calls ends, keeps the invariant, counts its words, and doubles the table at
most once for each call. -/
theorem addAll_spec {words : List Word} (hne : ∀ word ∈ words, word ≠ .empty)
    (hsize : SizeBounded words) :
    ∃ t, (∀ fuel ≥ 2, addAll fuel (hashtableNew hashtableSize) words = some t) ∧ t.Inv ∧
      Counts t words ∧ t.size.toNat ≤ 4 * 2 ^ words.length := by
  induction words using List.reverseRecOn with
  | nil =>
    have h4 : hashtableSize.toNat = 4 := rfl
    exact ⟨_, fun fuel _ => rfl, inv_hashtableNew (by omega) (by omega), counts_hashtableNew _,
      by rw [List.length_nil]; exact Nat.le_refl _⟩
  | append_singleton words word ih =>
    obtain ⟨t, hrun, hi, hc, hle⟩ := ih (fun w hw => hne w (List.mem_append_left _ hw))
      (hsize.mono (List.prefix_append _ _))
    have hword : word ≠ .empty := hne word (by simp)
    have hbound : ∀ u, Extends word t u → 2 * u.size.toNat ≤ 2 ^ 31 :=
      fun u hu => hsize words word t u (List.prefix_refl _) ⟨2, hrun 2 (Nat.le_refl _)⟩ hu
    obtain ⟨t', hcall, hadded⟩ := hashtableAdd_spec hi hc hword hbound
    refine ⟨t', fun fuel hfuel => ?_, hadded.inv, hadded.counts, ?_⟩
    · rw [addAll_append_singleton, hrun fuel hfuel]
      exact hcall fuel hfuel
    · have hdouble := hadded.size_le
      rw [List.length_append, List.length_singleton, Nat.pow_succ]
      omega

/-- A sequence of at most 29 words does not bring the table beyond its bound. -/
theorem sizeBounded_of_length {words : List Word} (hne : ∀ word ∈ words, word ≠ .empty)
    (hlen : words.length ≤ 29) : SizeBounded words := by
  induction words using List.reverseRecOn with
  | nil =>
    intro done word t u hpre
    have hnil := List.prefix_nil.mp hpre
    simp at hnil
  | append_singleton words last ih =>
    rw [List.length_append, List.length_singleton] at hlen
    have hne' : ∀ word ∈ words, word ≠ .empty := fun w hw => hne w (List.mem_append_left _ hw)
    have hbounded : SizeBounded words := ih hne' (by omega)
    intro done word t u hpre hafter hext
    rcases List.prefix_concat_iff.mp hpre with heq | hpre'
    · obtain ⟨rfl, hlast⟩ := List.append_inj' heq rfl
      obtain ⟨t', hrun, hi, -, hle⟩ := addAll_spec hne' hbounded
      obtain rfl := hafter.eq (hrun 2 (Nat.le_refl _))
      have hpow : 2 ^ done.length ≤ 2 ^ 28 := Nat.pow_le_pow_right (by omega) (by omega)
      have hword : word ≠ .empty := hne word (by rw [← heq]; simp)
      obtain ⟨-, hsame⟩ := extends_inv hi hword (fun _ => by omega) hext
      rw [hsame]
      omega
    · exact hbounded done word t u hpre' hafter hext

/-- After any sequence of calls with words that are not empty, every word of the sequence is in
exactly one cell, with the number of its occurrences as the count, and no other word is stored. Each
call ends after at most two searches, and every extension on the way keeps the entries as they are.
-/
theorem word_counts_exact {words : List Word} (hne : ∀ word ∈ words, word ≠ .empty)
    (hsize : SizeBounded words) :
    ∃ t, (∀ fuel ≥ 2, addAll fuel (hashtableNew hashtableSize) words = some t) ∧
      (∀ word ∈ words, ∃ (i : ℕ) (cell : Wcnt), t.words[i]? = some cell ∧ cell.word = word ∧
        cell.count.toNat = words.count word % 2 ^ 32 ∧
        ∀ (j : ℕ) (cell' : Wcnt), t.words[j]? = some cell' → cell'.word = word → j = i) ∧
      (∀ cell ∈ t.words, cell.word ≠ .empty → cell.word ∈ words) ∧
      ∀ done word s u, done ++ [word] <+: words → After done s → Extends word s u →
        ∃ u', hashtableExtend u = some u' ∧ u'.stored.Perm u.stored := by
  obtain ⟨t, hrun, hi, hc, -⟩ := addAll_spec hne hsize
  refine ⟨t, hrun, fun word hword => ?_, fun cell hmem hcell => ?_, ?_⟩
  · have hstored := (hc ⟨word, UInt32.ofNat (words.count word)⟩).mpr ⟨hword, rfl⟩
    obtain ⟨hmem, hw⟩ := mem_stored.mp hstored
    obtain ⟨i, hget⟩ := List.mem_iff_getElem?.mp hmem
    refine ⟨i, _, hget, rfl, UInt32.toNat_ofNat', fun j cell' hget' hw' => ?_⟩
    exact (hi.unique hget hget' hw hw'.symm).symm
  · exact ((hc cell).mp (mem_stored.mpr ⟨hmem, hcell⟩)).1
  · intro done word s u hpre hafter hext
    have hdone : done <+: words := (List.prefix_append _ _).trans hpre
    obtain ⟨s', hrun', hi', -, -⟩ :=
      addAll_spec (fun w hw => hne w (hdone.subset hw)) (hsize.mono hdone)
    obtain rfl := hafter.eq (hrun' 2 (Nat.le_refl _))
    have hword : word ≠ .empty := hne word (hpre.subset (by simp))
    have h31 := hsize done word s u hpre hafter hext
    obtain ⟨hiu, -⟩ := extends_inv hi' hword (fun h => hsize done word s s hpre hafter h) hext
    obtain ⟨u', hextend, hcopied⟩ := hashtableExtend_spec hiu (by omega)
    exact ⟨u', hextend, hcopied.stored_perm⟩

/-- The words "a" and "b", for examples. -/
def wordA : Word := ⟨[97], by simp, by simp [maxWordLength]⟩

@[inherit_doc wordA] def wordB : Word := ⟨[98], by simp, by simp [maxWordLength]⟩

/-- In the sequence b, a, b the word b is counted twice. -/
theorem word_counts_exact_twice : ∃ t, After [wordB, wordA, wordB] t ∧
    ∃ (i : ℕ) (cell : Wcnt), t.words[i]? = some cell ∧ cell.word = wordB ∧
      cell.count.toNat = 2 := by
  have hne : ∀ word ∈ [wordB, wordA, wordB], word ≠ .empty := by simp [wordA, wordB, Word.empty]
  obtain ⟨t, hrun, hcount, -⟩ := word_counts_exact hne (sizeBounded_of_length hne (by simp))
  obtain ⟨i, cell, hget, hw, htoNat, -⟩ := hcount wordB (by simp)
  exact ⟨t, ⟨2, hrun 2 (Nat.le_refl _)⟩, i, cell, hget, hw, htoNat⟩

end CDevHws.Hw06
