import CDevHws.Hw06.Wc
import CDevHws.Hw06.Proofs.GrowthProofs
import Mathlib.Data.List.Count

/-!
# Proofs: the lines that `wc` prints

The words of a file are its maximal runs of bytes that are no white space. As long as they are short
enough for the array, `main` hands them to the hash table one by one, each as the C string that it
begins with. So the lines are right if and only if no run has a NUL in it, and the numbers of calls
and of cells stay within the machine's integers.
-/

namespace CDevHws.Hw06

open CString (isspace)

/-- The maximal runs of bytes that are no white space. -/
def runs (input : List UInt8) : List (List UInt8) := (input.splitOnP isspace).filter (· ≠ [])

/-! ## Cutting the file -/

theorem isspace_nil : ∀ c ∈ ([] : List UInt8), isspace c = false :=
  fun _ hmem => absurd hmem List.not_mem_nil

theorem runs_of_word {word : List UInt8} (hword : ∀ c ∈ word, isspace c = false) :
    runs word = if word.length > 0 then [word] else [] := by
  unfold runs
  rw [List.splitOnP_eq_singleton hword]
  cases word with
  | nil => rfl
  | cons c word => rfl

theorem runs_space {c : UInt8} (hc : isspace c = true) (word rest : List UInt8) :
    runs (word ++ c :: rest) = runs word ++ runs rest := by
  unfold runs
  rw [List.splitOnP_append_cons word rest hc, List.filter_append]

theorem isspace_append {word : List UInt8} (hword : ∀ c ∈ word, isspace c = false) {c : UInt8}
    (hc : isspace c = false) : ∀ c' ∈ word ++ [c], isspace c' = false := by
  intro c' hmem
  rcases List.mem_append.mp hmem with hold | hnew
  · exact hword c' hold
  · rw [List.mem_singleton.mp hnew]
    exact hc

/-- The run that begins with `word` is not shorter. -/
theorem exists_run_of_word {word : List UInt8} (hne : word ≠ [])
    (hword : ∀ c ∈ word, isspace c = false) (rest : List UInt8) :
    ∃ run ∈ runs (word ++ rest), word <+: run := by
  induction rest generalizing word with
  | nil =>
    refine ⟨word, ?_, List.prefix_refl word⟩
    rw [List.append_nil, runs_of_word hword, if_pos (List.length_pos_of_ne_nil hne)]
    exact List.mem_singleton.mpr rfl
  | cons c rest ih =>
    by_cases hc : isspace c = true
    · refine ⟨word, ?_, List.prefix_refl word⟩
      rw [runs_space hc, runs_of_word hword, if_pos (List.length_pos_of_ne_nil hne)]
      exact List.mem_append_left _ (List.mem_singleton.mpr rfl)
    · rw [Bool.not_eq_true] at hc
      obtain ⟨run, hrun, hpre⟩ := ih (by simp) (isspace_append hword hc)
      rw [List.append_assoc] at hrun
      exact ⟨run, hrun, (List.prefix_append word [c]).trans hpre⟩

theorem flatten_runs_of_word {word : List UInt8} (hword : ∀ c ∈ word, isspace c = false) :
    (runs word).flatten = word := by
  rw [runs_of_word hword]
  cases word with
  | nil => rfl
  | cons c word => simp

/-- The runs hold the bytes of the input that are no white space, in their order. -/
theorem flatten_runs {word : List UInt8} (hword : ∀ c ∈ word, isspace c = false)
    (input : List UInt8) :
    (runs (word ++ input)).flatten = word ++ input.filter fun c => !isspace c := by
  induction input generalizing word with
  | nil =>
    rw [List.append_nil, flatten_runs_of_word hword, List.filter_nil, List.append_nil]
  | cons c rest ih =>
    by_cases hc : isspace c = true
    · have hrest := ih isspace_nil
      rw [List.nil_append, List.nil_append] at hrest
      rw [runs_space hc, List.flatten_append, flatten_runs_of_word hword, hrest,
        List.filter_cons_of_neg (by simp [hc])]
    · rw [Bool.not_eq_true] at hc
      have hrest := ih (isspace_append hword hc)
      rw [List.append_assoc, List.append_assoc] at hrest
      rw [List.filter_cons_of_pos (by simp [hc])]
      exact hrest

theorem mem_runs_iff {input : List UInt8} {c : UInt8} :
    (∃ run ∈ runs input, c ∈ run) ↔ c ∈ input ∧ isspace c = false := by
  have hflat := flatten_runs isspace_nil input
  rw [List.nil_append, List.nil_append] at hflat
  rw [← List.mem_flatten, hflat, List.mem_filter, Bool.not_eq_true']

section read

variable {S : Type} (add : S → Word → Option S)

theorem endWord_eq {word : List UInt8} (hword : ∀ c ∈ word, isspace c = false) (s : S) :
    endWord add word s = ((runs word).map cString).foldlM add s := by
  rw [runs_of_word hword]
  unfold endWord
  by_cases hlen : word.length > 0
  · rw [if_pos hlen, if_pos hlen, List.map_singleton, List.foldlM_cons]
    simp
  · rw [if_neg hlen, if_neg hlen]
    rfl

/-- From `word` on, which is in the array, the loop adds the runs of what is left. -/
theorem readLoop_eq {input word : List UInt8} (hword : ∀ c ∈ word, isspace c = false)
    (hshort : ∀ run ∈ runs (word ++ input), run.length ≤ 63) (s : S) :
    readLoop add word input s = ((runs (word ++ input)).map cString).foldlM add s := by
  induction input generalizing word s with
  | nil =>
    rw [List.append_nil]
    exact endWord_eq add hword s
  | cons c rest ih =>
    unfold readLoop
    by_cases hc : isspace c = true
    · have hguard : (!isspace c && decide (word.length < maxWordLength - 1)) = false := by simp [hc]
      have hruns := runs_space hc word rest
      rw [hguard, hruns, List.map_append, List.foldlM_append, ← endWord_eq add hword s]
      rw [hruns] at hshort
      have hrest : readLoop add [] rest = fun s' => ((runs rest).map cString).foldlM add s' := by
        funext s'
        exact ih isspace_nil (fun run hrun => hshort run (List.mem_append_right _ hrun)) s'
      show (endWord add word s).bind (readLoop add [] rest) = _
      rw [hrest]
      rfl
    · rw [Bool.not_eq_true] at hc
      have hnext := isspace_append hword hc
      obtain ⟨run, hrun, hpre⟩ := exists_run_of_word (by simp) hnext rest
      have hassoc : word ++ [c] ++ rest = word ++ c :: rest := by rw [List.append_assoc]; rfl
      rw [hassoc] at hrun
      have hlen := hpre.length_le
      rw [List.length_append, List.length_singleton] at hlen
      have hrunlen := hshort run hrun
      have hguard : (!isspace c && decide (word.length < maxWordLength - 1)) = true := by
        rw [hc]
        exact decide_eq_true (by show word.length < 63; omega)
      rw [hguard, if_pos rfl, ← hassoc]
      exact ih hnext (by rw [hassoc]; exact hshort) s

end read

/-! ## Strings without a NUL -/

theorem cString_bytes {run : List UInt8} (hnul : 0 ∉ run) (hshort : run.length ≤ 63) :
    (cString run).bytes = run := by
  show CString.ofBytes (run.take 63) = run
  rw [List.take_of_length_le hshort, CString.ofBytes_eq_self hnul]

/-- The words of the file as its runs. -/
theorem map_bytes_eq {input : List UInt8} (hnul : 0 ∉ input)
    (hshort : ∀ run ∈ runs input, run.length ≤ 63) :
    ((runs input).map cString).map Word.bytes = runs input := by
  rw [List.map_map]
  conv_rhs => rw [← List.map_id (runs input)]
  refine List.map_congr_left fun run hrun => cString_bytes (fun hzero => hnul ?_) (hshort run hrun)
  exact (mem_runs_iff.mp ⟨run, hrun, hzero⟩).1

theorem bytes_injective : Function.Injective Word.bytes := fun _ _ h => Word.ext h

/-! ## The lines -/

/-- The lines tell each run of the input with the number of its occurrences. -/
def LinesExact (input : List UInt8) (lines : List Line) : Prop :=
  lines.Perm ((runs input).dedup.map fun run => ⟨run, (runs input).count run⟩)

theorem toInt32_ofNat {n : ℕ} (hn : n < 2 ^ 31) : (UInt32.ofNat n).toInt32.toInt = n := by
  have htoNat : (UInt32.ofNat n).toNat = n := UInt32.toNat_ofNat_of_lt' (by show n < 2 ^ 32; omega)
  have hbv : (UInt32.ofNat n).toInt32.toInt = (UInt32.ofNat n).toBitVec.toInt := rfl
  rw [hbv, BitVec.toInt_eq_toNat_cond]
  show (if 2 * (UInt32.ofNat n).toNat < 2 ^ 32 then _ else _) = _
  rw [htoNat, if_pos (by omega)]
  show ((UInt32.ofNat n).toNat : Int) = n
  rw [htoNat]

/-- `hashtable_print` tells the counts, if they fit into an `int`. -/
theorem hashtablePrint_perm {t : Hashtable} (hi : t.Inv) {words : List Word} (hc : Counts t words)
    (hfit : ∀ w ∈ words, words.count w < 2 ^ 31) :
    (hashtablePrint t).Perm (words.dedup.map fun w => ⟨w.bytes, words.count w⟩) := by
  have hstored : t.words.filter (·.count > 0) = t.stored := by
    unfold Hashtable.stored
    refine List.filter_congr fun cell hmem => decide_eq_decide.mpr ?_
    constructor
    · intro hpos he
      rw [hi.count_free cell hmem he] at hpos
      exact absurd hpos (by decide)
    · intro hne
      obtain ⟨hin, hcount⟩ := (hc cell).mp (mem_stored.mpr ⟨hmem, hne⟩)
      have hpos : 0 < words.count cell.word := List.count_pos_iff.mpr hin
      have hlt := hfit cell.word hin
      show 0 < cell.count
      rw [hcount, UInt32.lt_iff_toNat_lt,
        UInt32.toNat_ofNat_of_lt' (by show _ < 2 ^ 32; omega)]
      exact hpos
  unfold hashtablePrint
  rw [hstored]
  refine ((stored_perm hi hc).map _).trans (List.Perm.of_eq ?_)
  rw [List.map_map]
  refine List.map_congr_left fun w hw => ?_
  show (⟨w.bytes, (UInt32.ofNat (words.count w)).toInt32.toInt⟩ : Line) = _
  rw [toInt32_ofNat (hfit w (List.mem_dedup.mp hw))]

theorem wc_eq {input : List UInt8} (hshort : ∀ run ∈ runs input, run.length ≤ 63) (fuel : ℕ) :
    wc fuel input = (addAll fuel (hashtableNew hashtableSize) ((runs input).map cString)).map
      hashtablePrint := by
  have hread := readLoop_eq (hashtableAdd fuel) isspace_nil hshort
    (hashtableNew hashtableSize)
  rw [List.nil_append] at hread
  unfold wc
  rw [hread, Option.map_eq_bind]
  rfl

/-- The calls of `hashtable_add`. -/
theorem follows_runs {input : List UInt8} (hshort : ∀ run ∈ runs input, run.length ≤ 63)
    (hnul : 0 ∉ input) :
    Follows (fun fuel => addAll fuel (hashtableNew hashtableSize) ((runs input).map cString))
      ((runs input).map cString) (growth (runs input)) := by
  have hbytes := map_bytes_eq hnul hshort
  have hgrowth : growth (runs input) = growth ((runs input).map cString) := by
    conv_lhs => rw [← hbytes]
    exact growth_map bytes_injective _
  rw [hgrowth]
  refine follows_addAll fun word hmem he => ?_
  have hrun : word.bytes ∈ runs input := by
    rw [← hbytes]
    exact List.mem_map_of_mem hmem
  rw [he] at hrun
  exact absurd (List.mem_filter.mp hrun).2 (by decide)

theorem lines_exact_of {input : List UInt8} (hshort : ∀ run ∈ runs input, run.length ≤ 63)
    (hnul : 0 ∉ input) (hfit : ∀ run ∈ runs input, (runs input).count run < 2 ^ 31)
    (hsize : (growth (runs input)).size ≤ 2 ^ 31) :
    ∃ lines, (∀ fuel ≥ 2, wc fuel input = some lines) ∧ LinesExact input lines := by
  have hbytes := map_bytes_eq hnul hshort
  obtain ⟨t, hrun, hgrown⟩ := (follows_runs hshort hnul).1 hsize
  set words := (runs input).map cString with hwords
  have hcount : ∀ w : Word, (runs input).count w.bytes = words.count w := by
    intro w
    rw [← hbytes]
    exact List.count_map_of_injective words Word.bytes bytes_injective w
  refine ⟨hashtablePrint t, fun fuel hfuel => ?_, ?_⟩
  · have hadd : addAll fuel (hashtableNew hashtableSize) words = some t := hrun fuel hfuel
    rw [wc_eq hshort, hadd]
    rfl
  · have hprint := hashtablePrint_perm hgrown.inv hgrown.counts fun w hmem => by
      rw [← hcount]
      refine hfit _ ?_
      rw [← hbytes]
      exact List.mem_map_of_mem hmem
    refine hprint.trans (List.Perm.of_eq ?_)
    conv_rhs => rw [← hbytes, List.dedup_map_of_injective bytes_injective, List.map_map, hbytes]
    refine List.map_congr_left fun w _ => ?_
    show _ = (⟨w.bytes, (runs input).count w.bytes⟩ : Line)
    rw [hcount]

/-- A run that is told is the word of a cell. -/
theorem LinesExact.exists_cell {input : List UInt8} {t : Hashtable}
    (h : LinesExact input (hashtablePrint t)) {run : List UInt8} (hrun : run ∈ runs input) :
    ∃ cell : Wcnt, cell.word.bytes = run ∧
      cell.count.toInt32.toInt = (runs input).count run := by
  have hline := h.mem_iff.mpr (List.mem_map.mpr ⟨run, List.mem_dedup.mpr hrun, rfl⟩)
  obtain ⟨cell, -, hcell⟩ := List.mem_map.mp hline
  exact ⟨cell, congrArg Line.word hcell, congrArg Line.count hcell⟩

/-- A NUL is no white space, and no word has it. -/
theorem LinesExact.no_nul {input : List UInt8} {t : Hashtable}
    (h : LinesExact input (hashtablePrint t)) : 0 ∉ input := by
  intro hzero
  obtain ⟨run, hrun, hin⟩ := mem_runs_iff.mpr ⟨hzero, rfl⟩
  obtain ⟨cell, hbytes, -⟩ := h.exists_cell hrun
  exact cell.word.noNul (by rw [hbytes]; exact hin)

theorem wc_prints {fuel : ℕ} {input : List UInt8} {lines : List Line}
    (h : wc fuel input = some lines) : ∃ t, lines = hashtablePrint t := by
  unfold wc at h
  rw [Option.bind_eq_bind, Option.bind_eq_some_iff] at h
  obtain ⟨t, -, ht⟩ := h
  exact ⟨t, (Option.some.inj ht).symm⟩

/-- For every input whose runs fit into the array, `wc` prints exactly one line for each run, with
the number of its occurrences, if and only if no byte is a NUL, each run occurs less than `2 ^ 31`
times and the table does not outgrow `2 ^ 31` cells. -/
theorem wc_lines_exact_iff {input : List UInt8} (hshort : ∀ run ∈ runs input, run.length ≤ 63) :
    (∃ fuel lines, wc fuel input = some lines ∧ LinesExact input lines) ↔
      0 ∉ input ∧ (∀ run ∈ runs input, (runs input).count run < 2 ^ 31) ∧
        (growth (runs input)).size ≤ 2 ^ 31 := by
  constructor
  · rintro ⟨fuel, lines, hwc, hexact⟩
    obtain ⟨t, rfl⟩ := wc_prints hwc
    have hnul := hexact.no_nul
    refine ⟨hnul, fun run hrun => ?_, ?_⟩
    · obtain ⟨cell, -, hcount⟩ := hexact.exists_cell hrun
      have hlt := cell.count.toInt32.toInt_lt
      omega
    · by_contra hbig
      have hnone : addAll fuel (hashtableNew hashtableSize) ((runs input).map cString) = none :=
        (follows_runs hshort hnul).2 (by omega) fuel
      rw [wc_eq hshort, hnone] at hwc
      cases hwc
  · rintro ⟨hnul, hfit, hsize⟩
    obtain ⟨lines, hwc, hexact⟩ := lines_exact_of hshort hnul hfit hsize
    exact ⟨2, lines, hwc 2 (Nat.le_refl _), hexact⟩

/-- The text "a b a". -/
theorem wc_lines_exact_aba : ∃ fuel lines, wc fuel [97, 32, 98, 32, 97] = some lines ∧
    LinesExact [97, 32, 98, 32, 97] lines := by
  exact (wc_lines_exact_iff (by decide)).mpr ⟨by decide, by decide, by decide⟩

/-- A NUL, a space and the letter d: the NUL is the empty word, which leaves its cell free with the
count 1, and the letter gets this cell. It is told to appear twice. -/
theorem wc_lines_of_nul : (∀ run ∈ runs [0, 32, 100], run.length ≤ 63) ∧
    wc 2 [0, 32, 100] = some [⟨[100], 2⟩] ∧ runs [0, 32, 100] = [[0], [100]] ∧
    ¬ ∃ fuel lines, wc fuel [0, 32, 100] = some lines ∧ LinesExact [0, 32, 100] lines := by
  refine ⟨by decide, rfl, rfl, ?_⟩
  rintro ⟨fuel, lines, hwc, hexact⟩
  obtain ⟨t, rfl⟩ := wc_prints hwc
  exact hexact.no_nul (by decide)

end CDevHws.Hw06
