import CDevHws.Hw22.Proofs.WorkerProofs

/-!
# Proofs: the records of a file and its lines

`fgets` gives a line in pieces if it does not fit into the buffer. `parse_file` does not look for
the end of the line, so each piece gives a record of its own.
-/

namespace CDevHws.Hw22

open Tally (total)

/-- Each line of the file gives one record, parsed from the first bytes of the line. -/
structure RecordPerLine (content : List UInt8) : Prop where
  count : (records (some content)).length = (Stdio.lines content).length
  starts : records (some content) = (Stdio.lines content).map fun line =>
    (parseString (CString.ofBytes (line.take (strlenmax - 1)))).2

theorem total_parseFile (stats : LogfileStats) (file : LogFile) :
    total (parseFile stats file).refererStats =
      total stats.refererStats + UInt64.ofNat (records file).length := by
  rw [parseFile_eq, foldl_addResult]
  show total (Tally.addList _ _) = _
  rw [Tally.total_addList, List.map_map]
  exact congrArg _ (sum_ones (records file))

theorem records_some (content : List UInt8) :
    records (some content) = ((Stdio.lines content).flatMap (Stdio.fgetsAll strlenmax [])).map
      fun logstring => (parseString (CString.ofBytes logstring)).2 := by
  rw [← Stdio.fgetsAll_lines]
  rfl

theorem length_records (content : List UInt8) :
    (records (some content)).length =
      ((Stdio.lines content).map fun line =>
        (Stdio.fgetsAll strlenmax [] line).length).sum := by
  rw [records_some, List.length_map, List.length_flatMap]

/-- If there is one piece too many for some line, there are too many in all. -/
theorem eq_one_of_sum_eq {α : Type} {f : α → ℕ} {l : List α} (hpos : ∀ a ∈ l, 1 ≤ f a)
    (hsum : (l.map f).sum = l.length) : ∀ a ∈ l, f a = 1 := by
  have hge : ∀ l : List α, (∀ a ∈ l, 1 ≤ f a) → l.length ≤ (l.map f).sum := by
    intro l hl
    rw [← List.length_map f]
    refine List.length_le_sum_of_one_le _ fun n hn => ?_
    obtain ⟨a, ha, rfl⟩ := List.mem_map.mp hn
    exact hl a ha
  induction l with
  | nil => exact fun a ha => absurd ha List.not_mem_nil
  | cons b l ih =>
    have hb := hpos b List.mem_cons_self
    have htail : ∀ a ∈ l, 1 ≤ f a := fun a ha => hpos a (List.mem_cons_of_mem b ha)
    have hle := hge l htail
    rw [List.map_cons, List.sum_cons, List.length_cons] at hsum
    intro a ha
    rcases List.mem_cons.mp ha with rfl | ha
    · omega
    · exact ih htail (by omega) a ha

theorem two_le_strlenmax : 2 ≤ strlenmax := by
  unfold strlenmax
  omega

theorem records_of_short {content : List UInt8}
    (hshort : ∀ line ∈ Stdio.lines content, line.length < strlenmax) :
    records (some content) = (Stdio.lines content).map fun line =>
      (parseString (CString.ofBytes (line.take (strlenmax - 1)))).2 := by
  have hpieces : (Stdio.lines content).flatMap (Stdio.fgetsAll strlenmax []) =
      (Stdio.lines content).flatMap fun line => [line] := by
    refine List.flatMap_congr fun line hline => ?_
    refine Stdio.fgetsAll_line (Stdio.isLine_of_mem_lines hline) ?_
    rw [List.length_nil, Nat.zero_add]
    exact hshort line hline
  rw [records_some, hpieces, List.flatMap_singleton']
  refine List.map_congr_left fun line hline => ?_
  rw [List.take_of_length_le (Nat.le_sub_one_of_lt (hshort line hline))]

theorem recordPerLine_iff_short (content : List UInt8) :
    RecordPerLine content ↔ ∀ line ∈ Stdio.lines content, line.length < strlenmax := by
  constructor
  · rintro ⟨hcount, -⟩ line hline
    have hpos : ∀ line ∈ Stdio.lines content,
        1 ≤ (Stdio.fgetsAll strlenmax [] line).length := by
      intro line hline
      exact (Stdio.length_fgetsAll_line two_le_strlenmax (Stdio.isLine_of_mem_lines hline)).1
    rw [length_records] at hcount
    have hone := eq_one_of_sum_eq hpos hcount line hline
    have hline := Stdio.isLine_of_mem_lines hline
    exact (Stdio.length_fgetsAll_line two_le_strlenmax hline).2.mp hone
  · intro hshort
    have hrecords := records_of_short hshort
    exact ⟨by rw [hrecords, List.length_map], hrecords⟩

/-- For every file: `parse_file` adds one record for each line, parsed from its beginning, if and
only if all lines fit into the buffer with their `'\n'`. -/
theorem parse_file_lines (stats : LogfileStats) (content : List UInt8) :
    total (parseFile stats (some content)).refererStats =
        total stats.refererStats + UInt64.ofNat (records (some content)).length ∧
      (RecordPerLine content ↔ ∀ line ∈ Stdio.lines content, line.length < strlenmax) :=
  ⟨total_parseFile stats (some content), recordPerLine_iff_short content⟩

/-- A line of 10240 bytes gives more than one record. -/
theorem long_line_more_records :
    ∃ content : List UInt8, content.length = 10240 ∧ 0 ∉ content ∧
      (Stdio.lines content).length = 1 ∧ (records (some content)).length ≠ 1 := by
  have hletter : ∀ c ∈ List.replicate 10240 (97 : UInt8), c = 97 :=
    fun c hc => List.eq_of_mem_replicate hc
  have hline : Stdio.IsLine (List.replicate 10240 97) := by
    refine ⟨List.cons_ne_nil 97 (List.replicate 10239 97), ?_⟩
    intro hmem
    cases hletter 10 (List.mem_of_mem_dropLast hmem)
  refine ⟨List.replicate 10240 97, List.length_replicate, ?_, ?_, ?_⟩
  · intro hmem
    cases hletter 0 hmem
  · rw [Stdio.lines_line hline]
    rfl
  · intro hone
    rw [length_records, Stdio.lines_line hline, List.map_singleton, List.sum_singleton,
      (Stdio.length_fgetsAll_line two_le_strlenmax hline).2, List.length_replicate] at hone
    unfold strlenmax at hone
    omega

end CDevHws.Hw22
