import CDevHws.Hw22.Proofs.MergeProofs

/-!
# Proofs: what a thread adds up

Each line of a file gives a record, whether `parse_string` succeeds or not, and each record is one
addition to the total and to the two tables. So the result is a sum over all records, in whatever
order the files come.
-/

namespace CDevHws.Hw22

open CString (strncpy)
open Tally (value total addList sumOf)

/-! ## The records of the files -/

/-- What `parse_string` leaves for the lines of a file. -/
def records : LogFile → List LogStringInfo
  | none => []
  | some content => (Stdio.fgetsAll strlenmax [] content).map fun logstring =>
      (parseString (CString.ofBytes logstring)).2

/-- The strings of a record fit into the buffers that they are copied to. -/
def Short (result : LogStringInfo) : Prop :=
  result.url.length ≤ strlenmax - 1 ∧ result.referer.length ≤ strlenmax - 1

theorem parseReferer_short {rest : List UInt8} {result : LogStringInfo} (h : Short result) :
    Short (parseReferer rest result).2 := by
  unfold parseReferer
  repeat' split
  · exact h
  · exact h
  · exact h
  · exact ⟨h.1, List.length_take_le _ _⟩

theorem parseSize_short {rest : List UInt8} {result : LogStringInfo} (h : Short result) :
    Short (parseSize rest result).2 := by
  unfold parseSize
  repeat' split
  · exact h
  · exact h
  · exact h
  · exact parseReferer_short h

theorem parseString_short (inputString : List UInt8) : Short (parseString inputString).2 := by
  have hempty : Short { bytes := 0, url := [], referer := [] } := ⟨Nat.zero_le _, Nat.zero_le _⟩
  unfold parseString
  simp only
  repeat' split
  · exact hempty
  · exact hempty
  · exact hempty
  · exact ⟨List.length_take_le _ _, Nat.zero_le _⟩
  · exact parseSize_short ⟨List.length_take_le _ _, Nat.zero_le _⟩

theorem short_of_mem_records {file : LogFile} {result : LogStringInfo}
    (h : result ∈ records file) : Short result := by
  cases file with
  | none => exact absurd h List.not_mem_nil
  | some content =>
    obtain ⟨logstring, -, rfl⟩ := List.mem_map.mp h
    exact parseString_short _

theorem parseFile_eq (stats : LogfileStats) (file : LogFile) :
    parseFile stats file = (records file).foldl addResult stats := by
  cases file with
  | none => rfl
  | some content => exact (List.foldl_map ..).symm

theorem processFilesTask_eq (files : List LogFile) :
    processFilesTask files = threadStats (files.flatMap records) := by
  unfold processFilesTask threadStats
  rw [List.foldl_flatMap]
  exact List.foldl_ext _ _ _ fun stats file _ => parseFile_eq stats file

/-! ## The sums -/

/-- The statistics are the sums over the records: each table has the keys that occur in them, and
nothing else. -/
structure WorkerExact (stats : LogfileStats) (results : List LogStringInfo) : Prop where
  totalBytes : stats.totalBytes = (results.map (·.bytes)).sum
  urls : ∀ url, stats.urlStats.lookup url =
    if ∃ result ∈ results, result.url = url then
      some ((results.filter (·.url = url)).map (·.bytes)).sum
    else none
  referers : ∀ referer, stats.refererStats.lookup referer =
    if ∃ result ∈ results, result.referer = referer then
      some (UInt64.ofNat (results.countP (·.referer = referer)))
    else none
  url_total : total stats.urlStats = stats.totalBytes
  referer_total : total stats.refererStats = UInt64.ofNat results.length

/-- The table of a sum over records, where `key` fits into the buffer. -/
theorem lookup_entries (key : LogStringInfo → List UInt8) (count : LogStringInfo → UInt64)
    {results : List LogStringInfo}
    (hshort : ∀ result ∈ results, (key result).length ≤ strlenmax - 1) (k : List UInt8) :
    (addList ∅ (results.map fun result =>
        (strncpy (key result) (strlenmax - 1), count result))).lookup k =
      if ∃ result ∈ results, key result = k then
        some ((results.filter (key · = k)).map count).sum
      else none := by
  have hentries : results.map (fun result =>
      (strncpy (key result) (strlenmax - 1), count result)) =
      results.map fun result => (key result, count result) := by
    refine List.map_congr_left fun result hmem => ?_
    rw [CString.strncpy_eq_self (hshort result hmem)]
  have hkeys : k ∈ (results.map fun result => (key result, count result)).map Prod.fst ↔
      ∃ result ∈ results, key result = k := by
    rw [List.map_map, List.mem_map]
    exact Iff.rfl
  have hsum : sumOf (results.map fun result => (key result, count result)) k =
      ((results.filter (key · = k)).map count).sum := by
    unfold sumOf
    rw [List.filter_map, List.map_map]
    rfl
  rw [hentries]
  split_ifs with hk
  · rw [Tally.lookup_addList_of_mem (hkeys.mpr hk), hsum]
  · exact Tally.lookup_addList_of_notMem fun hmem => hk (hkeys.mp hmem)

theorem sum_ones {α : Type} (l : List α) : (l.map fun _ => (1 : UInt64)).sum =
    UInt64.ofNat l.length := by
  induction l with
  | nil => rfl
  | cons a l ih =>
    rw [List.map_cons, List.sum_cons, ih, List.length_cons, UInt64.ofNat_add, add_comm]
    rfl

theorem threadStats_exact {results : List LogStringInfo}
    (hshort : ∀ result ∈ results, Short result) : WorkerExact (threadStats results) results := by
  rw [threadStats_eq]
  refine ⟨rfl, ?_, ?_, ?_, ?_⟩
  · exact lookup_entries LogStringInfo.url LogStringInfo.bytes
      fun result hmem => (hshort result hmem).1
  · intro referer
    have hlookup := lookup_entries LogStringInfo.referer (fun _ => 1)
      (fun result hmem => (hshort result hmem).2) referer
    rw [sum_ones, ← List.countP_eq_length_filter] at hlookup
    exact hlookup
  · rw [Tally.total_addList, Tally.total_empty, zero_add, List.map_map]
    rfl
  · rw [Tally.total_addList, Tally.total_empty, zero_add, List.map_map, ← sum_ones results]
    rfl

theorem threadStats_perm {results results' : List LogStringInfo} (h : results.Perm results') :
    threadStats results = threadStats results' := by
  rw [threadStats_eq, threadStats_eq, Tally.addList_perm (h.map urlEntry),
    Tally.addList_perm (h.map refererEntry), (h.map LogStringInfo.bytes).sum_eq]

/-- For every list of files: the statistics at the end of `process_files_task` are the sums over all
records of the files that can be read; the order of the files does not matter, and those that
cannot be read change nothing. -/
theorem process_files_exact (files : List LogFile) :
    WorkerExact (processFilesTask files) (files.flatMap records) ∧
    (∀ files', files'.Perm files → processFilesTask files' = processFilesTask files) ∧
    processFilesTask (files.filter Option.isSome) = processFilesTask files := by
  refine ⟨?_, fun files' hperm => ?_, ?_⟩
  · rw [processFilesTask_eq]
    refine threadStats_exact fun result hmem => ?_
    obtain ⟨file, -, hresult⟩ := List.mem_flatMap.mp hmem
    exact short_of_mem_records hresult
  · rw [processFilesTask_eq, processFilesTask_eq]
    exact threadStats_perm (hperm.flatMap_right records)
  · rw [processFilesTask_eq, processFilesTask_eq]
    refine congrArg threadStats ?_
    induction files with
    | nil => rfl
    | cons file files ih =>
      cases file with
      | none => exact ih
      | some content =>
        rw [List.filter_cons_of_pos rfl, List.flatMap_cons, List.flatMap_cons, ih]

end CDevHws.Hw22
