import CDevHws.Hw22.Report
import CDevHws.Hw22.Proofs.MergeProofs
import CDevHws.Hw22.Proofs.TopTenProofs
import CDevHws.Hw22.Proofs.WorkerProofs
import CDevHws.Hw22.Proofs.WorkListProofs

/-!
# Proofs: the report

From the files to the ten rows: the shares of the threads are all files, the tables of the threads
add up to the tables of all records as long as the values are small, and the rows are the largest
values.
-/

namespace CDevHws.Hw22

open CString (strncpy)
open GHashTable (Enumerates)
open LinkedList (Holds)
open Tally (addList value sumOf)

/-! ## The files -/

theorem coe_flatMap_range {α : Type} (f : ℕ → List α) (k : ℕ) :
    (((List.range k).flatMap f : List α) : Multiset α) =
      ∑ t ∈ Finset.range k, (f t : Multiset α) := by
  induction k with
  | zero => rfl
  | succ k ih =>
    rw [List.range_succ, List.flatMap_append, List.flatMap_singleton, Finset.sum_range_succ, ← ih]
    rfl

section Run

variable {k : ℕ} {files : List LogFile} {w : WorkLists LogFile} (run : MainRun k files w)

/-- The records of a thread. -/
def MainRun.results (t : ℕ) : List LogStringInfo := (run.lists t).flatMap records

/-- The records of all threads, thread by thread. -/
def MainRun.families : List (List LogStringInfo) := (List.range k).map run.results

theorem MainRun.stats_eq : run.threads.map (·.stats) = run.families.map threadStats := by
  unfold MainRun.families MainRun.results
  rw [run.joined, List.map_map]
  refine List.map_congr_left fun t _ => ?_
  exact processFilesTask_eq _

/-- The threads get all files. -/
theorem MainRun.families_perm (hk : 1 ≤ k) (hnull : ∀ t < k, w.logfiles t = 0) :
    run.families.flatten.Perm (files.flatMap records) := by
  have hlists : ∀ t < k, run.lists t = share k 0 files t := by
    intro t ht
    obtain ⟨l, heq, hl⟩ := (holds_distribute_iff run.distributed t _).mp (run.holds t ht)
    rw [hnull t ht, LinkedList.holds_null_iff] at hl
    rw [heq, hl, List.append_nil]
  have hshares : ((List.range k).flatMap (share k 0 files)).Perm files := by
    rw [← Multiset.coe_eq_coe, coe_flatMap_range, sum_share hk]
  have hflatten : run.families.flatten =
      ((List.range k).flatMap (share k 0 files)).flatMap records := by
    unfold MainRun.families MainRun.results
    rw [List.flatMap_assoc, List.flatMap_def]
    refine congrArg List.flatten (List.map_congr_left fun t ht => ?_)
    rw [hlists t (List.mem_range.mp ht)]
  rw [hflatten]
  exact hshares.flatMap_right records

end Run

/-! ## Small counts -/

/-- No table entry reaches `2 ^ 31`, whichever thread counts it. -/
structure SmallCounts (results : List LogStringInfo) : Prop where
  urls : ∀ url, ((results.filter (·.url = url)).map (·.bytes.toNat)).sum < 2 ^ 31
  referers : ∀ referer, results.countP (·.referer = referer) < 2 ^ 31

theorem toNat_sum_le (l : List UInt64) : l.sum.toNat ≤ (l.map UInt64.toNat).sum := by
  induction l with
  | nil => exact Nat.le_refl _
  | cons v l ih =>
    rw [List.sum_cons, List.map_cons, List.sum_cons, UInt64.toNat_add]
    exact (Nat.mod_le _ _).trans (Nat.add_le_add_left ih _)

theorem value_entries (key : LogStringInfo → List UInt8) (count : LogStringInfo → UInt64)
    {results : List LogStringInfo}
    (hshort : ∀ result ∈ results, (key result).length ≤ strlenmax - 1) (k : List UInt8) :
    value (addList ∅ (results.map fun result =>
        (strncpy (key result) (strlenmax - 1), count result))) k =
      ((results.filter (key · = k)).map count).sum := by
  unfold value
  rw [lookup_entries key count hshort]
  split_ifs with hk
  · rfl
  · have hnil : results.filter (key · = k) = [] := by
      rw [List.filter_eq_nil_iff]
      intro result hmem heq
      exact hk ⟨result, hmem, of_decide_eq_true heq⟩
    rw [hnil]
    rfl

/-- What one thread has counted is at most what there is in all files. -/
theorem lossless_entries (key : LogStringInfo → List UInt8) (count : LogStringInfo → UInt64)
    {families : List (List LogStringInfo)} {all : List LogStringInfo}
    (hperm : families.flatten.Perm all)
    (hshort : ∀ result ∈ all, (key result).length ≤ strlenmax - 1)
    (hsmall : ∀ k, ((all.filter (key · = k)).map fun result => (count result).toNat).sum < 2 ^ 31) :
    Lossless (families.map fun results => addList ∅ (results.map fun result =>
      (strncpy (key result) (strlenmax - 1), count result))) := by
  refine lossless_of_small fun t ht k => ?_
  obtain ⟨results, hmem, rfl⟩ := List.mem_map.mp ht
  have hsub : results.Sublist families.flatten := List.sublist_flatten_of_mem hmem
  have hshort' : ∀ result ∈ results, (key result).length ≤ strlenmax - 1 := by
    intro result hresult
    exact hshort result (hperm.mem_iff.mp (hsub.mem hresult))
  rw [value_entries key count hshort']
  have hpart : ((results.filter (key · = k)).map fun result => (count result).toNat).sum ≤
      ((all.filter (key · = k)).map fun result => (count result).toNat).sum := by
    rw [← ((hperm.filter (key · = k)).map fun result => (count result).toNat).sum_eq]
    exact ((hsub.filter _).map _).sum_le_sum fun _ _ => Nat.zero_le _
  have hle := toNat_sum_le ((results.filter (key · = k)).map count)
  rw [List.map_map] at hle
  exact Nat.lt_of_le_of_lt (hle.trans hpart) (hsmall k)

/-! ## The merged statistics -/

theorem short_of_mem_files {files : List LogFile} {result : LogStringInfo}
    (h : result ∈ files.flatMap records) : Short result := by
  obtain ⟨file, -, hmem⟩ := List.mem_flatMap.mp h
  exact short_of_mem_records hmem

section Run

variable {k : ℕ} {files : List LogFile} {w : WorkLists LogFile} (run : MainRun k files w)
  (hk : 1 ≤ k) (hnull : ∀ t < k, w.logfiles t = 0) (hsmall : SmallCounts (files.flatMap records))
include hk hnull hsmall

/-- The threads together count as one thread would. -/
theorem MainRun.merged_eq : mergeThreads run.threads = threadStats (files.flatMap records) := by
  have hperm := run.families_perm hk hnull
  have hurls : run.threads.map (·.stats.urlStats) =
      run.families.map fun results => addList ∅ (results.map urlEntry) := by
    have h := congrArg (List.map LogfileStats.urlStats) run.stats_eq
    simpa [threadStats_eq, Function.comp_def] using h
  have hreferers : run.threads.map (·.stats.refererStats) =
      run.families.map fun results => addList ∅ (results.map refererEntry) := by
    have h := congrArg (List.map LogfileStats.refererStats) run.stats_eq
    simpa [threadStats_eq, Function.comp_def] using h
  have htotals : (run.threads.map (·.stats.totalBytes)).sum =
      (run.families.flatten.map LogStringInfo.bytes).sum := by
    have h := congrArg (fun l => (l.map LogfileStats.totalBytes).sum) run.stats_eq
    simpa [threadStats_eq, List.map_flatten, List.sum_flatten, Function.comp_def] using h
  have hurl := mergeTables_eq ThreadInfo.urlIter_enumerates
    (fun results => shortKeys_addList LogStringInfo.url LogStringInfo.bytes results) hurls
    (by
      rw [hurls]
      exact lossless_entries LogStringInfo.url LogStringInfo.bytes hperm
        (fun result hmem => (short_of_mem_files hmem).1) hsmall.urls)
  have hreferer := mergeTables_eq ThreadInfo.refererIter_enumerates
    (fun results => shortKeys_addList LogStringInfo.referer (fun _ => 1) results) hreferers
    (by
      rw [hreferers]
      refine lossless_entries LogStringInfo.referer (fun _ => 1) hperm
        (fun result hmem => (short_of_mem_files hmem).2) fun referer => ?_
      have hcount := hsmall.referers referer
      rw [List.countP_eq_length_filter] at hcount
      simpa using hcount)
  rw [mergeThreads_eq, hurl, hreferer, htotals]
  exact (threadStats_eq _).symm.trans (threadStats_perm hperm)

end Run

/-! ## The rows -/

/-- The entries for the records: each key that occurs in them once, with the sum of its counts. -/
def sumsByKey (key : LogStringInfo → List UInt8) (count : LogStringInfo → UInt64)
    (results : List LogStringInfo) : List (Σ _ : List UInt8, UInt64) :=
  (results.map key).dedup.map fun k => ⟨k, ((results.filter (key · = k)).map count).sum⟩

/-- The report for the records: the sum of all bytes, and rows for the URLs with the largest sums of
bytes and for the referers with the most records. -/
structure ReportExact (results : List LogStringInfo) (report : Report) : Prop where
  totalBytes : report.totalBytes = (results.map (·.bytes)).sum
  topUrls : ∃ iter, iter.Perm (sumsByKey (·.url) (·.bytes) results) ∧
    TopCorrect iter topsize (report.topUrls.map fun r => (r.url, r.urlBytesCount))
  topReferers : ∃ iter, iter.Perm (sumsByKey (·.referer) (fun _ => 1) results) ∧
    TopCorrect iter topsize (report.topReferers.map fun r => (r.url, r.refererCount))

theorem enumerates_perm (key : LogStringInfo → List UInt8) (count : LogStringInfo → UInt64)
    {results : List LogStringInfo}
    (hshort : ∀ result ∈ results, (key result).length ≤ strlenmax - 1)
    {iter : List (Σ _ : List UInt8, UInt64)}
    (hiter : Enumerates iter (addList ∅ (results.map fun result =>
      (strncpy (key result) (strlenmax - 1), count result)))) :
    iter.Perm (sumsByKey key count results) := by
  have hnodup : (sumsByKey key count results).Nodup := by
    refine List.Nodup.map (fun k k' heq => ?_) (List.nodup_dedup _)
    injection heq
  refine (List.perm_ext_iff_of_nodup hiter.nodupKeys.nodup hnodup).mpr fun entry => ?_
  obtain ⟨k, v⟩ := entry
  rw [hiter.mem_iff, lookup_entries key count hshort]
  unfold sumsByKey
  constructor
  · intro h
    split_ifs at h with hk
    obtain ⟨result, hmem, heq⟩ := hk
    injection h with hv
    refine List.mem_map.mpr ⟨k, List.mem_dedup.mpr ?_, by rw [hv]⟩
    exact List.mem_map.mpr ⟨result, hmem, heq⟩
  · intro h
    obtain ⟨k', hk', heq⟩ := List.mem_map.mp h
    injection heq with hkey hv
    subst hkey
    rw [if_pos (List.mem_map.mp (List.mem_dedup.mp hk')), ← hv]

/-- The keys of the entries fit into the rows. -/
theorem length_key_sumsByKey {key : LogStringInfo → List UInt8} {count : LogStringInfo → UInt64}
    {results : List LogStringInfo}
    (hshort : ∀ result ∈ results, (key result).length ≤ strlenmax - 1)
    {iter : List (Σ _ : List UInt8, UInt64)} (hperm : iter.Perm (sumsByKey key count results)) :
    ∀ entry ∈ iter, entry.1.length < strlenmax := by
  intro entry hentry
  obtain ⟨k, hk, rfl⟩ := List.mem_map.mp (hperm.mem_iff.mp hentry)
  obtain ⟨result, hmem, rfl⟩ := List.mem_map.mp (List.mem_dedup.mp hk)
  exact Nat.lt_of_le_of_lt (hshort result hmem) (by decide)

theorem MainRun.report_exact {k : ℕ} {files : List LogFile} {w : WorkLists LogFile}
    (run : MainRun k files w) (hk : 1 ≤ k) (hnull : ∀ t < k, w.logfiles t = 0)
    (hsmall : SmallCounts (files.flatMap records)) :
    ReportExact (files.flatMap records) run.report := by
  have hmerged := (run.merged_eq hk hnull hsmall).trans (threadStats_eq _)
  have hurl : ∀ result ∈ files.flatMap records, result.url.length ≤ strlenmax - 1 :=
    fun _ hmem => (short_of_mem_files hmem).1
  have hreferer : ∀ result ∈ files.flatMap records, result.referer.length ≤ strlenmax - 1 :=
    fun _ hmem => (short_of_mem_files hmem).2
  have hurls := run.urlIter_enumerates
  have hreferers := run.refererIter_enumerates
  rw [hmerged] at hurls hreferers
  refine ⟨?_, ?_, ?_⟩
  · show (mergeThreads run.threads).totalBytes = _
    rw [hmerged]
  · have hperm := enumerates_perm LogStringInfo.url LogStringInfo.bytes hurl hurls
    exact ⟨run.urlIter, hperm, topCorrect_getTop (fun _ _ => rfl) (fun _ _ => rfl) (by decide)
      hurls.nodupKeys.nodup (length_key_sumsByKey hurl hperm) _⟩
  · have hperm := enumerates_perm LogStringInfo.referer (fun _ => 1) hreferer hreferers
    exact ⟨run.refererIter, hperm, topCorrect_getTop (fun _ _ => rfl) (fun _ _ => rfl) (by decide)
      hreferers.nodupKeys.nodup (length_key_sumsByKey hreferer hperm) _⟩

/-! ## Another number of threads -/

theorem sumsByKey_perm {key : LogStringInfo → List UInt8} {count : LogStringInfo → UInt64}
    {results results' : List LogStringInfo} (h : results.Perm results') :
    (sumsByKey key count results).Perm (sumsByKey key count results') := by
  unfold sumsByKey
  have hsum : (fun k => (⟨k, ((results.filter (key · = k)).map count).sum⟩ :
      Σ _ : List UInt8, UInt64)) = fun k => ⟨k, ((results'.filter (key · = k)).map count).sum⟩ := by
    funext k
    rw [((h.filter (key · = k)).map count).sum_eq]
  rw [hsum]
  exact (h.map key).dedup.map _

theorem mergeSort_eq_of_perm {a b : List ℕ} (h : a.Perm b) :
    (a.mergeSort fun x y => y ≤ x) = b.mergeSort fun x y => y ≤ x := by
  have hpairs : ∀ l : List ℕ, (l.mergeSort fun x y => y ≤ x).Pairwise fun x y => y ≤ x :=
    fun l => List.pairwise_mergeSort' (fun x y : ℕ => y ≤ x) l
  refine List.Perm.eq_of_pairwise (fun x y _ _ hle hle' => Nat.le_antisymm hle' hle) (hpairs a)
    (hpairs b) ?_
  exact (List.mergeSort_perm a _).trans (h.trans (List.mergeSort_perm b _).symm)

/-- The counts in the rows depend on the entries only, not on their order. -/
theorem counts_eq_of_perm {iter iter' : List (Σ _ : List UInt8, UInt64)} {n : ℕ}
    {rows rows' : List (List UInt8 × UInt64)} (h : TopCorrect iter n rows)
    (h' : TopCorrect iter' n rows') (hperm : iter.Perm iter') :
    rows.map (·.2) = rows'.map (·.2) := by
  have hcounts : rows.map (·.2.toNat) = rows'.map (·.2.toNat) := by
    have hall : (tableCounts iter ++ List.replicate n 0).Perm
        (tableCounts iter' ++ List.replicate n 0) := (hperm.map _).append_right _
    rw [h.counts, h'.counts, mergeSort_eq_of_perm hall]
  refine List.map_injective_iff.mpr (fun a b hab => UInt64.toNat_inj.mp hab) ?_
  rw [List.map_map, List.map_map]
  exact hcounts

/-- What the report does not leave open. -/
structure SameFigures (report report' : Report) : Prop where
  totalBytes : report.totalBytes = report'.totalBytes
  urls : report.topUrls.map (·.urlBytesCount) = report'.topUrls.map (·.urlBytesCount)
  referers : report.topReferers.map (·.refererCount) = report'.topReferers.map (·.refererCount)

/-- For every list of files whose counts are small, every number of threads, memory in which the
lists of the threads start out empty, and every order in which the tables are gone through: the
report is right, and a run with another number of threads, with the files in another order, prints
the same figures. -/
theorem aparser_report_exact {k : ℕ} {files : List LogFile} {w : WorkLists LogFile}
    (run : MainRun k files w) (hk : 1 ≤ k) (hnull : ∀ t < k, w.logfiles t = 0)
    (hsmall : SmallCounts (files.flatMap records)) :
    ReportExact (files.flatMap records) run.report ∧
      ∀ {k' : ℕ} {files' : List LogFile} {w' : WorkLists LogFile} (run' : MainRun k' files' w'),
        1 ≤ k' → (∀ t < k', w'.logfiles t = 0) → files.Perm files' →
        SameFigures run.report run'.report := by
  have hexact := run.report_exact hk hnull hsmall
  refine ⟨hexact, fun {k' files' w'} run' hk' hnull' hperm => ?_⟩
  have hresults := hperm.flatMap_right records
  have hsmall' : SmallCounts (files'.flatMap records) := by
    refine ⟨fun url => ?_, fun referer => ?_⟩
    · rw [← ((hresults.filter (·.url = url)).map (·.bytes.toNat)).sum_eq]
      exact hsmall.urls url
    · rw [← hresults.countP_eq]
      exact hsmall.referers referer
  have hexact' := run'.report_exact hk' hnull' hsmall'
  obtain ⟨urls, hurls, htop⟩ := hexact.topUrls
  obtain ⟨urls', hurls', htop'⟩ := hexact'.topUrls
  obtain ⟨referers, hreferers, htopr⟩ := hexact.topReferers
  obtain ⟨referers', hreferers', htopr'⟩ := hexact'.topReferers
  refine ⟨?_, ?_, ?_⟩
  · rw [hexact.totalBytes, hexact'.totalBytes, (hresults.map LogStringInfo.bytes).sum_eq]
  · have hcounts := counts_eq_of_perm htop htop'
      (hurls.trans ((sumsByKey_perm hresults).trans hurls'.symm))
    rwa [List.map_map, List.map_map] at hcounts
  · have hcounts := counts_eq_of_perm htopr htopr'
      (hreferers.trans ((sumsByKey_perm hresults).trans hreferers'.symm))
    rwa [List.map_map, List.map_map] at hcounts

theorem exists_threads (stats : List LogfileStats) :
    ∃ threads : List ThreadInfo, threads.map (·.stats) = stats := by
  induction stats with
  | nil => exact ⟨[], rfl⟩
  | cons s stats ih =>
    obtain ⟨threads, hthreads⟩ := ih
    obtain ⟨thread, hthread⟩ := exists_threadInfo s
    exact ⟨thread :: threads, by rw [List.map_cons, hthread, hthreads]⟩

/-- There is a run for every list of files that the counter allows. -/
theorem exists_mainRun {k : ℕ} {files : List LogFile} {w : WorkLists LogFile}
    (hlt : files.length < 2 ^ 31) (hnull : ∀ t < k, w.logfiles t = 0) :
    Nonempty (MainRun k files w) := by
  have hsome : (∃ w', distribute k 0 files w = some w') ↔ 0 + files.length < 2 ^ 31 :=
    distribute_isSome_iff (Nat.two_pow_pos 31)
  obtain ⟨w', hw'⟩ := hsome.mpr (by omega)
  obtain ⟨threads, hthreads⟩ := exists_threads
    ((List.range k).map fun t => processFilesTask (share k 0 files t))
  obtain ⟨urlIter, hurl⟩ := GHashTable.exists_enumerates (mergeThreads threads).urlStats
  obtain ⟨refererIter, hreferer⟩ :=
    GHashTable.exists_enumerates (mergeThreads threads).refererStats
  refine ⟨⟨w', hw', share k 0 files, fun t ht => ?_, threads, hthreads, urlIter, refererIter, hurl,
    hreferer⟩⟩
  refine (holds_distribute_iff hw' t _).mpr ⟨[], (List.append_nil _).symm, ?_⟩
  rw [hnull t ht]
  exact LinkedList.holds_null_iff.mpr rfl

/-- A file with the line `i "G /x H" 2 7 "r" "a"`. -/
def sampleFile : LogFile := some [105, 32, 34, 71, 32, 47, 120, 32, 72, 34, 32, 50, 32, 55, 32, 34,
  114, 34, 32, 34, 97, 34, 10]

/-- The file twice and one that cannot be opened, for two threads. -/
theorem aparser_report_exact_twice :
    ∃ run : MainRun 2 [sampleFile, none, sampleFile] ⟨[], fun _ => 0⟩,
      ReportExact [⟨7, [47, 120], [97]⟩, ⟨7, [47, 120], [97]⟩] run.report := by
  have hrun : Nonempty (MainRun 2 [sampleFile, none, sampleFile] ⟨[], fun _ => 0⟩) :=
    exists_mainRun (by decide) fun _ _ => rfl
  obtain ⟨run⟩ := hrun
  have hrecords : [sampleFile, none, sampleFile].flatMap records =
      [⟨7, [47, 120], [97]⟩, ⟨7, [47, 120], [97]⟩] := by rfl
  have hsmall : SmallCounts [⟨7, [47, 120], [97]⟩, ⟨7, [47, 120], [97]⟩] := by
    refine ⟨fun url => ?_, fun referer => ?_⟩
    · by_cases h : url = [47, 120]
      · subst h
        decide
      · have hne : ¬ [47, 120] = url := fun heq => h heq.symm
        simp [hne]
    · exact Nat.lt_of_le_of_lt List.countP_le_length (by decide)
  rw [← hrecords] at hsmall ⊢
  exact ⟨run, (aparser_report_exact run (by decide) (fun _ _ => rfl) hsmall).1⟩

end CDevHws.Hw22
