import CDevHws.Hw22.Aparser
import CDevHws.Lib.Tally
import Mathlib.Algebra.BigOperators.Ring.List
import Mathlib.Data.UInt

/-!
# Proofs: merging the tables of the threads

The tables are tables of sums (`CDevHws.Lib.Tally`), so the merged table has for each key the sum of
what the threads' tables have, whatever the orders of iteration. But `main` reads each value as an
`int`: what is lost is a multiple of `2 ^ 32`, and the sums are right if and only if these losses
cancel out modulo `2 ^ 64`.
-/

namespace CDevHws.Hw22

open CString (strncpy)
open Tally (value total addList sumOf)
open GHashTable (Enumerates)

/-! ## Reading an `int` -/

/-- How often `2 ^ 32` is missing in a value that is read as an `int`: the upper half, and one more
if the sign bit of the lower half is set. -/
def lost (v : UInt64) : ℕ :=
  v.toNat / 2 ^ 32 + if 2 ^ 31 ≤ v.toNat % 2 ^ 32 then 1 else 0

theorem toNat_readInt (v : UInt64) : (readInt v).toNat =
    if 2 ^ 31 ≤ v.toNat % 2 ^ 32 then v.toNat % 2 ^ 32 + (2 ^ 64 - 2 ^ 32)
    else v.toNat % 2 ^ 32 := by
  have hbv : (readInt v).toBitVec = (v.toBitVec.setWidth 32).signExtend 64 := rfl
  have hlow : (v.toBitVec.setWidth 32).toNat = v.toNat % 2 ^ 32 := BitVec.toNat_setWidth 32 _
  have hmsb : (v.toBitVec.setWidth 32).msb = decide (2 ^ 31 ≤ v.toNat % 2 ^ 32) := by
    rw [BitVec.msb_eq_decide, hlow]
  have hsmall : v.toNat % 2 ^ 32 % 2 ^ 64 = v.toNat % 2 ^ 32 := by omega
  rw [← UInt64.toNat_toBitVec, hbv, BitVec.toNat_signExtend, BitVec.toNat_setWidth, hlow, hmsb,
    hsmall]
  by_cases h : 2 ^ 31 ≤ v.toNat % 2 ^ 32
  · rw [if_pos (decide_eq_true h), if_pos h]
  · rw [if_neg (by simpa using h), if_neg h, Nat.add_zero]

theorem readInt_add_lost (v : UInt64) : v = readInt v + UInt64.ofNat (2 ^ 32 * lost v) := by
  refine UInt64.toNat_inj.mp ?_
  have hlt := v.toNat_lt
  rw [UInt64.toNat_add, UInt64.toNat_ofNat', toNat_readInt]
  unfold lost
  by_cases h : 2 ^ 31 ≤ v.toNat % 2 ^ 32
  · rw [if_pos h, if_pos h]
    omega
  · rw [if_neg h, if_neg h]
    omega

theorem readInt_zero : readInt 0 = 0 := rfl

/-- The sum of what is read is the sum of the values if and only if the losses make up a multiple of
`2 ^ 64`. -/
theorem sum_readInt_eq_iff (values : List UInt64) :
    (values.map readInt).sum = values.sum ↔ 2 ^ 32 ∣ (values.map lost).sum := by
  have hsum : values.sum = (values.map readInt).sum +
      UInt64.ofNat (2 ^ 32 * (values.map lost).sum) := by
    induction values with
    | nil => rfl
    | cons v values ih =>
      rw [List.sum_cons, List.map_cons, List.sum_cons, List.map_cons, List.sum_cons, Nat.mul_add,
        UInt64.ofNat_add, add_add_add_comm, ← readInt_add_lost, ← ih]
  have hzero : UInt64.ofNat (2 ^ 32 * (values.map lost).sum) = 0 ↔
      2 ^ 32 ∣ (values.map lost).sum := by
    rw [← UInt64.toNat_inj, UInt64.toNat_ofNat']
    show 2 ^ 32 * (values.map lost).sum % 2 ^ 64 = 0 ↔ _
    omega
  rw [← hzero]
  conv_lhs => rw [hsum]
  exact left_eq_add

/-! ## The table of a thread -/

/-- What the records of a thread add to its tables. -/
def urlEntry (result : LogStringInfo) : List UInt8 × UInt64 :=
  (strncpy result.url (strlenmax - 1), result.bytes)

@[inherit_doc urlEntry] def refererEntry (result : LogStringInfo) : List UInt8 × UInt64 :=
  (strncpy result.referer (strlenmax - 1), 1)

theorem addStats_eq (t : GHashTable (List UInt8) UInt64) (key : List UInt8) (count : UInt64) :
    addStats t key count = Tally.add t key count := by
  unfold addStats Tally.add
  cases t.lookup key with
  | none => rfl
  | some value => rfl

theorem foldl_addResult (results : List LogStringInfo) (stats : LogfileStats) :
    results.foldl addResult stats =
      ⟨stats.totalBytes + (results.map LogStringInfo.bytes).sum,
        addList stats.urlStats (results.map urlEntry),
        addList stats.refererStats (results.map refererEntry)⟩ := by
  induction results generalizing stats with
  | nil =>
    rw [List.map_nil, List.sum_nil, add_zero]
    rfl
  | cons result results ih =>
    rw [List.foldl_cons, ih, List.map_cons, List.sum_cons, ← add_assoc]
    unfold addResult addUrlStats addRefererStats
    rw [addStats_eq, addStats_eq]
    rfl

/-- The tables of a thread are the sums over its records. -/
theorem threadStats_eq (results : List LogStringInfo) :
    threadStats results =
      ⟨(results.map LogStringInfo.bytes).sum, addList ∅ (results.map urlEntry),
        addList ∅ (results.map refererEntry)⟩ := by
  unfold threadStats
  rw [foldl_addResult]
  show LogfileStats.mk (0 + _) _ _ = _
  rw [zero_add]
  rfl

/-- A key fits into the buffer to which the merging copies it. -/
def ShortKeys (t : GHashTable (List UInt8) UInt64) : Prop :=
  ∀ k ∈ t, k.length ≤ strlenmax - 1

theorem shortKeys_addList {α : Type} (key : α → List UInt8) (count : α → UInt64) (l : List α) :
    ShortKeys (addList ∅ (l.map fun a => (strncpy (key a) (strlenmax - 1), count a))) := by
  intro k hk
  rcases Tally.mem_addList.mp hk with hempty | hmem
  · exact absurd hempty Finmap.notMem_empty
  · rw [List.map_map] at hmem
    obtain ⟨a, -, rfl⟩ := List.mem_map.mp hmem
    exact List.length_take_le _ _

theorem threadStats_shortKeys (results : List LogStringInfo) :
    ShortKeys (threadStats results).urlStats ∧ ShortKeys (threadStats results).refererStats := by
  rw [threadStats_eq]
  exact ⟨shortKeys_addList _ _ results, shortKeys_addList _ _ results⟩

/-! ## Merging -/

/-- `g_hash_table_foreach` with one of the callbacks adds up the values, as they are read. -/
theorem foldl_copyTable {iter : List (Σ _ : List UInt8, UInt64)}
    {t : GHashTable (List UInt8) UInt64} (h : Enumerates iter t) (hshort : ShortKeys t)
    (all : GHashTable (List UInt8) UInt64) :
    iter.foldl copyUrlTable all = addList all (iter.map fun e => (e.1, readInt e.2)) := by
  have hkeys : ∀ e ∈ iter, e.1.length ≤ strlenmax - 1 := by
    intro e he
    exact hshort e.1 (Finmap.mem_of_lookup_eq_some ((h.mem_iff e.1 e.2).mp he))
  unfold addList
  rw [List.foldl_map]
  refine List.foldl_ext _ _ all fun all' e he => ?_
  unfold copyUrlTable addUrlStats
  rw [addStats_eq]
  simp only [CString.strncpy_eq_self (hkeys e he)]

section merge

/-- The merge loop for one of the two tables, `table` with the order `iter`. -/
def mergeTables (iter : ThreadInfo → List (Σ _ : List UInt8, UInt64)) (threads : List ThreadInfo)
    (all : GHashTable (List UInt8) UInt64) : GHashTable (List UInt8) UInt64 :=
  threads.foldl (fun all thread => (iter thread).foldl copyUrlTable all) all

theorem foldl_mergeThread (threads : List ThreadInfo) (all : LogfileStats) :
    threads.foldl mergeThread all =
      ⟨all.totalBytes + (threads.map (·.stats.totalBytes)).sum,
        mergeTables ThreadInfo.urlIter threads all.urlStats,
        mergeTables ThreadInfo.refererIter threads all.refererStats⟩ := by
  induction threads generalizing all with
  | nil =>
    rw [List.map_nil, List.sum_nil, add_zero]
    rfl
  | cons thread threads ih =>
    rw [List.foldl_cons, ih, List.map_cons, List.sum_cons, ← add_assoc]
    rfl

theorem mergeThreads_eq (threads : List ThreadInfo) : mergeThreads threads =
    ⟨(threads.map (·.stats.totalBytes)).sum, mergeTables ThreadInfo.urlIter threads ∅,
      mergeTables ThreadInfo.refererIter threads ∅⟩ := by
  unfold mergeThreads
  rw [foldl_mergeThread]
  show LogfileStats.mk (0 + _) _ _ = _
  rw [zero_add]
  rfl

variable {iter : ThreadInfo → List (Σ _ : List UInt8, UInt64)}
  {table : ThreadInfo → GHashTable (List UInt8) UInt64} {threads : List ThreadInfo}
  (hiter : ∀ thread ∈ threads, Enumerates (iter thread) (table thread))
  (hshort : ∀ thread ∈ threads, ShortKeys (table thread))

include hiter hshort

theorem mem_mergeTables (all : GHashTable (List UInt8) UInt64) (k : List UInt8) :
    k ∈ mergeTables iter threads all ↔ k ∈ all ∨ ∃ thread ∈ threads, k ∈ table thread := by
  unfold mergeTables
  induction threads generalizing all with
  | nil => simp
  | cons thread threads ih =>
    have hmem : k ∈ (iter thread).map (fun e => e.1) ↔ k ∈ table thread := by
      have he := hiter thread List.mem_cons_self
      rw [Finmap.mem_iff]
      constructor
      · intro h
        obtain ⟨e, he', rfl⟩ := List.mem_map.mp h
        exact ⟨e.2, (he.mem_iff e.1 e.2).mp he'⟩
      · rintro ⟨v, hv⟩
        exact List.mem_map.mpr ⟨⟨k, v⟩, (he.mem_iff k v).mpr hv, rfl⟩
    rw [List.foldl_cons, ih (fun t ht => hiter t (List.mem_cons_of_mem _ ht))
        (fun t ht => hshort t (List.mem_cons_of_mem _ ht)),
      foldl_copyTable (hiter thread List.mem_cons_self) (hshort thread List.mem_cons_self),
      Tally.mem_addList, List.map_map]
    show (_ ∨ k ∈ (iter thread).map (fun e => e.1)) ∨ _ ↔ _
    rw [hmem, List.exists_mem_cons_iff, or_assoc]

/-- Each thread adds its value for the key, as it is read. -/
theorem value_mergeTables (all : GHashTable (List UInt8) UInt64) (k : List UInt8) :
    value (mergeTables iter threads all) k =
      value all k + ((threads.map fun thread => value (table thread) k).map readInt).sum := by
  unfold mergeTables
  induction threads generalizing all with
  | nil =>
    rw [List.map_nil, List.map_nil, List.sum_nil, add_zero]
    rfl
  | cons thread threads ih =>
    rw [List.foldl_cons, ih (fun t ht => hiter t (List.mem_cons_of_mem _ ht))
        (fun t ht => hshort t (List.mem_cons_of_mem _ ht)),
      foldl_copyTable (hiter thread List.mem_cons_self) (hshort thread List.mem_cons_self),
      Tally.value_addList, Tally.sumOf_enumerates readInt_zero (hiter thread List.mem_cons_self),
      List.map_cons, List.map_cons, List.sum_cons, add_assoc]

end merge

/-! ## All records in one thread -/

theorem value_flatten (entry : LogStringInfo → List UInt8 × UInt64)
    (families : List (List LogStringInfo)) (k : List UInt8) :
    value (addList ∅ (families.flatten.map entry)) k =
      (families.map fun results => value (addList ∅ (results.map entry)) k).sum := by
  induction families with
  | nil => rfl
  | cons results families ih =>
    rw [Tally.value_addList, Tally.value_empty, zero_add] at ih ⊢
    rw [List.flatten_cons, List.map_append, Tally.sumOf_append, ih, List.map_cons, List.sum_cons,
      Tally.value_addList, Tally.value_empty, zero_add]

theorem mem_flatten (entry : LogStringInfo → List UInt8 × UInt64)
    (families : List (List LogStringInfo)) (k : List UInt8) :
    k ∈ addList ∅ (families.flatten.map entry) ↔
      ∃ results ∈ families, k ∈ addList ∅ (results.map entry) := by
  simp only [Tally.mem_addList, Finmap.notMem_empty, false_or, List.mem_map, List.mem_flatten]
  constructor
  · rintro ⟨e, ⟨result, ⟨results, hin, hmem⟩, rfl⟩, rfl⟩
    exact ⟨results, hin, _, ⟨result, hmem, rfl⟩, rfl⟩
  · rintro ⟨results, hin, e, ⟨result, hmem, rfl⟩, rfl⟩
    exact ⟨_, ⟨result, ⟨results, hin, hmem⟩, rfl⟩, rfl⟩

/-! ## The merged tables -/

/-- The table merged from the threads' tables has their keys and the sums of their values, and it is
the table that results if a single thread does all the work. -/
structure TableExact (merged single : GHashTable (List UInt8) UInt64)
    (tables : List (GHashTable (List UInt8) UInt64)) : Prop where
  keys : ∀ k, k ∈ merged ↔ ∃ t ∈ tables, k ∈ t
  values : ∀ k, value merged k = (tables.map fun t => value t k).sum
  single_eq : merged = single

/-- For each key the losses of the tables cancel out. -/
def Lossless (tables : List (GHashTable (List UInt8) UInt64)) : Prop :=
  ∀ k, 2 ^ 32 ∣ (tables.map fun t => lost (value t k)).sum

section table

variable {iter : ThreadInfo → List (Σ _ : List UInt8, UInt64)}
  {table : ThreadInfo → GHashTable (List UInt8) UInt64}
  (hiter : ∀ thread, Enumerates (iter thread) (table thread))
  {entry : LogStringInfo → List UInt8 × UInt64}
  (hentry : ∀ results : List LogStringInfo, ShortKeys (addList ∅ (results.map entry)))
  {families : List (List LogStringInfo)} {threads : List ThreadInfo} {one : ThreadInfo}
  (hthreads : threads.map table = families.map fun results => addList ∅ (results.map entry))
  (hone : table one = addList ∅ (families.flatten.map entry))

include hentry hthreads in
theorem shortKeys_of_mem : ∀ thread ∈ threads, ShortKeys (table thread) := by
  intro thread hmem
  have hin : table thread ∈ threads.map table := List.mem_map_of_mem hmem
  rw [hthreads] at hin
  obtain ⟨results, -, heq⟩ := List.mem_map.mp hin
  rw [← heq]
  exact hentry results

include hiter hentry hthreads in
theorem values_iff :
    (∀ k, value (mergeTables iter threads ∅) k =
      ((threads.map table).map fun t => value t k).sum) ↔ Lossless (threads.map table) := by
  have hshort := shortKeys_of_mem hentry hthreads
  unfold Lossless
  refine forall_congr' fun k => ?_
  have hiff := sum_readInt_eq_iff (threads.map fun t => value (table t) k)
  rw [List.map_map, List.map_map] at hiff
  rw [value_mergeTables (fun t _ => hiter t) hshort, Tally.value_empty, zero_add, List.map_map,
    List.map_map, List.map_map]
  exact hiff

include hiter hentry hthreads in
theorem keys_mergeTables (k : List UInt8) :
    k ∈ mergeTables iter threads ∅ ↔ ∃ t ∈ threads.map table, k ∈ t := by
  rw [mem_mergeTables (fun t _ => hiter t) (shortKeys_of_mem hentry hthreads)]
  simp [Finmap.notMem_empty]

include hiter hentry hthreads in
/-- Without losses the merged table is the table of all records. -/
theorem mergeTables_eq (h : Lossless (threads.map table)) :
    mergeTables iter threads ∅ = addList ∅ (families.flatten.map entry) := by
  refine Tally.ext (fun k => ?_) fun k => ?_
  · rw [keys_mergeTables hiter hentry hthreads, hthreads, mem_flatten]
    simp
  · rw [(values_iff hiter hentry hthreads).mpr h k, hthreads, value_flatten, List.map_map]
    rfl

include hiter hentry hthreads hone in
theorem tableExact_iff :
    TableExact (mergeTables iter threads ∅) (mergeTables iter [one] ∅) (threads.map table) ↔
      Lossless (threads.map table) ∧ Lossless [table one] := by
  have hsingle : [one].map table =
      [families.flatten].map fun results => addList ∅ (results.map entry) := by
    rw [List.map_singleton, List.map_singleton, hone]
  have hflat : [families.flatten].flatten = families.flatten := by simp
  constructor
  · rintro ⟨-, hvalues, heq⟩
    have hlossless := (values_iff hiter hentry hthreads).mp hvalues
    refine ⟨hlossless, (values_iff hiter hentry hsingle).mp fun k => ?_⟩
    rw [← heq, mergeTables_eq hiter hentry hthreads hlossless, List.map_singleton,
      List.map_singleton, List.sum_singleton, hone]
  · rintro ⟨hlossless, hlossless'⟩
    refine ⟨keys_mergeTables hiter hentry hthreads,
      (values_iff hiter hentry hthreads).mpr hlossless, ?_⟩
    rw [mergeTables_eq hiter hentry hthreads hlossless,
      mergeTables_eq hiter hentry hsingle hlossless', hflat]

end table

/-- The merged statistics are exact, for both tables and the total. -/
structure MergeExact (threads : List ThreadInfo) (one : ThreadInfo) : Prop where
  urls : TableExact (mergeThreads threads).urlStats (mergeThreads [one]).urlStats
    (threads.map (·.stats.urlStats))
  referers : TableExact (mergeThreads threads).refererStats (mergeThreads [one]).refererStats
    (threads.map (·.stats.refererStats))
  url_total : total (mergeThreads threads).urlStats = (mergeThreads threads).totalBytes

/-- For any number of threads, whatever records their files have given them and in whatever order
the tables are gone through: the merged statistics are exact, and the same as with a thread `one`
that has got all the records, if and only if the losses cancel out for each key, in the tables of
the threads and in those of `one`. -/
theorem merge_exact_iff {families : List (List LogStringInfo)} {threads : List ThreadInfo}
    {one : ThreadInfo} (hthreads : threads.map (·.stats) = families.map threadStats)
    (hone : one.stats = threadStats families.flatten) :
    MergeExact threads one ↔
      (Lossless (threads.map (·.stats.urlStats)) ∧ Lossless [one.stats.urlStats]) ∧
        Lossless (threads.map (·.stats.refererStats)) ∧ Lossless [one.stats.refererStats] := by
  have hurls : threads.map (·.stats.urlStats) =
      families.map fun results => addList ∅ (results.map urlEntry) := by
    have h := congrArg (List.map LogfileStats.urlStats) hthreads
    simpa [threadStats_eq, Function.comp_def] using h
  have hreferers : threads.map (·.stats.refererStats) =
      families.map fun results => addList ∅ (results.map refererEntry) := by
    have h := congrArg (List.map LogfileStats.refererStats) hthreads
    simpa [threadStats_eq, Function.comp_def] using h
  have htotals : (threads.map (·.stats.totalBytes)).sum =
      (families.flatten.map LogStringInfo.bytes).sum := by
    have h := congrArg (fun l => (l.map LogfileStats.totalBytes).sum) hthreads
    simpa [threadStats_eq, List.map_flatten, List.sum_flatten, Function.comp_def] using h
  rw [threadStats_eq] at hone
  have hurl := tableExact_iff ThreadInfo.urlIter_enumerates
    (fun results => shortKeys_addList LogStringInfo.url LogStringInfo.bytes results) hurls
    (congrArg LogfileStats.urlStats hone)
  have hreferer := tableExact_iff ThreadInfo.refererIter_enumerates
    (fun results => shortKeys_addList LogStringInfo.referer (fun _ => 1) results) hreferers
    (congrArg LogfileStats.refererStats hone)
  rw [← hurl, ← hreferer]
  constructor
  · rintro ⟨hu, hr, -⟩
    rw [mergeThreads_eq, mergeThreads_eq] at hu hr
    exact ⟨hu, hr⟩
  · rintro ⟨hu, hr⟩
    have hmerged := mergeTables_eq ThreadInfo.urlIter_enumerates
      (fun results => shortKeys_addList LogStringInfo.url LogStringInfo.bytes results) hurls
      (hurl.mp hu).1
    refine ⟨?_, ?_, ?_⟩
    · rw [mergeThreads_eq, mergeThreads_eq]
      exact hu
    · rw [mergeThreads_eq, mergeThreads_eq]
      exact hr
    · rw [mergeThreads_eq]
      show total (mergeTables ThreadInfo.urlIter threads ∅) = _
      rw [hmerged, Tally.total_addList, Tally.total_empty, zero_add, List.map_map, htotals]
      rfl

theorem exists_threadInfo (stats : LogfileStats) : ∃ thread : ThreadInfo, thread.stats = stats := by
  obtain ⟨urlIter, hurl⟩ := GHashTable.exists_enumerates stats.urlStats
  obtain ⟨refererIter, hreferer⟩ := GHashTable.exists_enumerates stats.refererStats
  exact ⟨⟨stats, urlIter, refererIter, hurl, hreferer⟩, rfl⟩

/-- Values below `2 ^ 31` are read as they are. -/
theorem lossless_of_small {tables : List (GHashTable (List UInt8) UInt64)}
    (h : ∀ t ∈ tables, ∀ k, (value t k).toNat < 2 ^ 31) : Lossless tables := by
  intro k
  refine List.dvd_sum fun n hn => ?_
  obtain ⟨t, ht, rfl⟩ := List.mem_map.mp hn
  have hsmall := h t ht k
  have hzero : lost (value t k) = 0 := by
    unfold lost
    rw [if_neg (by omega)]
    omega
  rw [hzero]
  exact Nat.dvd_zero _

/-- Records with one byte for the URL "u" and with the referer "r". -/
theorem merge_exact_small : ∃ threads one, MergeExact threads one ∧
    threads.map (·.stats) = [[⟨1, [117], [114]⟩], [⟨1, [117], [114]⟩]].map threadStats := by
  obtain ⟨thread, hthread⟩ := exists_threadInfo (threadStats [⟨1, [117], [114]⟩])
  obtain ⟨one, hone⟩ := exists_threadInfo (threadStats [⟨1, [117], [114]⟩, ⟨1, [117], [114]⟩])
  have hstats : [thread, thread].map (·.stats) =
      [[⟨1, [117], [114]⟩], [⟨1, [117], [114]⟩]].map threadStats := by
    rw [List.map_cons, List.map_singleton, hthread]
    rfl
  have hsmall : ∀ (key : List UInt8) (k : List UInt8),
      (value (addList ∅ [(key, (1 : UInt64))]) k).toNat < 2 ^ 31 ∧
      (value (addList ∅ [(key, (1 : UInt64)), (key, 1)]) k).toNat < 2 ^ 31 := by
    intro key k
    rw [Tally.value_addList, Tally.value_addList, Tally.value_empty]
    by_cases hk : key = k
    · simp [sumOf, hk]
    · simp [sumOf, hk]
  have hurl : thread.stats.urlStats = addList ∅ [([117], 1)] := by rw [hthread, threadStats_eq]; rfl
  have hreferer : thread.stats.refererStats = addList ∅ [([114], 1)] := by
    rw [hthread, threadStats_eq]; rfl
  have hurl' : one.stats.urlStats = addList ∅ [([117], 1), ([117], 1)] := by
    rw [hone, threadStats_eq]; rfl
  have hreferer' : one.stats.refererStats = addList ∅ [([114], 1), ([114], 1)] := by
    rw [hone, threadStats_eq]; rfl
  refine ⟨[thread, thread], one, (merge_exact_iff hstats hone).mpr
    ⟨⟨lossless_of_small ?_, lossless_of_small ?_⟩, lossless_of_small ?_, lossless_of_small ?_⟩,
    hstats⟩
  · simpa [hurl] using fun k => (hsmall [117] k).1
  · simpa [hurl'] using fun k => (hsmall [117] k).2
  · simpa [hreferer] using fun k => (hsmall [114] k).1
  · simpa [hreferer'] using fun k => (hsmall [114] k).2

/-- A URL with `2 ^ 31` bytes, in one thread. -/
theorem merge_heavy : ∃ thread : ThreadInfo, thread.stats = threadStats [⟨2147483648, [117], []⟩] ∧
    value thread.stats.urlStats [117] = 2147483648 ∧
    value (mergeThreads [thread]).urlStats [117] = 18446744071562067968 ∧
    ¬ MergeExact [thread] thread := by
  obtain ⟨thread, hthread⟩ := exists_threadInfo (threadStats [⟨2147483648, [117], []⟩])
  have hvalue : value thread.stats.urlStats [117] = 2147483648 := by
    rw [hthread]
    rfl
  have hmerged : value (mergeThreads [thread]).urlStats [117] = 18446744071562067968 := by
    have hshort : ∀ t ∈ [thread], ShortKeys t.stats.urlStats := by
      intro t ht
      rw [List.mem_singleton.mp ht, hthread]
      exact (threadStats_shortKeys _).1
    rw [mergeThreads_eq]
    show value (mergeTables ThreadInfo.urlIter [thread] ∅) [117] = _
    rw [value_mergeTables (fun t _ => t.urlIter_enumerates) hshort, Tally.value_empty, zero_add,
      List.map_singleton, List.map_singleton, List.sum_singleton, hvalue]
    rfl
  refine ⟨thread, hthread, hvalue, hmerged, fun hexact => ?_⟩
  have hsum := hexact.urls.values [117]
  rw [hmerged, List.map_singleton, List.map_singleton, List.sum_singleton, hvalue] at hsum
  cases hsum

end CDevHws.Hw22
