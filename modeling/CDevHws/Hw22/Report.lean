import CDevHws.Hw22.TopTen
import CDevHws.Hw22.WorkList
import CDevHws.Lib.LinkedList

/-!
# The report (`aparser.c`)

`main` from the list of files to what is printed. The threads run at the same time, but each of them
writes to statistics of its own, and `main` waits for all of them.
-/

namespace CDevHws.Hw22

open GHashTable (Enumerates)

/-- `topsize`. -/
abbrev topsize : ℕ := 10

/-- What `main` prints in the end. -/
structure Report where
  totalBytes : UInt64
  topUrls : List UrlStats
  topReferers : List RefererStats

/-- A run of `main`, for the files that `get_lognames` returns and the memory that `malloc` returns
for `threads_info`. The orders in which the tables are gone through are left open by glib. -/
structure MainRun (threadsNum : ℕ) (logfiles : List LogFile) (w : WorkLists LogFile) where
  /-- The memory after the distribution loop. -/
  workLists : WorkLists LogFile
  distributed : distribute threadsNum 0 logfiles w = some workLists
  /-- The list of each thread. -/
  lists : ℕ → List LogFile
  holds : ∀ t < threadsNum,
    LinkedList.Holds (nodeAt workLists.nodes) 0 (workLists.logfiles t) (lists t)
  threads : List ThreadInfo
  joined : threads.map (·.stats) =
    (List.range threadsNum).map fun t => processFilesTask (lists t)
  urlIter : List (Σ _ : List UInt8, UInt64)
  refererIter : List (Σ _ : List UInt8, UInt64)
  urlIter_enumerates : Enumerates urlIter (mergeThreads threads).urlStats
  refererIter_enumerates : Enumerates refererIter (mergeThreads threads).refererStats

/-- What is printed; `calloc` has returned arrays of zeros. -/
def MainRun.report {threadsNum : ℕ} {logfiles : List LogFile} {w : WorkLists LogFile}
    (run : MainRun threadsNum logfiles w) : Report where
  totalBytes := (mergeThreads run.threads).totalBytes
  topUrls := (getTopUrls run.urlIter topsize (List.replicate topsize ⟨0, []⟩)).1
  topReferers := (getTopReferers run.refererIter topsize (List.replicate topsize ⟨0, []⟩)).1

end CDevHws.Hw22
