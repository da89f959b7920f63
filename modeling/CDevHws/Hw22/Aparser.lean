import CDevHws.Lib.CString
import CDevHws.Lib.GHashTable
import CDevHws.Lib.Stdio

/-!
# The log analyser (`aparser.c`)

A line of a log gives the number of bytes, the URL and the referer; each thread adds up the lines
of its files in two tables; `main` merges the tables of the threads. Strings are lists of bytes, see
`CDevHws.Lib.CString`. `malloc` and `g_strdup` succeed.
-/

namespace CDevHws.Hw22

open CString (strncpy strtok scanSize)

/-- `STRLENMAX`. -/
abbrev strlenmax : ℕ := 10240

/-- `EXIT_SUCCESS` and `EXIT_FAILURE`. -/
inductive ExitStatus where
  | success
  | failure
deriving DecidableEq

/-- `log_string_info_t`: what is kept of a line. -/
structure LogStringInfo where
  bytes : UInt64
  url : List UInt8
  referer : List UInt8
deriving DecidableEq

/-! ## `parse_string` -/

/-- The delimiters `"\""` of `strtok_r`. -/
def quote : List UInt8 := [34]

/-- The delimiters `" "`. -/
def space : List UInt8 := [32]

/-- The last three tokens of `parse_string`, of which the third is kept as the referer. -/
def parseReferer (rest : List UInt8) (result : LogStringInfo) : ExitStatus × LogStringInfo :=
  match strtok quote rest with
  | none => (.failure, result)
  | some (_, rest) =>
  match strtok quote rest with
  | none => (.failure, result)
  | some (_, rest) =>
  match strtok quote rest with
  | none => (.failure, result)
  | some (token, _) => (.success, { result with referer := strncpy token (strlenmax - 1) })

/-- The status code and the size, and what comes after them. -/
def parseSize (rest : List UInt8) (result : LogStringInfo) : ExitStatus × LogStringInfo :=
  match strtok space rest with
  | none => (.failure, result)
  | some (_, rest) =>
  match strtok space rest with
  | none => (.failure, result)
  | some (token, rest) =>
  match scanSize token with
  | none => (.failure, result)
  | some bytes => parseReferer rest { result with bytes := bytes }

/-- `parse_string`: the exit status, and the contents of `*result` afterwards. -/
def parseString (inputString : List UInt8) : ExitStatus × LogStringInfo :=
  let result : LogStringInfo := { bytes := 0, url := [], referer := [] }
  match strtok quote inputString with
  | none => (.failure, result)
  | some (_, rest) =>
  match strtok space rest with
  | none => (.failure, result)
  | some (_, rest) =>
  match strtok space rest with
  | none => (.failure, result)
  | some (token, rest) =>
  let result := { result with url := strncpy token (strlenmax - 1) }
  match strtok quote rest with
  | none => (.failure, result)
  | some (_, rest) => parseSize rest result

/-! ## The tables of a thread -/

/-- `url_stats_t`. -/
structure UrlStats where
  urlBytesCount : UInt64
  url : List UInt8

/-- `referer_stats_t`. -/
structure RefererStats where
  refererCount : UInt64
  url : List UInt8

/-- `logfile_stats_t`. -/
structure LogfileStats where
  totalBytes : UInt64
  urlStats : GHashTable (List UInt8) UInt64
  refererStats : GHashTable (List UInt8) UInt64

/-- The body that `add_url_stats` and `add_referer_stats` share. -/
def addStats (hashtable : GHashTable (List UInt8) UInt64) (key : List UInt8) (count : UInt64) :
    GHashTable (List UInt8) UInt64 :=
  match hashtable.lookup key with
  | some value => hashtable.insert key (value + count)
  | none => hashtable.insert key count

/-- `add_url_stats`. -/
def addUrlStats (hashtable : GHashTable (List UInt8) UInt64) (urlStats : UrlStats) :
    GHashTable (List UInt8) UInt64 :=
  addStats hashtable urlStats.url urlStats.urlBytesCount

/-- `add_referer_stats`. -/
def addRefererStats (hashtable : GHashTable (List UInt8) UInt64) (refererStats : RefererStats) :
    GHashTable (List UInt8) UInt64 :=
  addStats hashtable refererStats.url refererStats.refererCount

/-- The statistics at the start of `process_files_task`. -/
def LogfileStats.empty : LogfileStats := ⟨0, ∅, ∅⟩

/-- What the loop of `parse_file` does with the result of `parse_string`. -/
def addResult (stats : LogfileStats) (result : LogStringInfo) : LogfileStats where
  totalBytes := stats.totalBytes + result.bytes
  urlStats := addUrlStats stats.urlStats
    { urlBytesCount := result.bytes, url := strncpy result.url (strlenmax - 1) }
  refererStats := addRefererStats stats.refererStats
    { refererCount := 1, url := strncpy result.referer (strlenmax - 1) }

/-- The statistics of a thread whose files give these records, in this order. -/
def threadStats (results : List LogStringInfo) : LogfileStats :=
  results.foldl addResult .empty

/-- A log file: its content, or `none` if `open_file` fails. -/
abbrev LogFile := Option (List UInt8)

/-- `parse_file`. -/
def parseFile (stats : LogfileStats) : LogFile → LogfileStats
  | none => stats
  | some content => (Stdio.fgetsAll strlenmax [] content).foldl (fun stats logstring =>
      addResult stats (parseString (CString.ofBytes logstring)).2) stats

/-- `process_files_task`, for the files of the thread's list. -/
def processFilesTask (logfiles : List LogFile) : LogfileStats := logfiles.foldl parseFile .empty

/-! ## Merging -/

/-- `*((int*) value)` for a pointer to a `size_t`, on a little-endian machine, converted to
`size_t`. -/
def readInt (value : UInt64) : UInt64 := value.toUInt32.toInt32.toInt64.toUInt64

/-- `copy_url_table`. -/
def copyUrlTable (hashtable : GHashTable (List UInt8) UInt64)
    (entry : Σ _ : List UInt8, UInt64) : GHashTable (List UInt8) UInt64 :=
  addUrlStats hashtable
    { urlBytesCount := readInt entry.2, url := strncpy entry.1 (strlenmax - 1) }

/-- `copy_referer_table`. -/
def copyRefererTable (hashtable : GHashTable (List UInt8) UInt64)
    (entry : Σ _ : List UInt8, UInt64) : GHashTable (List UInt8) UInt64 :=
  addRefererStats hashtable
    { refererCount := readInt entry.2, url := strncpy entry.1 (strlenmax - 1) }

/-- A thread after `pthread_join`, with the orders in which `g_hash_table_foreach` goes through its
two tables. -/
structure ThreadInfo where
  stats : LogfileStats
  urlIter : List (Σ _ : List UInt8, UInt64)
  refererIter : List (Σ _ : List UInt8, UInt64)
  urlIter_enumerates : GHashTable.Enumerates urlIter stats.urlStats
  refererIter_enumerates : GHashTable.Enumerates refererIter stats.refererStats

/-- One round of the merge loop of `main`. -/
def mergeThread (allStats : LogfileStats) (thread : ThreadInfo) : LogfileStats where
  totalBytes := allStats.totalBytes + thread.stats.totalBytes
  urlStats := thread.urlIter.foldl copyUrlTable allStats.urlStats
  refererStats := thread.refererIter.foldl copyRefererTable allStats.refererStats

/-- The merge loop of `main`. -/
def mergeThreads (threads : List ThreadInfo) : LogfileStats :=
  threads.foldl mergeThread .empty

end CDevHws.Hw22
