import CDevHws.Hw27.Proofs.BufferProofs
import Mathlib.Data.List.GetD

/-!
# Proofs: the end of `do_read`

Each `recv` writes over the beginning of `in_buf`. If the peer closes the connection, `recv` returns
0 again and again, the buffer does not change any more, and `do_read` does not return unless the end
of a request stands in it.
-/

namespace CDevHws.Hw27

open CString (strtok strncpy)

/-! ## The bytes of the buffer -/

/-- The end of a request stands in memory: CR LF CR LF, and no NUL before it. -/
def EndsRequest (memory : ℕ → UInt8) : Prop :=
  ∃ i, memory i = 13 ∧ memory (i + 1) = 10 ∧ memory (i + 2) = 13 ∧ memory (i + 3) = 10 ∧
    ∀ j < i, memory j ≠ 0

/-- What stands in memory when a piece has come over its beginning. -/
def overlay (piece : List UInt8) (memory : ℕ → UInt8) (i : ℕ) : UInt8 := piece.getD i (memory i)

/-- Behind the end of the arrays a NUL is supposed. -/
def EpData.byte (ep : EpData) (i : ℕ) : UInt8 := ep.memory.getD i 0

theorem crlfcrlf_prefix_iff {bytes : List UInt8} : crlfcrlf <+: bytes ↔
    bytes.getD 0 0 = 13 ∧ bytes.getD 1 0 = 10 ∧ bytes.getD 2 0 = 13 ∧ bytes.getD 3 0 = 10 := by
  unfold crlfcrlf
  match bytes with
  | [] => simp
  | [a] => simp
  | [a, b] => simp
  | [a, b, c] => simp
  | a :: b :: c :: d :: rest => simp [List.cons_prefix_cons, eq_comm]

theorem notMem_take_iff {bytes : List UInt8} {i : ℕ} (hi : i < bytes.length) :
    0 ∉ bytes.take i ↔ ∀ j < i, bytes.getD j 0 ≠ 0 := by
  constructor
  · intro hnul j hj hzero
    rw [List.getD_eq_getElem _ _ (hj.trans hi)] at hzero
    exact hnul (List.mem_take_iff_getElem.mpr ⟨j, by omega, hzero⟩)
  · intro hall hmem
    obtain ⟨j, hj, hzero⟩ := List.mem_take_iff_getElem.mp hmem
    refine hall j (by omega) ?_
    rw [List.getD_eq_getElem _ _ (by omega), hzero]

theorem found_iff (ep : EpData) : Found ep ↔ EndsRequest ep.byte := by
  unfold Found
  rw [CString.isInfix_ofBytes_iff (by decide)]
  refine exists_congr fun i => ?_
  have hget : ∀ k, (ep.memory.drop i).getD k 0 = ep.byte (i + k) := by
    intro k
    unfold EpData.byte
    rw [List.getD_eq_getElem?_getD, List.getD_eq_getElem?_getD, List.getElem?_drop]
  rw [crlfcrlf_prefix_iff, hget, hget, hget, hget, Nat.add_zero]
  -- the byte 13 is inside the arrays, so the bytes before it are those of the list
  have hinside : ep.byte i = 13 → i < ep.memory.length := by
    intro h
    by_contra hout
    unfold EpData.byte at h
    rw [List.getD_eq_default _ _ (Nat.le_of_not_lt hout)] at h
    cases h
  constructor
  · rintro ⟨hnul, h₀, h₁, h₂, h₃⟩
    exact ⟨h₀, h₁, h₂, h₃, (notMem_take_iff (hinside h₀)).mp hnul⟩
  · rintro ⟨h₀, h₁, h₂, h₃, hnul⟩
    exact ⟨(notMem_take_iff (hinside h₀)).mpr hnul, h₀, h₁, h₂, h₃⟩

theorem byte_fill (ep : EpData) (bytes : List UInt8) :
    (fill ep (.data bytes)).byte = overlay (bytes.take bufsize) ep.byte := by
  funext i
  unfold EpData.byte overlay
  rw [memory_fill]
  by_cases hi : i < (bytes.take bufsize).length
  · rw [List.getD_append _ _ _ _ hi, List.getD_eq_getElem _ _ hi, List.getD_eq_getElem _ _ hi]
  · rw [not_lt] at hi
    rw [List.getD_append_right _ _ _ _ hi, List.getD_eq_default _ _ hi,
      List.getD_eq_getElem?_getD, List.getElem?_drop, Nat.add_sub_cancel' hi,
      ← List.getD_eq_getElem?_getD]

/-! ## Returning -/

/-- The buffer after the first `n` results. -/
def filled (ep : EpData) (results : ℕ → RecvResult) (n : ℕ) : EpData :=
  ((List.range n).map results).foldl fill ep

theorem filled_succ (ep : EpData) (results : ℕ → RecvResult) (n : ℕ) :
    filled ep results (n + 1) = filled (fill ep (results 0)) (fun i => results (i + 1)) n := by
  unfold filled
  rw [List.range_succ_eq_map, List.map_cons, List.map_map]
  rfl

theorem map_range_succ (results : ℕ → RecvResult) (n : ℕ) : (List.range (n + 1)).map results =
    results 0 :: (List.range n).map fun i => results (i + 1) := by
  rw [List.range_succ_eq_map, List.map_cons, List.map_map]
  rfl

/-- If `do_read` returns, a `recv` has failed or the end of a request is there. -/
theorem exists_of_doRead {n : ℕ} {ep ep' : EpData} {results : ℕ → RecvResult} {acts : List Act}
    (h : doRead ep ((List.range n).map results) = some (ep', acts)) :
    ∃ n, results n = .error ∨ Found (filled ep results (n + 1)) := by
  induction n generalizing ep results acts with
  | zero => cases h
  | succ n ih =>
    rw [map_range_succ] at h
    rcases doRead_cases h with ⟨-, herror, -⟩ | ⟨bytes, -, hbytes, hfound, -⟩ |
      ⟨bytes, acts', hbytes, -, hread, -⟩
    · exact ⟨0, Or.inl herror⟩
    · rw [← hbytes] at hfound
      exact ⟨0, Or.inr hfound⟩
    · rw [← hbytes] at hread
      obtain ⟨m, hm⟩ := ih hread
      refine ⟨m + 1, hm.imp_right fun hfound => ?_⟩
      rw [filled_succ]
      exact hfound

theorem doRead_one {ep : EpData} {result : RecvResult}
    (h : result = .error ∨ Found (fill ep result)) :
    ∃ ep' acts, doRead ep [result] = some (ep', acts) := by
  cases result with
  | error => exact ⟨ep, _, doRead_error ep⟩
  | data bytes =>
    rcases h with herror | hfound
    · cases herror
    · exact ⟨_, _, doRead_found hfound⟩

theorem doRead_of_exists {n : ℕ} {ep : EpData} {results : ℕ → RecvResult}
    (h : results n = .error ∨ Found (filled ep results (n + 1))) :
    ∃ n ep' acts, doRead ep ((List.range n).map results) = some (ep', acts) := by
  induction n generalizing ep results with
  | zero =>
    rw [filled_succ] at h
    exact ⟨1, doRead_one h⟩
  | succ n ih =>
    by_cases hfirst : results 0 = .error ∨ Found (fill ep (results 0))
    · exact ⟨1, doRead_one hfirst⟩
    · obtain ⟨herror, hfound⟩ := not_or.mp hfirst
      rw [filled_succ] at h
      have hrest : ∃ n ep' acts, doRead (fill ep (results 0))
          ((List.range n).map fun i => results (i + 1)) = some (ep', acts) := ih h
      obtain ⟨m, ep', acts, hread⟩ := hrest
      refine ⟨m + 1, ?_⟩
      rw [map_range_succ]
      cases hresult : results 0 with
      | error => exact absurd hresult herror
      | data bytes =>
        rw [hresult] at hfound hread
        rw [doRead_not_found hfound, hread]
        exact ⟨_, _, rfl⟩

/-- What stands at each index after the first `n` results: the byte of the last one that reaches so
far. -/
def latest (ep : EpData) (results : ℕ → RecvResult) : ℕ → ℕ → UInt8
  | 0 => ep.byte
  | n + 1 =>
    match results n with
    | .error => latest ep results n
    | .data bytes => overlay (bytes.take bufsize) (latest ep results n)

theorem byte_filled (ep : EpData) (results : ℕ → RecvResult) (n : ℕ) :
    (filled ep results n).byte = latest ep results n := by
  induction n with
  | zero => rfl
  | succ n ih =>
    have hlast : filled ep results (n + 1) = fill (filled ep results n) (results n) := by
      unfold filled
      rw [List.range_succ, List.map_append, List.foldl_append]
      rfl
    rw [hlast, latest]
    cases results n with
    | error => exact ih
    | data bytes => rw [byte_fill, ih]

section stop

variable {ep : EpData} {results : ℕ → RecvResult} {N : ℕ}
  (hstop : ∀ n ≥ N, results n = .error ∨ results n = .data [])
include hstop

/-- When nothing comes any more, the buffer stays as it is. -/
theorem latest_of_ge {n : ℕ} (hn : N ≤ n) : latest ep results n = latest ep results N := by
  induction n, hn using Nat.le_induction with
  | base => rfl
  | succ n hn ih =>
    rw [latest]
    rcases hstop n hn with h | h
    · rw [h]
      exact ih
    · rw [h]
      exact ih

/-- For every record and every sequence of results of `recv` that are failures or empty from some
point on: `do_read` returns after finitely many calls if and only if one of them fails or, after one
of the results up to this point, CR LF CR LF stands in memory before any NUL, where each index has
the byte of the last result that has reached it. -/
theorem do_read_returns_iff :
    (∃ n ep' acts, doRead ep ((List.range n).map results) = some (ep', acts)) ↔
      (∃ n, results n = .error) ∨ ∃ n ≤ N, EndsRequest (latest ep results (n + 1)) := by
  constructor
  · rintro ⟨n, ep', acts, hread⟩
    obtain ⟨n, herror | hfound⟩ := exists_of_doRead hread
    · exact Or.inl ⟨n, herror⟩
    · rw [found_iff, byte_filled] at hfound
      right
      by_cases hn : n ≤ N
      · exact ⟨n, hn, hfound⟩
      · refine ⟨N, Nat.le_refl N, ?_⟩
        rw [latest_of_ge hstop (by omega)] at hfound
        rwa [latest_of_ge hstop (Nat.le_succ N)]
  · rintro (⟨n, herror⟩ | ⟨n, -, hends⟩)
    · exact doRead_of_exists (Or.inl herror)
    · rw [← byte_filled, ← found_iff] at hends
      exact doRead_of_exists (Or.inr hends)

end stop

/-- A request line without its end, then two line ends alone, and then the connection is closed. -/
def twoPieces : ℕ → RecvResult
  | 0 => .data (ascii "GET /a")
  | 1 => .data (ascii "\r\n\r\n")
  | _ + 2 => .data []

/-- The second piece comes over the first one, so the end of a request is found at once. -/
theorem do_read_returns_two : ∃ n ep' acts,
    doRead .zero ((List.range n).map twoPieces) = some (ep', acts) := by
  have hstop : ∀ n ≥ 2, twoPieces n = .error ∨ twoPieces n = .data [] := by
    intro n hn
    obtain ⟨m, rfl⟩ := Nat.exists_eq_add_of_le' hn
    exact Or.inr rfl
  refine (do_read_returns_iff hstop).mpr (Or.inr ⟨1, by omega, 0, rfl, rfl, rfl, rfl, ?_⟩)
  exact fun j hj => absurd hj (Nat.not_lt_zero j)

/-- In a record of zeros, the string is what has been read. -/
theorem ofBytes_fill_zero {bytes : List UInt8} (hlen : bytes.length < bufsize) :
    CString.ofBytes (fill .zero (.data bytes)).memory = CString.ofBytes bytes := by
  have hzeros : (List.replicate bufsize (0 : UInt8)).drop bytes.length =
      0 :: List.replicate (bufsize - bytes.length - 1) 0 := by
    rw [List.drop_replicate, ← List.replicate_succ]
    exact congrArg (List.replicate · 0) (by omega)
  have hmemory : (fill .zero (.data bytes)).memory = bytes ++
      0 :: (List.replicate (bufsize - bytes.length - 1) 0 ++ List.replicate bufsize 0) := by
    show bytes.take bufsize ++ (List.replicate bufsize 0).drop (bytes.take bufsize).length ++
      List.replicate bufsize 0 = _
    rw [List.take_of_length_le (Nat.le_of_lt hlen), hzeros, List.append_assoc]
    rfl
  rw [hmemory, CString.ofBytes_append_nul]

/-- The letter G is read, and then the peer closes the connection. -/
def halfRequest : ℕ → RecvResult
  | 0 => .data [71]
  | _ + 1 => .data []

theorem filled_halfRequest (n : ℕ) :
    filled .zero halfRequest (n + 1) = fill .zero (.data [71]) := by
  rw [filled_succ]
  show filled (fill .zero (.data [71])) (fun _ => .data []) n = _
  generalize fill .zero (.data [71]) = ep
  induction n with
  | zero => rfl
  | succ n ih =>
    rw [filled_succ]
    exact ih

theorem do_read_hangs : (∀ n ≥ 1, halfRequest n = .data []) ∧
    ¬ ∃ n ep' acts, doRead .zero ((List.range n).map halfRequest) = some (ep', acts) := by
  refine ⟨fun n hn => ?_, ?_⟩
  · obtain ⟨m, rfl⟩ := Nat.exists_eq_add_of_le' hn
    rfl
  · rintro ⟨n, ep', acts, hread⟩
    obtain ⟨m, herror | hfound⟩ := exists_of_doRead hread
    · cases m <;> cases herror
    · rw [filled_halfRequest] at hfound
      have hlen : [71].length < bufsize := by decide
      have hstring : CString.ofBytes (fill .zero (.data [71])).memory = [71] :=
        ofBytes_fill_zero hlen
      unfold Found at hfound
      rw [hstring] at hfound
      exact absurd hfound.length_le (by decide)

end CDevHws.Hw27
