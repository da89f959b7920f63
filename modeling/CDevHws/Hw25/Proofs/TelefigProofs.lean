import CDevHws.Hw25.Telefig
import Mathlib.Data.List.Basic

/-!
# Proofs: what is printed

The loop that prints ends before `len - 1`, an unsigned number. If nothing has been received, that
is the largest number there is, and the loop goes through the memory behind the buffer.
-/

namespace CDevHws.Hw25

/-! ## Receiving -/

/-- The buffer with these bytes at its beginning, and their number. -/
def Received.of (bytes : List UInt8) : Received :=
  ⟨bytes ++ List.replicate (bufSize - bytes.length) 0, UInt64.ofNat bytes.length⟩

theorem toNat_len_of {bytes : List UInt8} (h : bytes.length ≤ bufSize) :
    (Received.of bytes).len.toNat = bytes.length := by
  have hsize : bufSize < UInt64.size := by decide
  exact UInt64.toNat_ofNat_of_lt' (Nat.lt_of_le_of_lt h hsize)

theorem recv_of {bytes chunk : List UInt8} (h : bytes.length + chunk.length ≤ bufSize) :
    recv (.of bytes) chunk = .of (bytes ++ chunk) := by
  have hlen := toNat_len_of (Nat.le_of_add_right_le h)
  have htake : (bytes ++ List.replicate (bufSize - bytes.length) 0).take bytes.length = bytes :=
    List.take_left
  have hdrop : (bytes ++ List.replicate (bufSize - bytes.length) (0 : UInt8)).drop
      (bytes.length + chunk.length) =
        List.replicate (bufSize - (bytes.length + chunk.length)) 0 := by
    rw [List.drop_append, List.drop_replicate, List.drop_of_length_le (by omega)]
    have hrest : bufSize - bytes.length - (bytes.length + chunk.length - bytes.length) =
        bufSize - (bytes.length + chunk.length) := by
      omega
    rw [hrest]
    rfl
  unfold recv
  rw [hlen]
  unfold Received.of
  simp only [htake, hdrop, List.length_append, UInt64.ofNat_add]

theorem foldl_recv (bytes : List UInt8) {chunks : List (List UInt8)}
    (h : bytes.length + chunks.flatten.length ≤ bufSize) :
    chunks.foldl recv (.of bytes) = .of (bytes ++ chunks.flatten) := by
  induction chunks generalizing bytes with
  | nil => rw [List.flatten_nil, List.append_nil]; rfl
  | cons chunk chunks ih =>
    rw [List.flatten_cons, List.length_append] at h
    rw [List.foldl_cons, recv_of (by omega), ih, List.flatten_cons, List.append_assoc]
    rw [List.length_append]
    omega

/-- After the loop of `recv`, the buffer begins with the response. -/
theorem receive_eq (response : Response) : receive response = .of response.chunks.flatten :=
  foldl_recv [] (by rw [List.length_nil, Nat.zero_add]; exact response.fits)

theorem flatten_eq_nil_iff (response : Response) :
    response.chunks.flatten = [] ↔ response.chunks = [] := by
  rw [List.flatten_eq_nil_iff]
  constructor
  · intro hall
    by_contra hne
    obtain ⟨chunk, hchunk⟩ := List.exists_mem_of_ne_nil _ hne
    exact response.chunks_ne_nil chunk hchunk (hall chunk hchunk)
  · intro hnil chunk hchunk
    rw [hnil] at hchunk
    cases hchunk

/-! ## Printing -/

theorem mem_printFrom {r : Received} {fuel : ℕ} {i : UInt64} {p : UInt64 × Option UInt8}
    (h : p ∈ printFrom r fuel i) : p.1 < r.len - 1 ∧ p.2 = r.buf[p.1.toNat]? := by
  induction fuel generalizing i with
  | zero => cases h
  | succ fuel ih =>
    unfold printFrom at h
    split at h
    · next hlt =>
      rcases List.mem_cons.mp h with rfl | h
      · exact ⟨hlt, rfl⟩
      · exact ih h
    · cases h

/-- Every index that is read is one of a received byte, and this byte is read. -/
def ReadsReceived (response : Response) (reads : List (UInt64 × Option UInt8)) : Prop :=
  ∀ p ∈ reads, p.1 < (receive response).len ∧ p.2 = response.chunks.flatten[p.1.toNat]?

theorem readsReceived_of_ne_nil {response : Response} (h : response.chunks ≠ []) (fuel : ℕ)
    (i : UInt64) : ReadsReceived response (printFrom (receive response) fuel i) := by
  intro p hp
  obtain ⟨hlt, hbyte⟩ := mem_printFrom hp
  rw [receive_eq] at *
  have hlen := toNat_len_of response.fits
  have hpos : 0 < response.chunks.flatten.length :=
    List.length_pos_iff.mpr fun hnil => h ((flatten_eq_nil_iff response).mp hnil)
  have hsub : ((Received.of response.chunks.flatten).len - 1).toNat =
      response.chunks.flatten.length - 1 := by
    rw [UInt64.toNat_sub_of_le, hlen]
    · rfl
    · rw [UInt64.le_iff_toNat_le, hlen]
      exact hpos
  rw [UInt64.lt_iff_toNat_lt, hsub] at hlt
  refine ⟨?_, ?_⟩
  · rw [UInt64.lt_iff_toNat_lt, hlen]
    omega
  · rw [hbyte]
    exact List.getElem?_append_left (by omega)

/-- If nothing is received, the first index is read, unless there is none below the bound. -/
theorem printFrom_nil {response : Response} (h : response.chunks = []) {i : UInt64}
    (hi : i.toNat ≠ 2 ^ 64 - 1) : ∃ byte, (i, byte) ∈ printFrom (receive response) 1 i := by
  have hbound : ((receive response).len - 1).toNat = 2 ^ 64 - 1 := by
    rw [receive_eq, h]
    rfl
  have hlt : i < (receive response).len - 1 := by
    have hmax := i.toNat_lt
    rw [UInt64.lt_iff_toNat_lt, hbound]
    omega
  unfold printFrom
  rw [if_pos hlt]
  exact ⟨_, List.mem_cons_self⟩

/-- No bound is above the largest number. -/
theorem printFrom_max (r : Received) {i : UInt64} (hi : i.toNat = 2 ^ 64 - 1) (fuel : ℕ) :
    printFrom r fuel i = [] := by
  cases fuel with
  | zero => rfl
  | succ fuel =>
    have hbound := (r.len - 1).toNat_lt
    unfold printFrom
    rw [if_neg]
    rw [UInt64.lt_iff_toNat_lt]
    omega

theorem telefig_eq (font text : List UInt8) (response : Response) (fuel : ℕ) :
    telefig font text (command font text).length response fuel =
      some (printFrom (receive response) fuel (UInt64.ofNat (command font text).length)) :=
  if_neg fun h => h rfl

/-- For all arguments and every response: the loop that prints reads only received bytes, in any
number of rounds, if and only if a byte has been received, or the command is as long as no string
can be. -/
theorem telefig_reads_received_iff (font text : List UInt8) (response : Response) :
    (∀ fuel reads, telefig font text (command font text).length response fuel = some reads →
        ReadsReceived response reads) ↔
      response.chunks ≠ [] ∨ (command font text).length % 2 ^ 64 = 2 ^ 64 - 1 := by
  have hstart : (UInt64.ofNat (command font text).length).toNat =
      (command font text).length % 2 ^ 64 := UInt64.toNat_ofNat'
  constructor
  · intro hall
    by_contra hnot
    obtain ⟨hnil, hlong⟩ := not_or.mp hnot
    have hempty := not_not.mp hnil
    rw [← hstart] at hlong
    obtain ⟨byte, hread⟩ := printFrom_nil hempty hlong
    have hlt := (hall 1 _ (telefig_eq font text response 1) _ hread).1
    rw [receive_eq, hempty] at hlt
    exact UInt64.not_lt_zero hlt
  · rintro (hne | hlong) fuel reads hreads
    · rw [telefig_eq] at hreads
      rw [← Option.some.inj hreads]
      exact readsReceived_of_ne_nil hne fuel _
    · rw [telefig_eq, printFrom_max _ (hstart.trans hlong)] at hreads
      rw [← Option.some.inj hreads]
      intro p hp
      cases hp

/-- The server does not answer within the time: the first index is read though nothing has been
received. -/
theorem telefig_no_response : ∃ response : Response, response.chunks = [] ∧
    (receive response).len = 0 ∧
    telefig (bytesOf "isometric1") (bytesOf "Linux") 26 response 1 = some [(26, some 0)] := by
  refine ⟨⟨[], by simp, by simp⟩, rfl, rfl, ?_⟩
  decide +kernel

end CDevHws.Hw25
