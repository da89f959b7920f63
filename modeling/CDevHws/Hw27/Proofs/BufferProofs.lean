import CDevHws.Hw27.Proofs.PathProofs

/-!
# Proofs: the accesses of `do_read` to `in_buf`

`recv` may fill `in_buf` to its last byte, and the NUL goes behind what it has read. So a result of
2048 bytes that completes a request has its NUL in `out_buf`, and after one without a NUL `strstr`
reads on there. All shorter results leave the NUL at the end of a cleared buffer, and nothing goes
wrong.
-/

namespace CDevHws.Hw27

/-! ## What is accessed -/

/-- The access stays inside `in_buf`. -/
def Access.Inside : Access → Prop
  | .write i => i < bufsize
  | .scan last => ∃ i ∈ last, i < bufsize

/-- `in_buf` holds a NUL or the end of a request, before which `strstr` stops. -/
def Stops (b : Buffer) : Prop := 0 ∈ b.bytes ∨ crlfcrlf <:+: b.bytes

/-- At each result that `do_read` comes to, `in_buf` holds a NUL or the end of a request, and the
one with which it finds the request has fewer than 2048 bytes. -/
def Fits (ep : EpData) : List RecvResult → Prop
  | [] => True
  | .error :: _ => True
  | .data bytes :: rest =>
    Stops (fill ep (.data bytes)).inBuf ∧
      if Found (fill ep (.data bytes)) then bytes.length < bufsize
      else Fits (fill ep (.data bytes)) rest

theorem scan_inside_iff (ep : EpData) :
    (Access.scan (CString.strstrLast crlfcrlf ep.memory)).Inside ↔ Stops ep.inBuf := by
  have hne : crlfcrlf ≠ [] := List.cons_ne_nil _ _
  have hlast := CString.strstrLast_inside_iff hne ep.inBuf.bytes ep.outBuf.bytes
  rw [ep.inBuf.length_bytes] at hlast
  exact hlast

/-! ## `parse_request` -/

theorem tokenEnd_le (delim s : List UInt8) : tokenEnd delim s ≤ s.length := by
  have hskip := List.takeWhile_append_dropWhile (p := (· ∈ delim)) (l := s)
  have htoken := (List.takeWhile_prefix (· ∉ delim) (l := s.dropWhile (· ∈ delim))).length_le
  have hlen := congrArg List.length hskip
  rw [List.length_append] at hlen
  unfold tokenEnd
  omega

theorem tokenEnd_rest {delim s token rest : List UInt8}
    (h : CString.strtok delim s = some (token, rest)) (hne : rest ≠ []) :
    tokenEnd delim s + 1 + rest.length = s.length := by
  have hskip := congrArg List.length (List.takeWhile_append_dropWhile (p := (· ∈ delim)) (l := s))
  rw [List.length_append] at hskip
  unfold CString.strtok at h
  unfold tokenEnd
  cases hs : s.dropWhile (· ∈ delim) with
  | nil =>
    rw [hs] at h
    cases h
  | cons c t =>
    rw [hs] at h hskip
    cases h
    have htoken := congrArg List.length
      (List.takeWhile_append_dropWhile (p := (· ∉ delim)) (l := c :: t))
    have hrest := List.length_pos_iff.mpr hne
    rw [List.length_append] at htoken
    rw [List.length_drop] at hrest ⊢
    omega

/-- `strtok` puts its NULs inside the string or at its end. -/
theorem parseRequest_cuts_le {inputString : List UInt8} {i : ℕ}
    (h : i ∈ (parseRequest inputString).2) : i ≤ inputString.length := by
  have hfirst := tokenEnd_le [32] inputString
  unfold parseRequest at h
  cases htoken : CString.strtok [32] inputString with
  | none =>
    rw [htoken] at h
    cases h
  | some p =>
    obtain ⟨token, rest⟩ := p
    rw [htoken] at h
    simp only at h
    cases htoken' : CString.strtok [32] rest with
    | none =>
      rw [htoken'] at h
      rw [List.mem_singleton.mp h]
      exact hfirst
    | some p' =>
      have hne : rest ≠ [] := by
        rintro rfl
        cases htoken'
      have hlen := tokenEnd_rest htoken hne
      have hsecond := tokenEnd_le [32] rest
      rw [htoken'] at h
      simp only [List.mem_cons, List.not_mem_nil, or_false] at h
      omega

theorem parseAccesses_inside {inputString : List UInt8} (h : inputString.length < bufsize) :
    ∀ access ∈ parseAccesses inputString, access.Inside := by
  have hcuts : ∀ i ∈ (parseRequest inputString).2, i < bufsize :=
    fun i hi => (parseRequest_cuts_le hi).trans_lt h
  intro access hmem
  unfold parseAccesses at hmem
  split at hmem
  · rename_i first second hpair
    rw [hpair] at hcuts
    have hfirst : first < bufsize := hcuts first List.mem_cons_self
    have hsecond : second < bufsize := hcuts second (List.mem_cons_of_mem _ List.mem_cons_self)
    simp only [List.mem_cons, List.not_mem_nil, or_false] at hmem
    rcases hmem with rfl | rfl | rfl
    · exact ⟨second, rfl, hsecond⟩
    · exact hfirst
    · exact hsecond
  · rcases List.mem_cons.mp hmem with rfl | hmem
    · exact ⟨_, rfl, h⟩
    · obtain ⟨i, hi, rfl⟩ := List.mem_map.mp hmem
      exact hcuts i hi

/-! ## One call of `do_read` -/

/-- What is accessed after a result of `recv` and the call of `strstr`. -/
def accessesAfter (ep : EpData) (bytes : List UInt8) (rest : List RecvResult) : List Access :=
  if Found (fill ep (.data bytes)) then
    .write bytes.length :: parseAccesses
      (CString.ofBytes ((fill ep (.data bytes)).cut bytes.length).memory)
  else doReadAccesses (fill ep (.data bytes)) rest

theorem mem_doReadAccesses {ep : EpData} {bytes : List UInt8} {rest : List RecvResult}
    {access : Access} : access ∈ doReadAccesses ep (.data bytes :: rest) ↔
      (∃ i < bytes.length, .write i = access) ∨
      access = .scan (CString.strstrLast crlfcrlf (fill ep (.data bytes)).memory) ∨
      access ∈ accessesAfter ep bytes rest := by
  simp only [← List.mem_range, ← List.mem_map, ← List.mem_cons, ← List.mem_append]
  exact Iff.rfl

/-- Once the request is there, the accesses stay inside if and only if its NUL does. -/
theorem inside_after_found {ep : EpData} {bytes : List UInt8} {rest : List RecvResult}
    (hlen : bytes.length ≤ bufsize) (hfound : Found (fill ep (.data bytes))) :
    (∀ access ∈ accessesAfter ep bytes rest, access.Inside) ↔ bytes.length < bufsize := by
  unfold accessesAfter
  rw [if_pos hfound]
  refine ⟨fun h => h _ List.mem_cons_self, fun hlt access hmem => ?_⟩
  rcases List.mem_cons.mp hmem with rfl | hmem
  · exact hlt
  · refine parseAccesses_inside ?_ access hmem
    have hstring : CString.ofBytes ((fill ep (.data bytes)).cut bytes.length).memory =
        CString.ofBytes bytes := memory_cut ep hlen
    rw [hstring]
    exact (List.takeWhile_prefix _).length_le.trans_lt hlt

theorem inside_iff_fits {ep : EpData} {results : List RecvResult}
    (hlen : ∀ bytes, .data bytes ∈ results → bytes.length ≤ bufsize) :
    (∀ access ∈ doReadAccesses ep results, access.Inside) ↔ Fits ep results := by
  induction results generalizing ep with
  | nil => simp [doReadAccesses, Fits]
  | cons result rest ih =>
    cases result with
    | error => simp [doReadAccesses, Fits]
    | data bytes =>
      have hbytes := hlen bytes List.mem_cons_self
      have hafter : (∀ access ∈ accessesAfter ep bytes rest, access.Inside) ↔
          if Found (fill ep (.data bytes)) then bytes.length < bufsize
          else Fits (fill ep (.data bytes)) rest := by
        split_ifs with hfound
        · exact inside_after_found hbytes hfound
        · unfold accessesAfter
          rw [if_neg hfound]
          exact ih fun bytes' hmem => hlen bytes' (List.mem_cons_of_mem _ hmem)
      rw [Fits, ← hafter, ← scan_inside_iff]
      constructor
      · intro h
        exact ⟨h _ (mem_doReadAccesses.mpr (Or.inr (Or.inl rfl))),
          fun access hmem => h access (mem_doReadAccesses.mpr (Or.inr (Or.inr hmem)))⟩
      · rintro ⟨hscan, hrest⟩ access hmem
        rcases mem_doReadAccesses.mp hmem with ⟨i, hi, rfl⟩ | rfl | hmem
        · exact hi.trans_le hbytes
        · exact hscan
        · exact hrest access hmem

/-! ## What is written -/

theorem memory_cut_eq_set (ep : EpData) (i : ℕ) : (ep.cut i).memory = ep.memory.set i 0 := by
  have hlen := ep.inBuf.length_bytes
  unfold EpData.cut
  split_ifs with hi
  · show (ep.inBuf.set i 0).bytes ++ ep.outBuf.bytes = (ep.inBuf.bytes ++ ep.outBuf.bytes).set i 0
    rw [Buffer.bytes_set, List.set_append_left _ _ (by omega)]
  · show ep.inBuf.bytes ++ (ep.outBuf.set (i - bufsize) 0).bytes =
      (ep.inBuf.bytes ++ ep.outBuf.bytes).set i 0
    rw [Buffer.bytes_set, List.set_append_right _ _ (by omega), hlen]

theorem getElem?_memory_fill (ep : EpData) {bytes : List UInt8} {i : ℕ} (hi : bytes.length ≤ i) :
    (fill ep (.data bytes)).memory[i]? = ep.memory[i]? := by
  have htake : (bytes.take bufsize).length ≤ bytes.length := List.length_take_le' _ _
  rw [memory_fill, List.getElem?_append_right (by omega), List.getElem?_drop]
  exact congrArg (ep.memory[·]?) (by omega)

theorem write_mem_parseAccesses {inputString : List UInt8} {i : ℕ}
    (h : i ∈ (parseRequest inputString).2) : .write i ∈ parseAccesses inputString := by
  unfold parseAccesses
  split
  · rename_i first second hpair
    rw [hpair] at h
    simpa using h
  · exact List.mem_cons_of_mem _ (List.mem_map_of_mem h)

theorem getElem?_storeRequest {ep : EpData} {res i : ℕ} (hres : i ≠ res)
    (hcuts : i ∉ (parseRequest (CString.ofBytes (ep.cut res).memory)).2) :
    (storeRequest ep res).memory[i]? = ep.memory[i]? := by
  have hcut : ∀ (ep : EpData) (j : ℕ), j ≠ i → (ep.cut j).memory[i]? = ep.memory[i]? := by
    intro ep j hj
    rw [memory_cut_eq_set, List.getElem?_set_ne hj]
  have hfold : ∀ (cuts : List ℕ) (ep : EpData), i ∉ cuts →
      (cuts.foldl EpData.cut ep).memory[i]? = ep.memory[i]? := by
    intro cuts ep hnot
    refine List.foldlRecOn (motive := fun ep' => ep'.memory[i]? = ep.memory[i]?) cuts EpData.cut
      rfl ?_
    intro ep' h j hj
    rw [hcut ep' j fun hji => hnot (hji ▸ hj), h]
  exact (hfold _ _ hcuts).trans (hcut ep res hres.symm)

/-- Every byte that `do_read` changes is accessed. -/
theorem getElem?_memory_doRead {ep ep' : EpData} {results : List RecvResult} {acts : List Act}
    (h : doRead ep results = some (ep', acts)) {i : ℕ}
    (hi : .write i ∉ doReadAccesses ep results) : ep'.memory[i]? = ep.memory[i]? := by
  induction results generalizing ep acts with
  | nil => cases h
  | cons result rest ih =>
    rcases doRead_cases h with ⟨-, -, rfl, -⟩ | ⟨bytes, -, rfl, hfound, rfl, -⟩ |
      ⟨bytes, acts', rfl, hfound, hread, -⟩
    · rfl
    · have hle : bytes.length ≤ i :=
        le_of_not_gt fun hlt => hi (mem_doReadAccesses.mpr (Or.inl ⟨i, hlt, rfl⟩))
      have hafter : .write i ∉ accessesAfter ep bytes rest :=
        fun hmem => hi (mem_doReadAccesses.mpr (Or.inr (Or.inr hmem)))
      unfold accessesAfter at hafter
      rw [if_pos hfound, List.mem_cons, not_or] at hafter
      obtain ⟨hres, hcuts⟩ := hafter
      rw [getElem?_storeRequest (fun heq => hres (congrArg _ heq))
        fun hmem => hcuts (write_mem_parseAccesses hmem), getElem?_memory_fill ep hle]
    · have hle : bytes.length ≤ i :=
        le_of_not_gt fun hlt => hi (mem_doReadAccesses.mpr (Or.inl ⟨i, hlt, rfl⟩))
      have hafter : .write i ∉ accessesAfter ep bytes rest :=
        fun hmem => hi (mem_doReadAccesses.mpr (Or.inr (Or.inr hmem)))
      unfold accessesAfter at hafter
      rw [if_neg hfound] at hafter
      rw [ih hread hafter, getElem?_memory_fill ep hle]

/-! ## Short results -/

/-- The last byte of `in_buf` is a NUL. -/
def EndsNul (b : Buffer) : Prop := b.bytes[bufsize - 1]? = some 0

theorem endsNul_zero : EndsNul .zero := by
  unfold EndsNul Buffer.zero
  rw [List.getElem?_replicate]
  rfl

theorem EndsNul.write {b : Buffer} (h : EndsNul b) {data : List UInt8}
    (hlen : data.length < bufsize) : EndsNul (b.write data) := by
  have hle : data.length ≤ bufsize - 1 := by omega
  unfold EndsNul
  rw [Buffer.bytes_write, List.take_of_length_le (Nat.le_of_lt hlen),
    List.getElem?_append_right hle, List.getElem?_drop, Nat.add_sub_cancel' hle]
  exact h

theorem EndsNul.mem {b : Buffer} (h : EndsNul b) : 0 ∈ b.bytes := List.mem_of_getElem? h

theorem EndsNul.set {b : Buffer} (h : EndsNul b) (i : ℕ) : EndsNul (b.set i 0) := by
  have hlast : bufsize - 1 < b.bytes.length := by
    rw [b.length_bytes]
    decide
  unfold EndsNul
  rw [Buffer.bytes_set, List.getElem?_set]
  split_ifs
  · rfl
  · omega
  · exact h

theorem EndsNul.cut {ep : EpData} (h : EndsNul ep.inBuf) (i : ℕ) : EndsNul (ep.cut i).inBuf := by
  unfold EpData.cut
  split_ifs
  · exact h.set i
  · exact h

theorem EndsNul.storeRequest {ep : EpData} (h : EndsNul ep.inBuf) (res : ℕ) :
    EndsNul (storeRequest ep res).inBuf := by
  have hcuts : ∀ (cuts : List ℕ) (ep : EpData), EndsNul ep.inBuf →
      EndsNul (cuts.foldl EpData.cut ep).inBuf := by
    intro cuts ep h
    refine List.foldlRecOn (motive := fun ep => EndsNul ep.inBuf) cuts EpData.cut h ?_
    intro ep' h' i _
    exact h'.cut i
  exact hcuts _ _ (h.cut res)

/-- As long as all results are shorter than the buffer, the NUL at its end stays. -/
theorem fits_of_short {ep : EpData} {results : List RecvResult} (hnul : EndsNul ep.inBuf)
    (hshort : ∀ bytes, .data bytes ∈ results → bytes.length < bufsize) : Fits ep results := by
  induction results generalizing ep with
  | nil => trivial
  | cons result results ih =>
    cases result with
    | error => trivial
    | data bytes =>
      have hbytes := hshort bytes List.mem_cons_self
      have hnul' : EndsNul (fill ep (.data bytes)).inBuf := hnul.write hbytes
      refine ⟨Or.inl hnul'.mem, ?_⟩
      split_ifs
      · exact hbytes
      · exact ih hnul' fun bytes' hmem => hshort bytes' (List.mem_cons_of_mem _ hmem)

theorem endsNul_doRead {ep ep' : EpData} {results : List RecvResult} {acts : List Act}
    (hnul : EndsNul ep.inBuf) (hshort : ∀ bytes, .data bytes ∈ results → bytes.length < bufsize)
    (h : doRead ep results = some (ep', acts)) : EndsNul ep'.inBuf := by
  induction results generalizing ep acts with
  | nil => cases h
  | cons result results ih =>
    rcases doRead_cases h with ⟨-, -, rfl, -⟩ | ⟨bytes, -, rfl, -, rfl, -⟩ |
      ⟨bytes, acts', rfl, -, hread, -⟩
    · exact hnul
    · have hbytes := hshort bytes List.mem_cons_self
      exact EndsNul.storeRequest (hnul.write hbytes) bytes.length
    · have hbytes := hshort bytes List.mem_cons_self
      exact ih (hnul.write hbytes) (fun bytes' hmem => hshort bytes' (List.mem_cons_of_mem _ hmem))
        hread

/-! ## Full results -/

/-- The letter "a", again and again. -/
def letters (size : ℕ) : List UInt8 := List.replicate size 97

theorem mem_write_letters {b : Buffer} {size : ℕ} {c : UInt8}
    (h : c ∈ (b.write (letters size)).bytes) : c = 97 ∨ c ∈ b.bytes := by
  rw [Buffer.bytes_write] at h
  rcases List.mem_append.mp h with h | h
  · exact Or.inl (List.eq_of_mem_replicate (List.mem_of_mem_take h))
  · exact Or.inr (List.mem_of_mem_drop h)

/-- A string that ends in `in_buf` has only bytes of it. -/
theorem not_found_of_notMem {ep : EpData} (hnul : EndsNul ep.inBuf) (hcr : 13 ∉ ep.inBuf.bytes) :
    ¬ Found ep := by
  intro hfound
  have hmem : 13 ∈ CString.ofBytes ep.memory := hfound.subset List.mem_cons_self
  obtain ⟨front, back, hsplit⟩ := List.append_of_mem hnul.mem
  unfold EpData.memory at hmem
  rw [hsplit, List.append_assoc, List.cons_append, CString.ofBytes_append_nul] at hmem
  refine hcr ?_
  rw [hsplit]
  exact List.mem_append_left _ ((List.takeWhile_prefix _).subset hmem)

/-- If a result fills the buffer with letters, and only letters have come before it, `strstr` does
not stop in the buffer. -/
theorem not_fits_letters {sizes : List ℕ} {ep : EpData} (hnul : EndsNul ep.inBuf)
    (hcr : 13 ∉ ep.inBuf.bytes) (hfull : ∃ size ∈ sizes, bufsize ≤ size) :
    ¬ Fits ep (sizes.map fun size => .data (letters size)) := by
  induction sizes generalizing ep with
  | nil =>
    obtain ⟨size, hmem, -⟩ := hfull
    cases hmem
  | cons size sizes ih =>
    rintro ⟨hstops, hrest⟩
    have hcr' : 13 ∉ (fill ep (.data (letters size))).inBuf.bytes := by
      intro hmem
      rcases mem_write_letters hmem with h | h
      · cases h
      · exact hcr h
    by_cases hsize : bufsize ≤ size
    · have hbytes : (fill ep (.data (letters size))).inBuf.bytes = letters bufsize := by
        have htake : (letters size).take bufsize = letters bufsize := by
          unfold letters
          rw [List.take_replicate, Nat.min_eq_left hsize]
        have hdrop : ep.inBuf.bytes.drop (letters bufsize).length = [] :=
          List.drop_eq_nil_of_le (by rw [ep.inBuf.length_bytes, letters, List.length_replicate])
        show (ep.inBuf.write (letters size)).bytes = _
        rw [Buffer.bytes_write, htake, hdrop, List.append_nil]
      rcases hstops with hzero | hfound
      · rw [hbytes] at hzero
        cases List.eq_of_mem_replicate hzero
      · exact hcr' (hfound.subset List.mem_cons_self)
    · have hnul' : EndsNul (fill ep (.data (letters size))).inBuf :=
        hnul.write (by rw [letters, List.length_replicate]; omega)
      rw [if_neg (not_found_of_notMem hnul' hcr')] at hrest
      refine ih hnul' hcr' ?_ hrest
      obtain ⟨full, hmem, hle⟩ := hfull
      rcases List.mem_cons.mp hmem with rfl | hmem
      · exact absurd hle hsize
      · exact ⟨full, hmem, hle⟩

theorem inside_of_short {ep : EpData} {results : List RecvResult} (hnul : EndsNul ep.inBuf)
    (hshort : ∀ bytes, .data bytes ∈ results → bytes.length < bufsize) :
    ∀ access ∈ doReadAccesses ep results, access.Inside := by
  rw [inside_iff_fits fun bytes hmem => Nat.le_of_lt (hshort bytes hmem)]
  exact fits_of_short hnul hshort

/-- In a cleared buffer, some contents of results of these sizes lead out of it if one is full. -/
theorem inside_all_iff {ep : EpData} {sizes : List ℕ} (hzero : ep.inBuf = .zero)
    (hle : ∀ size ∈ sizes, size ≤ bufsize) :
    (∀ contents : List (List UInt8), contents.map List.length = sizes →
      ∀ access ∈ doReadAccesses ep (contents.map .data), access.Inside) ↔
        ∀ size ∈ sizes, size < bufsize := by
  have hnul : EndsNul ep.inBuf := hzero ▸ endsNul_zero
  constructor
  · intro hall
    by_contra hfull
    push Not at hfull
    have hcr : 13 ∉ ep.inBuf.bytes := by
      rw [hzero]
      intro hmem
      cases List.eq_of_mem_replicate hmem
    have hsizes : (sizes.map letters).map List.length = sizes := by
      rw [List.map_map]
      exact (List.map_congr_left fun size _ => List.length_replicate).trans (List.map_id sizes)
    have hletters := hall (sizes.map letters) hsizes
    rw [List.map_map, inside_iff_fits] at hletters
    · exact not_fits_letters hnul hcr hfull hletters
    · intro bytes hmem
      obtain ⟨size, hsize, hbytes⟩ := List.mem_map.mp hmem
      cases hbytes
      rw [letters, List.length_replicate]
      exact hle size hsize
  · rintro hshort contents rfl
    refine inside_of_short hnul fun bytes hmem => ?_
    obtain ⟨bytes', hmem', hbytes⟩ := List.mem_map.mp hmem
    cases hbytes
    exact hshort _ (List.mem_map_of_mem hmem')

/-- For every record and every sequence of results of `recv`, `do_read` stays inside `in_buf` if and
only if at each result that it comes to, `in_buf` holds a NUL or the end of a request, and the
result with which it finds the request has fewer than 2048 bytes. With a cleared buffer, it stays
inside for all contents of results of these sizes if and only if all of them are below 2048. With
shorter results, there is still a NUL at the end of the buffer for the next call. -/
theorem do_read_inside_iff (ep : EpData) (results : List RecvResult) :
    ((∀ bytes, .data bytes ∈ results → bytes.length ≤ bufsize) →
      ((∀ access ∈ doReadAccesses ep results, access.Inside) ↔ Fits ep results)) ∧
    (∀ sizes : List ℕ, ep.inBuf = .zero → (∀ size ∈ sizes, size ≤ bufsize) →
      ((∀ contents : List (List UInt8), contents.map List.length = sizes →
        ∀ access ∈ doReadAccesses ep (contents.map .data), access.Inside) ↔
          ∀ size ∈ sizes, size < bufsize)) ∧
    (EndsNul ep.inBuf → (∀ bytes, .data bytes ∈ results → bytes.length < bufsize) →
      (∀ access ∈ doReadAccesses ep results, access.Inside) ∧
      ∀ ep' acts, doRead ep results = some (ep', acts) → EndsNul ep'.inBuf) := by
  refine ⟨inside_iff_fits, fun sizes => inside_all_iff, ?_⟩
  intro hnul hshort
  refine ⟨inside_of_short hnul hshort, ?_⟩
  intro ep' acts hread
  exact endsNul_doRead hnul hshort hread

/-- A request of 2048 bytes. -/
def fullRequest : List UInt8 := ascii "GET /" ++ letters 2030 ++ ascii " HTTP/1.1\r\n\r\n"

/-- The NUL after a request of 2048 bytes goes to `out_buf`. -/
theorem do_read_overruns : fullRequest.length = bufsize ∧
    (∃ ep acts, doRead .zero [.data fullRequest] = some (ep, acts)) ∧
    .write bufsize ∈ doReadAccesses .zero [.data fullRequest] ∧
    ¬ (Access.write bufsize).Inside := by
  have hlen : fullRequest.length = bufsize := by
    unfold fullRequest letters
    rw [List.length_append, List.length_append, List.length_replicate]
    rfl
  have hnul : 0 ∉ fullRequest := by
    intro hmem
    rcases List.mem_append.mp hmem with hmem | hmem
    · rcases List.mem_append.mp hmem with hmem | hmem
      · exact absurd hmem (by decide)
      · cases List.eq_of_mem_replicate hmem
    · exact absurd hmem (by decide)
  have hends : crlfcrlf <:+: CString.ofBytes fullRequest := by
    rw [CString.ofBytes_eq_self hnul]
    refine List.IsInfix.trans ?_ (List.suffix_append _ _).isInfix
    decide
  have hfound : Found (fill .zero (.data fullRequest)) := found_single .zero hlen.le hends
  refine ⟨hlen, ⟨_, _, doRead_found hfound⟩, ?_, lt_irrefl bufsize⟩
  refine mem_doReadAccesses.mpr (Or.inr (Or.inr ?_))
  unfold accessesAfter
  rw [if_pos hfound, hlen]
  exact List.mem_cons_self

end CDevHws.Hw27
