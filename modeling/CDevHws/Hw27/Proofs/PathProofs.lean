import CDevHws.Hw27.Chttp
import CDevHws.Lib.Path

/-!
# Proofs: the paths that `do_write` opens

`parse_request` takes the second word of the request, drops its first byte and cuts the rest to 254
bytes; nothing else is checked. So the path stays inside the directory if and only if what the
client has sent does.
-/

namespace CDevHws.Hw27

open CString (strtok strncpy)

/-! ## The request -/

/-- The second word of a request line. -/
def target (request : List UInt8) : List UInt8 :=
  (((request.dropWhile (· ∈ [32])).dropWhile (· ∉ [32])).dropWhile (· ∈ [32])).takeWhile (· ∉ [32])

/-- The bytes of the second word after its first one, up to the 254th, do not begin with a slash,
and in them the scanner never meets more ".." than ordinary names. -/
def Harmless (request : List UInt8) : Prop :=
  let bytes := ((target request).drop 1).take (strlenmax - 1)
  bytes.head? ≠ some 47 ∧ Path.scan 0 .empty bytes = true

theorem dropWhile_drop_one {delim : List UInt8} (s : List UInt8) :
    (((s.dropWhile (· ∉ delim)).drop 1).dropWhile (· ∈ delim)) =
      (s.dropWhile (· ∉ delim)).dropWhile (· ∈ delim) := by
  cases hs : s.dropWhile (· ∉ delim) with
  | nil => rfl
  | cons c rest =>
    have hc : c ∈ delim := by
      have hhead := List.head?_dropWhile_not (· ∉ delim) s
      rw [hs] at hhead
      simpa using hhead
    rw [List.dropWhile_cons_of_pos (by simpa using hc)]
    rfl

theorem parseRequest_url (request : List UInt8) :
    (parseRequest request).1 = ((target request).drop 1).take (strlenmax - 1) := by
  unfold parseRequest target
  cases hfirst : request.dropWhile (· ∈ [32]) with
  | nil =>
    have hnone : strtok [32] request = none := CString.strtok_of_nil hfirst
    rw [hnone]
    rfl
  | cons c s =>
    rw [CString.strtok_of_ne_nil hfirst (List.cons_ne_nil c s), ← dropWhile_drop_one]
    simp only
    generalize ((c :: s).dropWhile (· ∉ [32])).drop 1 = rest
    cases hsecond : rest.dropWhile (· ∈ [32]) with
    | nil =>
      rw [CString.strtok_of_nil hsecond]
      rfl
    | cons d t =>
      rw [CString.strtok_of_ne_nil hsecond (List.cons_ne_nil d t)]
      rfl

/-! ## The string that is parsed -/

/-- After the NUL is set, the string in `in_buf` is what the last `recv` has read. -/
theorem memory_cut (ep : EpData) {bytes : List UInt8} (hlen : bytes.length ≤ bufsize) :
    CString.ofBytes ({ ep with inBuf := ep.inBuf.write bytes }.cut bytes.length).memory =
      CString.ofBytes bytes := by
  have htake : bytes.take bufsize = bytes := List.take_of_length_le hlen
  have hbuf : (ep.inBuf.write bytes).bytes = bytes ++ ep.inBuf.bytes.drop bytes.length := by
    rw [Buffer.bytes_write, htake]
  unfold EpData.cut EpData.memory
  by_cases hfull : bytes.length < bufsize
  · have hdrop : (ep.inBuf.bytes.drop bytes.length).length ≠ 0 := by
      rw [List.length_drop, ep.inBuf.length_bytes]
      omega
    cases htail : ep.inBuf.bytes.drop bytes.length with
    | nil => exact absurd (congrArg List.length htail) hdrop
    | cons c tail =>
      have hset : ((ep.inBuf.write bytes).set bytes.length 0).bytes = bytes ++ 0 :: tail := by
        rw [Buffer.bytes_set, hbuf, htail, List.set_append_right _ _ (Nat.le_refl _), Nat.sub_self]
        rfl
      rw [if_pos hfull]
      show CString.ofBytes (((ep.inBuf.write bytes).set bytes.length 0).bytes ++ _) = _
      rw [hset, List.append_assoc]
      exact CString.ofBytes_append_nul bytes _
  · -- the NUL goes to the first byte of `out_buf`
    have heq : bytes.length = bufsize := by omega
    have hdrop : ep.inBuf.bytes.drop bytes.length = [] :=
      List.drop_eq_nil_of_le (by rw [ep.inBuf.length_bytes, heq])
    have hout := ep.outBuf.length_bytes
    cases htail : ep.outBuf.bytes with
    | nil =>
      rw [htail] at hout
      cases hout
    | cons c tail =>
      have hset : (ep.outBuf.set 0 0).bytes = 0 :: tail := by
        rw [Buffer.bytes_set, htail]
        rfl
      rw [if_neg hfull, heq, Nat.sub_self]
      show CString.ofBytes ((ep.inBuf.write bytes).bytes ++ (ep.outBuf.set 0 0).bytes) = _
      rw [hbuf, hdrop, List.append_nil, hset]
      exact CString.ofBytes_append_nul bytes tail

/-- What `do_read` stores is the URL of the bytes that the last `recv` has read. -/
theorem storeRequest_url (ep : EpData) {bytes : List UInt8} (hlen : bytes.length ≤ bufsize) :
    let stored := storeRequest { ep with inBuf := ep.inBuf.write bytes } bytes.length
    stored.url = (parseRequest (CString.ofBytes bytes)).1 ∧ stored.urlLen = stored.url.length := by
  have hstring : CString.ofBytes
      { ({ ep with inBuf := ep.inBuf.write bytes } : EpData).cut bytes.length with
        inSize := bytes.length }.memory = CString.ofBytes bytes := memory_cut ep hlen
  unfold storeRequest
  simp only
  rw [hstring]
  exact ⟨rfl, trivial⟩

/-! ## One result of `recv` -/

/-- What a result of `recv` makes of the buffer. -/
def fill (ep : EpData) : RecvResult → EpData
  | .error => ep
  | .data bytes => { ep with inBuf := ep.inBuf.write bytes }

/-- `strstr` finds the end of a request. -/
def Found (ep : EpData) : Prop := crlfcrlf <:+: CString.ofBytes ep.memory

instance (ep : EpData) : Decidable (Found ep) :=
  inferInstanceAs (Decidable (crlfcrlf <:+: CString.ofBytes ep.memory))

theorem memory_fill (ep : EpData) (bytes : List UInt8) : (fill ep (.data bytes)).memory =
    bytes.take bufsize ++ ep.memory.drop (bytes.take bufsize).length := by
  have hle : (bytes.take bufsize).length ≤ ep.inBuf.bytes.length := by
    rw [ep.inBuf.length_bytes]
    exact List.length_take_le _ _
  show (ep.inBuf.write bytes).bytes ++ ep.outBuf.bytes = _ ++ (ep.inBuf.bytes ++ _).drop _
  rw [Buffer.bytes_write, List.drop_append_of_le_length hle, List.append_assoc]

theorem doRead_error (ep : EpData) :
    doRead ep [.error] = some (ep, [.recv ep.sockfd .error]) := rfl

theorem doRead_found {ep : EpData} {bytes : List UInt8} (h : Found (fill ep (.data bytes))) :
    doRead ep [.data bytes] = some (storeRequest (fill ep (.data bytes)) bytes.length,
      [.recv ep.sockfd (.data bytes),
        .request ep.sockfd (storeRequest (fill ep (.data bytes)) bytes.length).url]) := by
  unfold doRead
  exact (if_pos h).trans (if_pos rfl)

theorem doRead_not_found {ep : EpData} {bytes : List UInt8} {rest : List RecvResult}
    (h : ¬ Found (fill ep (.data bytes))) :
    doRead ep (.data bytes :: rest) = (doRead (fill ep (.data bytes)) rest).map
      fun (ep', acts) => (ep', .recv ep.sockfd (.data bytes) :: acts) := by
  rw [doRead]
  exact if_neg h

/-- What `do_read` can do with the first result: it returns, with the request or without it, or it
goes on with the next one. -/
theorem doRead_cases {ep ep' : EpData} {result : RecvResult} {rest : List RecvResult}
    {acts : List Act} (h : doRead ep (result :: rest) = some (ep', acts)) :
    (rest = [] ∧ result = .error ∧ ep' = ep ∧ acts = [.recv ep.sockfd .error]) ∨
    (∃ bytes, rest = [] ∧ result = .data bytes ∧ Found (fill ep (.data bytes)) ∧
      ep' = storeRequest (fill ep (.data bytes)) bytes.length ∧
      acts = [.recv ep.sockfd (.data bytes), .request ep.sockfd ep'.url]) ∨
    ∃ bytes acts', result = .data bytes ∧ ¬ Found (fill ep (.data bytes)) ∧
      doRead (fill ep (.data bytes)) rest = some (ep', acts') ∧
      acts = .recv ep.sockfd (.data bytes) :: acts' := by
  cases result with
  | error =>
    unfold doRead at h
    split_ifs at h with hrest
    cases h
    exact Or.inl ⟨hrest, rfl, rfl, rfl⟩
  | data bytes =>
    by_cases hfound : Found (fill ep (.data bytes))
    · rw [doRead] at h
      have h := (if_pos hfound).symm.trans h
      split_ifs at h with hrest
      cases h
      exact Or.inr (Or.inl ⟨bytes, hrest, rfl, hfound, rfl, rfl⟩)
    · rw [doRead_not_found hfound, Option.map_eq_some_iff] at h
      obtain ⟨⟨ep₁, acts₁⟩, hread, heq⟩ := h
      cases heq
      exact Or.inr (Or.inr ⟨bytes, acts₁, rfl, hfound, hread, rfl⟩)

/-- `do_read` ends with the request in the bytes of the last `recv`, unless that has failed. -/
theorem doRead_append {ep ep' : EpData} {results : List RecvResult} {bytes : List UInt8}
    {acts : List Act} (h : doRead ep (results ++ [.data bytes]) = some (ep', acts)) :
    ∃ ep₀ : EpData,
      ep' = storeRequest { ep₀ with inBuf := ep₀.inBuf.write bytes } bytes.length := by
  induction results generalizing ep acts with
  | nil =>
    rcases doRead_cases h with ⟨-, herror, -⟩ | ⟨_, -, hbytes, -, hep, -⟩ | ⟨_, _, -, -, hread, -⟩
    · cases herror
    · cases hbytes
      exact ⟨ep, hep⟩
    · cases hread
  | cons result results ih =>
    have hmore : results ++ [RecvResult.data bytes] ≠ [] := by simp
    rcases doRead_cases h with ⟨hend, -⟩ | ⟨_, hend, -⟩ | ⟨_, _, -, -, hread, -⟩
    · exact absurd hend hmore
    · exact absurd hend hmore
    · exact ih hread

/-- A request that comes in one piece is found. -/
theorem found_single (ep : EpData) {bytes : List UInt8} (hlen : bytes.length ≤ bufsize)
    (hends : crlfcrlf <:+: CString.ofBytes bytes) : Found (fill ep (.data bytes)) := by
  unfold Found
  rw [memory_fill, List.take_of_length_le hlen]
  exact hends.trans (CString.ofBytes_prefix_append bytes _).isInfix

/-- A request that comes in one piece is read by one `recv`. -/
theorem doRead_single (ep : EpData) {bytes : List UInt8} (hlen : bytes.length ≤ bufsize)
    (hends : crlfcrlf <:+: CString.ofBytes bytes) :
    ∃ acts, doRead ep ([] ++ [.data bytes]) =
      some (storeRequest { ep with inBuf := ep.inBuf.write bytes } bytes.length, acts) :=
  ⟨_, doRead_found (found_single ep hlen hends)⟩

/-! ## The paths -/

/-- The path that is handed to `access` or `open`. -/
def Act.path : Act → Option (List UInt8)
  | .access path _ => some path
  | .openFile path _ => some path
  | _ => none

/-- The bytes of the text that `send` gets after it has been printed. -/
def sentData (ep : EpData) (limit : ℕ) (text : List UInt8) : List UInt8 :=
  (ep.print limit text).outBuf.bytes.take text.length

theorem sendOut_print (ep : EpData) (limit : ℕ) (text : List UInt8) (result : Option ℕ) :
    (ep.print limit text).sendOut result =
      .send ep.sockfd ep.url (sentData ep limit text) result := rfl

/-- What `do_write` does with a URL: how many bytes `snprintf` may use for the text, the text, the
call of `open`, the answer to `send`, and the call of `sendfile`. -/
inductive Reply (ep : EpData) (answers : Answers) :
    ℕ → List UInt8 → List Act → Option ℕ → List Act → Prop where
  /-- No access. -/
  | denied (haccess : answers.access = .eacces) :
      Reply ep answers (bufsize - 1) (forbidden ep.url ep.urlLen) [] answers.send []
  /-- There is no such file. -/
  | missing (haccess : answers.access ≠ .eacces) (hfile : answers.file = none) :
      Reply ep answers (bufsize - 1) notFound [.openFile ep.url none] answers.send []
  /-- The header cannot be sent. -/
  | failed {size : ℕ} (haccess : answers.access ≠ .eacces) (hfile : answers.file = some size)
      (hsend : answers.send = none) :
      Reply ep answers bufsize (okHeader size) [.openFile ep.url (some size)] none []
  /-- After the header, the file is sent. -/
  | file {size sent : ℕ} (haccess : answers.access ≠ .eacces) (hfile : answers.file = some size)
      (hsend : answers.send = some sent) :
      Reply ep answers bufsize (okHeader size) [.openFile ep.url (some size)] (some sent)
        [.sendfile ep.sockfd size answers.sendfile]

/-- What `do_write` can do: nothing without a URL; else it asks for access to the URL, perhaps opens
it, prints a text, sends it, and perhaps sends the file. -/
theorem doWrite_cases (ep : EpData) (answers : Answers) :
    ep.urlLen = 0 ∧ doWrite ep answers = (ep, []) ∨
    ep.urlLen ≠ 0 ∧ ∃ (limit : ℕ) (text : List UInt8) (opened : List Act) (result : Option ℕ)
      (sent : List Act),
      doWrite ep answers = (ep.print limit text, .access ep.url answers.access ::
        (opened ++ .send ep.sockfd ep.url (sentData ep limit text) result :: sent)) ∧
      Reply ep answers limit text opened result sent := by
  unfold doWrite
  simp only [sendOut_print]
  by_cases hurl : ep.urlLen = 0
  · exact Or.inl ⟨hurl, if_neg (not_not.mpr hurl)⟩
  · refine Or.inr ⟨hurl, ?_⟩
    rw [if_pos hurl]
    by_cases haccess : answers.access = .eacces
    · rw [if_pos haccess]
      exact ⟨_, _, _, _, _, rfl, .denied haccess⟩
    · rw [if_neg haccess]
      cases hfile : answers.file with
      | none => exact ⟨_, _, _, _, _, rfl, .missing haccess hfile⟩
      | some size =>
        cases hsend : answers.send with
        | none =>
          simp only [if_true]
          exact ⟨_, _, _, _, _, rfl, .failed haccess hfile hsend⟩
        | some sent =>
          simp only [reduceCtorEq, if_false]
          exact ⟨_, _, _, _, _, rfl, .file haccess hfile hsend⟩

section reply

variable {ep : EpData} {answers : Answers} {limit : ℕ} {text : List UInt8} {opened sent : List Act}
  {result : Option ℕ}

theorem Reply.openFile_of_mem (h : Reply ep answers limit text opened result sent) :
    ∀ act ∈ opened, ∃ size, act = .openFile ep.url size := by
  cases h with
  | denied haccess => simp
  | missing haccess hfile => simp
  | failed haccess hfile hsend => simp
  | file haccess hfile hsend => simp

theorem Reply.sendfile_of_mem (h : Reply ep answers limit text opened result sent) :
    ∀ act ∈ sent, ∃ count result, act = .sendfile ep.sockfd count result := by
  cases h with
  | denied haccess => simp
  | missing haccess hfile => simp
  | failed haccess hfile hsend => simp
  | file haccess hfile hsend => simp

end reply

/-- Every path that `do_write` uses is the stored URL. -/
theorem path_of_mem_doWrite {ep : EpData} {answers : Answers} {act : Act}
    (h : act ∈ (doWrite ep answers).2) {path : List UInt8} (hpath : act.path = some path) :
    path = ep.url := by
  rcases doWrite_cases ep answers with ⟨-, hnone⟩ |
    ⟨-, limit, text, opened, result, sent, hdo, hreply⟩
  · rw [hnone] at h
    cases h
  · rw [hdo] at h
    simp only [List.mem_cons, List.mem_append] at h
    rcases h with rfl | h | rfl | h
    · exact (Option.some.inj hpath).symm
    · obtain ⟨size, rfl⟩ := hreply.openFile_of_mem act h
      exact (Option.some.inj hpath).symm
    · cases hpath
    · obtain ⟨count, result', rfl⟩ := hreply.sendfile_of_mem act h
      cases hpath

/-- If there is a URL, `do_write` begins with `access`. -/
theorem access_mem_doWrite {ep : EpData} (h : ep.urlLen ≠ 0) (answers : Answers) :
    .access ep.url answers.access ∈ (doWrite ep answers).2 := by
  rcases doWrite_cases ep answers with ⟨hzero, -⟩ | ⟨-, limit, text, opened, result, sent, hdo, -⟩
  · exact absurd hzero h
  · rw [hdo]
    exact List.mem_cons_self

/-- Whatever a client sends in its last piece `bytes`, which completes the request: the paths that
`do_write` hands to `access` and `open` afterwards are all confined to the directory if and only if
the request is harmless. -/
theorem paths_confined_iff {ep ep' : EpData} {results : List RecvResult} {bytes : List UInt8}
    {acts : List Act} (hread : doRead ep (results ++ [.data bytes]) = some (ep', acts))
    (hlen : bytes.length ≤ bufsize) (answers : Answers) :
    (∀ act ∈ (doWrite ep' answers).2, ∀ path, act.path = some path → Path.Confined path) ↔
      Harmless (CString.ofBytes bytes) := by
  obtain ⟨ep₀, rfl⟩ := doRead_append hread
  obtain ⟨hurl, hurlLen⟩ := storeRequest_url ep₀ hlen
  generalize storeRequest { ep₀ with inBuf := ep₀.inBuf.write bytes } bytes.length = ep
    at hurl hurlLen
  have hharmless : Harmless (CString.ofBytes bytes) ↔ Path.Confined ep.url := by
    rw [Path.confined_iff, hurl, parseRequest_url]
    exact Iff.rfl
  rw [hharmless]
  constructor
  · intro h
    by_cases hzero : ep.urlLen = 0
    · have hnil : ep.url = [] := List.eq_nil_of_length_eq_zero (hurlLen ▸ hzero)
      rw [hnil, Path.confined_iff]
      exact ⟨fun h => (by cases h), rfl⟩
    · exact h _ (access_mem_doWrite hzero answers) _ rfl
  · intro h act hact path hpath
    rw [path_of_mem_doWrite hact hpath]
    exact h

/-- The request "GET /t HTTP/1.1". -/
theorem paths_confined_t : ∃ ep acts,
    doRead .zero [.data (ascii "GET /t HTTP/1.1\r\n\r\n")] = some (ep, acts) ∧
      ∀ answers, ∀ act ∈ (doWrite ep answers).2, ∀ path, act.path = some path →
        Path.Confined path := by
  have hlen : (ascii "GET /t HTTP/1.1\r\n\r\n").length ≤ bufsize := by decide
  obtain ⟨acts, hread⟩ := doRead_single .zero hlen (by decide)
  refine ⟨_, acts, hread, fun answers => (paths_confined_iff hread hlen answers).mpr ?_⟩
  exact ⟨by decide, rfl⟩

/-- The request "GET /../x HTTP/1.1" leads out of the directory. -/
theorem paths_climb : ∃ ep acts,
    doRead .zero [.data (ascii "GET /../x HTTP/1.1\r\n\r\n")] = some (ep, acts) ∧
      (∀ answers, .access (ascii "../x") answers.access ∈ (doWrite ep answers).2) ∧
      ¬ Path.Confined (ascii "../x") := by
  have hlen : (ascii "GET /../x HTTP/1.1\r\n\r\n").length ≤ bufsize := by decide
  obtain ⟨acts, hread⟩ := doRead_single .zero hlen (by decide)
  obtain ⟨hurl, hurlLen⟩ := storeRequest_url .zero hlen
  have hpath : (parseRequest (CString.ofBytes (ascii "GET /../x HTTP/1.1\r\n\r\n"))).1 =
      ascii "../x" := rfl
  rw [hpath] at hurl
  refine ⟨_, acts, hread, fun answers => ?_, ?_⟩
  · rw [← hurl]
    refine access_mem_doWrite ?_ answers
    rw [hurlLen, hurl]
    exact Nat.succ_ne_zero 3
  · rw [Path.confined_iff]
    rintro ⟨-, hscan⟩
    cases hscan

end CDevHws.Hw27
