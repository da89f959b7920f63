import CDevHws.Hw27.Proofs.ConnectionProofs
import Mathlib.Data.Nat.Digits.Defs

/-!
# Proofs: which requests are answered

`do_write` takes the length 0 of the URL as a sign that nothing has been read yet, but the URL of
the request for "/" is empty, too. So this request gets no response and its connection is never
closed, and all others with a path are answered at once.
-/

namespace CDevHws.Hw27

/-! ## Texts -/

theorem length_ascii (s : String) : (ascii s).length = s.length := by
  unfold ascii
  rw [List.length_map, String.length_toList]

/-- The digits of a number stand for it. -/
theorem decimal_ascii_toString (n : ℕ) : CString.decimal (ascii (toString n)) = n := by
  have hdecimal : ∀ l : List Char, (∀ c ∈ l, c.isDigit) → ∀ k,
      (l.map fun c => UInt8.ofNat c.toNat).foldl (fun n c => 10 * n + (c.toNat - 48)) k =
        Nat.ofDigitChars 10 l k := by
    intro l
    induction l with
    | nil => exact fun _ _ => Nat.ofDigitChars_nil.symm
    | cons c l ih =>
      intro hl k
      have hdigit := Char.isDigit_iff_toNat.mp (hl c List.mem_cons_self)
      have hnine : '9'.toNat = 57 := rfl
      have hlt : c.toNat < 2 ^ 8 := by omega
      have hc : (UInt8.ofNat c.toNat).toNat = c.toNat := UInt8.toNat_ofNat_of_lt' hlt
      rw [List.map_cons, List.foldl_cons, hc, Nat.ofDigitChars_cons]
      exact ih (fun d hd => hl d (List.mem_cons_of_mem c hd)) _
  have hdigits : (toString n).toList = Nat.toDigits 10 n := by
    rw [Nat.toString_eq_ofList_toDigits, String.toList_ofList]
  unfold CString.decimal ascii
  rw [hdigits, hdecimal _ fun c hc => Nat.isDigit_of_mem_toDigits (by omega) (by omega) hc]
  exact Nat.ofDigitChars_ten_toDigits

theorem length_toString_le {n k : ℕ} (hk : 0 < k) (hn : n < 10 ^ k) :
    (ascii (toString n)).length ≤ k := by
  rw [length_ascii]
  exact Nat.repr_length n k hk hn

/-- The header tells the size. -/
theorem okHeader_injective {n m : ℕ} (h : okHeader n = okHeader m) : n = m := by
  unfold okHeader at h
  have hdigits := List.append_cancel_left (List.append_cancel_right h)
  rw [← decimal_ascii_toString n, hdigits, decimal_ascii_toString]

theorem okHeader_code (size : ℕ) : (okHeader size)[9]? = some 50 := rfl

theorem forbidden_code (url : List UInt8) (urlLen : ℕ) : (forbidden url urlLen)[9]? = some 52 := rfl

/-- No response is empty. -/
theorem Reply.length_ne_zero {ep : EpData} {answers : Answers} {limit : ℕ} {text : List UInt8}
    {opened sent : List Act} {result : Option ℕ}
    (h : Reply ep answers limit text opened result sent) : text.length ≠ 0 := by
  have hcode : ∃ c, text[9]? = some c := by
    cases h with
    | denied haccess => exact ⟨_, forbidden_code _ _⟩
    | missing haccess hfile => exact ⟨_, notFound_code⟩
    | failed haccess hfile hsend => exact ⟨_, okHeader_code _⟩
    | file haccess hfile hsend => exact ⟨_, okHeader_code _⟩
  obtain ⟨c, hc⟩ := hcode
  obtain ⟨hlt, -⟩ := List.getElem?_eq_some_iff.mp hc
  omega

/-! ## What is sent -/

/-- The bytes that are printed are the ones of the text, as far as `snprintf` may write. -/
theorem getElem?_print (ep : EpData) {limit i : ℕ} {text : List UInt8} (hi : i < text.length)
    (hlimit : i < limit - 1) (hbuf : limit ≤ bufsize) :
    (ep.print limit text).outBuf.bytes[i]? = text[i]? := by
  have hprinted : i < (text.take (limit - 1) ++ [0]).length := by
    rw [List.length_append, List.length_take]
    omega
  have hfits : (text.take (limit - 1) ++ [0]).length ≤ bufsize := by
    rw [List.length_append, List.length_take, List.length_singleton]
    omega
  show ((ep.outBuf.write (text.take (limit - 1) ++ [0])).set text.length 0).bytes[i]? = _
  rw [Buffer.bytes_set, List.getElem?_set_ne (by omega), Buffer.bytes_write,
    List.take_of_length_le hfits, List.getElem?_append_left hprinted,
    List.getElem?_append_left (by rw [List.length_take]; omega), List.getElem?_take_of_lt hlimit]

theorem getElem?_sentData (ep : EpData) {limit i : ℕ} {text : List UInt8} (hi : i < text.length)
    (hlimit : i < limit - 1) (hbuf : limit ≤ bufsize) :
    (sentData ep limit text)[i]? = text[i]? := by
  unfold sentData
  rw [List.getElem?_take_of_lt hi, getElem?_print ep hi hlimit hbuf]

/-- A text that fits is sent as it is. -/
theorem sentData_eq (ep : EpData) {limit : ℕ} {text : List UInt8} (hlen : text.length < limit)
    (hbuf : limit ≤ bufsize) : sentData ep limit text = text := by
  refine List.ext_getElem? fun i => ?_
  by_cases hi : i < text.length
  · exact getElem?_sentData ep hi (by omega) hbuf
  · have hle : (sentData ep limit text).length ≤ text.length := List.length_take_le _ _
    rw [List.getElem?_eq_none (by omega), List.getElem?_eq_none (by omega)]

theorem length_okHeader_lt {size : ℕ} (h : size < 2 ^ 63) : (okHeader size).length < bufsize := by
  have hsize : size < 10 ^ 19 := by omega
  have hdigits := length_toString_le (by omega) hsize
  have h1 : (ascii "HTTP/1.1 200 OK\r\nServer: chttp\r\nContent-Length: ").length < 100 := by
    rw [length_ascii]
    decide
  have h2 : (ascii "\r\nConnection: close\r\nContent-Type: text/html\r\n\r\n").length < 100 := by
    rw [length_ascii]
    decide
  have hbuf : bufsize = 2048 := rfl
  unfold okHeader
  rw [List.length_append, List.length_append]
  omega

theorem length_forbidden_lt {url : List UInt8} (h : url.length < strlenmax) :
    (forbidden url url.length).length < bufsize - 1 := by
  have hbuf : bufsize = 2048 := rfl
  have hmax : strlenmax = 255 := rfl
  have hdigits : (ascii (toString (146 + url.length))).length ≤ 3 :=
    length_toString_le (by omega) (by omega)
  have h1 : (ascii "HTTP/1.1 403 Forbidden\r\nContent-Length: ").length < 100 := by
    rw [length_ascii]
    decide
  have h2 : (ascii ("\r\nConnection: close\r\nContent-Type: text/html\r\n\r\n" ++
      "<html><head><title>403 Forbidden</title></head><body><h1>Forbidden</h1>" ++
      "<p>You don't have permission to access /")).length < 200 := by
    rw [length_ascii, String.length_append, String.length_append]
    decide
  have h3 : (ascii " on this server!</p></body></html>\n").length < 100 := by
    rw [length_ascii]
    decide
  unfold forbidden
  rw [List.length_append, List.length_append, List.length_append, List.length_append]
  omega

theorem length_notFound_lt : notFound.length < bufsize - 1 := by
  unfold notFound
  rw [length_ascii, String.length_append, String.length_append]
  decide

/-! ## One request -/

/-- If something has been printed, the connection is closed. -/
theorem handleEvent_closed {ep ep' : EpData} {results : List RecvResult} {answers : Answers}
    {acts : List Act} (hread : doRead ep results = some (ep', acts))
    (hout : (doWrite ep' answers).1.outSize ≠ 0) :
    handleEvent ep ⟨true, true⟩ results answers = some (.zero,
      acts ++ (doWrite ep' answers).2 ++ [.close (doWrite ep' answers).1.sockfd],
      some (doWrite ep' answers).1.sockfd) := by
  rw [handleEvent_eq, if_pos rfl, hread]
  simp only [if_true, Option.map_some, if_pos hout]

/-- The response that the request for a URL has to get. -/
def response (url : List UInt8) (answers : Answers) : List UInt8 :=
  if answers.access = .eacces then forbidden url url.length
  else
    match answers.file with
    | none => notFound
    | some size => okHeader size

/-- What has been sent. -/
def responses (acts : List Act) : List (List UInt8) :=
  acts.filterMap fun
    | .send _ _ data _ => some data
    | _ => none

/-- `do_write` sends the text of its reply, if the text fits. -/
theorem Reply.responses_doWrite {ep : EpData} {answers : Answers} {limit : ℕ} {text : List UInt8}
    {opened sent : List Act} {result : Option ℕ}
    (hreply : Reply ep answers limit text opened result sent) (hlen : text.length < limit)
    (hdo : doWrite ep answers = (ep.print limit text, .access ep.url answers.access ::
      (opened ++ .send ep.sockfd ep.url (sentData ep limit text) result :: sent))) :
    responses (doWrite ep answers).2 = [text] := by
  have hsent : sentData ep limit text = text := by
    cases hreply with
    | denied haccess => exact sentData_eq ep hlen (Nat.sub_le _ _)
    | missing haccess hfile => exact sentData_eq ep hlen (Nat.sub_le _ _)
    | failed haccess hfile hsend => exact sentData_eq ep hlen le_rfl
    | file haccess hfile hsend => exact sentData_eq ep hlen le_rfl
  rw [hdo, hsent]
  cases hreply with
  | denied haccess => simp [responses]
  | missing haccess hfile => simp [responses]
  | failed haccess hfile hsend => simp [responses]
  | file haccess hfile hsend => simp [responses]

/-- With a URL, `do_write` sends the response to it and nothing else. -/
theorem doWrite_responses {ep : EpData} {answers : Answers} (hurl : ep.urlLen ≠ 0)
    (hlen : ep.urlLen = ep.url.length) (hshort : ep.url.length < strlenmax)
    (hsize : ∀ size, answers.file = some size → size < 2 ^ 63) :
    responses (doWrite ep answers).2 = [response ep.url answers] ∧
      (doWrite ep answers).1.outSize ≠ 0 ∧ (doWrite ep answers).1.sockfd = ep.sockfd := by
  rcases doWrite_cases ep answers with ⟨hzero, -⟩ |
    ⟨-, limit, text, opened, result, sent, hdo, hreply⟩
  · exact absurd hzero hurl
  have htext : text = response ep.url answers ∧ text.length < limit := by
    unfold response
    cases hreply with
    | denied haccess =>
      rw [if_pos haccess, hlen]
      exact ⟨rfl, length_forbidden_lt hshort⟩
    | missing haccess hfile =>
      rw [if_neg haccess, hfile]
      exact ⟨rfl, length_notFound_lt⟩
    | failed haccess hfile hsend =>
      rw [if_neg haccess, hfile]
      exact ⟨rfl, length_okHeader_lt (hsize _ hfile)⟩
    | file haccess hfile hsend =>
      rw [if_neg haccess, hfile]
      exact ⟨rfl, length_okHeader_lt (hsize _ hfile)⟩
  obtain ⟨htext, hfits⟩ := htext
  refine ⟨?_, ?_, ?_⟩
  · rw [hreply.responses_doWrite hfits hdo, htext]
  · rw [hdo]
    exact hreply.length_ne_zero
  · rw [hdo]
    rfl

/-- A complete request, shorter than the buffer, of which the first line is the method, the path
after a slash, and the rest, with a space before and after the path. -/
structure IsLine (request method path : List UInt8) : Prop where
  line : ∃ rest, request = method ++ 32 :: 47 :: (path ++ 32 :: rest)
  method_ne_nil : method ≠ []
  method : 32 ∉ method ∧ 10 ∉ method
  path : 32 ∉ path ∧ 10 ∉ path
  complete : crlfcrlf <:+: request
  short : request.length < bufsize

/-- After `do_read` has got the request at once, `do_write` sends the response to it and nothing
else; then `out_size` is not 0, and `main` closes the connection and has a free slot. -/
def AnsweredOnce (ep : EpData) (request path : List UInt8) (answers : Answers) : Prop :=
  ∃ ep' acts, doRead ep [.data request] = some (ep', acts) ∧
    responses (doWrite ep' answers).2 = [response (path.take (strlenmax - 1)) answers] ∧
    (doWrite ep' answers).1.outSize ≠ 0 ∧
    ∀ (s : Server) fd rest, s.connData = ep → s.batch = .conn fd ⟨true, true⟩ :: rest →
      ∃ s', Step s (.handle fd (acts ++ (doWrite ep' answers).2 ++ [.close ep.sockfd])) s' ∧
        s'.eventsCount = s.eventsCount - 1

section request

variable {request method path : List UInt8}

/-- The string ends after the request line, or no end of a request is found. -/
theorem IsLine.string (h : IsLine request method path)
    (hends : crlfcrlf <:+: CString.ofBytes request) :
    ∃ rest, CString.ofBytes request = method ++ 32 :: (47 :: path ++ 32 :: rest) := by
  obtain ⟨rest, hline⟩ := h.line
  have hfront : request = (method ++ 32 :: 47 :: (path ++ [32])) ++ rest := by
    rw [hline]
    simp
  have hprefix : CString.ofBytes request <+: request := List.takeWhile_prefix _
  have hprefix' : method ++ 32 :: 47 :: (path ++ [32]) <+: request :=
    hfront ▸ List.prefix_append _ rest
  rcases List.prefix_or_prefix_of_prefix hprefix hprefix' with hshort | ⟨rest', hrest⟩
  · -- the line has no line feed
    have hmem : (10 : UInt8) ∈ method ++ 32 :: 47 :: (path ++ [32]) :=
      hshort.subset (hends.subset (List.mem_cons_of_mem _ List.mem_cons_self))
    have hnot : (10 : UInt8) ∉ method ++ 32 :: 47 :: (path ++ [32]) := by
      simp only [List.mem_append, List.mem_cons, List.not_mem_nil, or_false, not_or]
      exact ⟨h.method.2, by decide, by decide, h.path.2, by decide⟩
    exact absurd hmem hnot
  · refine ⟨rest', ?_⟩
    rw [← hrest]
    simp

theorem IsLine.url (h : IsLine request method path)
    (hends : crlfcrlf <:+: CString.ofBytes request) :
    (parseRequest (CString.ofBytes request)).1 = path.take (strlenmax - 1) := by
  have hmethod : CString.IsToken [32] method :=
    ⟨h.method_ne_nil, fun c hc hspace => h.method.1 (List.mem_singleton.mp hspace ▸ hc)⟩
  have hpath : CString.IsToken [32] (47 :: path) := by
    refine ⟨List.cons_ne_nil _ _, fun c hc hspace => ?_⟩
    rw [List.mem_singleton.mp hspace] at hc
    rcases List.mem_cons.mp hc with hslash | hc
    · cases hslash
    · exact h.path.1 hc
  obtain ⟨rest, hstring⟩ := h.string hends
  unfold parseRequest
  rw [hstring, CString.strtok_start hmethod (List.mem_singleton_self 32)]
  simp only
  rw [CString.strtok_start hpath (List.mem_singleton_self 32)]
  rfl

/-- The end of the request is found if and only if no NUL comes before it. -/
theorem IsLine.found_iff (h : IsLine request method path) (ep : EpData) :
    Found (fill ep (.data request)) ↔ crlfcrlf <:+: CString.ofBytes request := by
  refine ⟨fun hfound => ?_, found_single ep (Nat.le_of_lt h.short)⟩
  by_cases hnul : 0 ∈ request
  · obtain ⟨front, back, hsplit⟩ := List.append_of_mem hnul
    have hmemory : (fill ep (.data request)).memory = front ++
        0 :: (back ++ (ep.inBuf.bytes.drop request.length ++ ep.outBuf.bytes)) := by
      show (ep.inBuf.write request).bytes ++ ep.outBuf.bytes = _
      rw [Buffer.bytes_write, List.take_of_length_le (Nat.le_of_lt h.short), List.append_assoc]
      conv => left; left; rw [hsplit]
      simp
    unfold Found at hfound
    rw [hmemory, CString.ofBytes_append_nul] at hfound
    rw [hsplit, CString.ofBytes_append_nul]
    exact hfound
  · rw [CString.ofBytes_eq_self hnul]
    exact h.complete

theorem found_of_doRead {ep ep' : EpData} {bytes : List UInt8} {acts : List Act}
    (hread : doRead ep [.data bytes] = some (ep', acts)) : Found (fill ep (.data bytes)) := by
  by_contra hnot
  rw [doRead_not_found hnot] at hread
  cases hread

/-- What `do_read` stores is the path, cut to 254 bytes. -/
theorem IsLine.doRead (h : IsLine request method path) (ep : EpData)
    (hends : crlfcrlf <:+: CString.ofBytes request) :
    ∃ ep', doRead ep [.data request] =
        some (ep', [.recv ep.sockfd (.data request), .request ep.sockfd ep'.url]) ∧
      ep'.sockfd = ep.sockfd ∧ ep'.url = path.take (strlenmax - 1) ∧
      ep'.urlLen = ep'.url.length := by
  have hread := doRead_found (found_single ep (Nat.le_of_lt h.short) hends)
  obtain ⟨hurl, hurlLen⟩ := storeRequest_url ep (Nat.le_of_lt h.short)
  rw [h.url hends] at hurl
  exact ⟨_, hread, (doRead_spec hread).1, hurl, hurlLen⟩

theorem IsLine.answered (h : IsLine request method path) (ep : EpData) {answers : Answers}
    (hsize : ∀ size, answers.file = some size → size < 2 ^ 63) (hpath : path ≠ [])
    (hends : crlfcrlf <:+: CString.ofBytes request) : AnsweredOnce ep request path answers := by
  obtain ⟨ep', hread, hfd, hurl, hurlLen⟩ := h.doRead ep hends
  have hmax : strlenmax = 255 := rfl
  have hlen : ep'.url.length = min (strlenmax - 1) path.length := by rw [hurl, List.length_take]
  have hpos := List.length_pos_iff.mpr hpath
  obtain ⟨hresponses, hout, hsock⟩ := doWrite_responses (by omega) hurlLen (by omega) hsize
  refine ⟨ep', _, hread, hurl ▸ hresponses, hout, ?_⟩
  rintro s fd rest rfl hbatch
  have hclosed := handleEvent_closed hread hout
  rw [hsock, hfd] at hclosed
  exact ⟨_, .handle hbatch hclosed, rfl⟩

/-- Without a path there is no URL, and `do_write` does nothing. -/
theorem IsLine.not_answered (h : IsLine request method []) (ep : EpData) (answers : Answers) :
    ¬ AnsweredOnce ep request [] answers := by
  rintro ⟨ep', acts, hread, hresponses, -⟩
  obtain ⟨ep₁, hread₁, -, hurl, hurlLen⟩ :=
    h.doRead ep ((h.found_iff ep).mp (found_of_doRead hread))
  cases hread.symm.trans hread₁
  rcases doWrite_cases ep' answers with ⟨-, hdo⟩ | ⟨hne, -⟩
  · rw [hdo] at hresponses
    cases hresponses
  · exact hne (hurlLen.trans (congrArg List.length hurl))

/-- For every complete request with a path, whatever `access`, `open`, `send` and `sendfile` answer:
it is answered, once, and its connection is closed if and only if the path is not empty and no NUL
comes before the end of the request. -/
theorem answered_once_iff (h : IsLine request method path) (ep : EpData) {answers : Answers}
    (hsize : ∀ size, answers.file = some size → size < 2 ^ 63) :
    AnsweredOnce ep request path answers ↔
      path ≠ [] ∧ crlfcrlf <:+: CString.ofBytes request := by
  refine ⟨fun hanswered => ⟨?_, ?_⟩, fun ⟨hpath, hends⟩ => h.answered ep hsize hpath hends⟩
  · rintro rfl
    exact h.not_answered ep answers hanswered
  · obtain ⟨ep', acts, hread, -⟩ := hanswered
    exact (h.found_iff ep).mp (found_of_doRead hread)

end request

/-- The request for "t". -/
theorem getT_isLine : IsLine (ascii "GET /t HTTP/1.1\r\n\r\n") (ascii "GET") (ascii "t") where
  line := ⟨ascii "HTTP/1.1\r\n\r\n", rfl⟩
  method_ne_nil := by decide
  method := by decide
  path := by decide
  complete := by decide
  short := by decide

theorem answered_once_t : AnsweredOnce .zero (ascii "GET /t HTTP/1.1\r\n\r\n") (ascii "t")
    ⟨.ok, some 133, some 100, some 133⟩ := by
  refine (answered_once_iff getT_isLine .zero ?_).mpr ⟨by decide, by decide⟩
  intro size hsize
  cases hsize
  omega

/-- The request for "/" is never answered. -/
theorem answered_once_fails :
    IsLine (ascii "GET / HTTP/1.1\r\n\r\n") (ascii "GET") [] ∧
      ∀ ep answers, ¬ AnsweredOnce ep (ascii "GET / HTTP/1.1\r\n\r\n") [] answers := by
  have hline : IsLine (ascii "GET / HTTP/1.1\r\n\r\n") (ascii "GET") [] :=
    ⟨⟨ascii "HTTP/1.1\r\n\r\n", rfl⟩, by decide, by decide, by decide, by decide, by decide⟩
  exact ⟨hline, fun ep answers => hline.not_answered ep answers⟩

end CDevHws.Hw27
