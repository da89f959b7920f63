import CDevHws.Hw27.Proofs.ResponseProofs

/-!
# Proofs: how much of a file is sent

After the header, `do_write` calls `sendfile` once and does not look at how much of the file it has
sent; then `out_size` is not 0 and `main` closes the connection. So a body is complete if and only
if that one call has sent all of it.
-/

namespace CDevHws.Hw27

open Transition (Run)

/-! ## What one event does -/

/-- No response, no file and no end of a connection. -/
def Act.Quiet : Act → Prop
  | .send _ _ _ _ => False
  | .sendfile _ _ _ => False
  | .close _ => False
  | _ => True

/-- What is done in a step. First nothing is sent; then there may be a response, after the header of
a file the file, and the end of the connection. -/
inductive Turn : List Act → Prop where
  | idle {acts : List Act} (hquiet : ∀ act ∈ acts, act.Quiet) : Turn acts
  | close {acts : List Act} {fd : ℕ} (hquiet : ∀ act ∈ acts, act.Quiet) : Turn (acts ++ [.close fd])
  /-- The response is not the header of a file, or it cannot be sent. -/
  | error {acts : List Act} {fd : ℕ} {url data : List UInt8} {result : Option ℕ}
      (hquiet : ∀ act ∈ acts, act.Quiet) (hdata : ∀ size, data = okHeader size → result = none) :
      Turn (acts ++ [.send fd url data result, .close fd])
  | file {acts : List Act} {fd size sent : ℕ} {url : List UInt8} {result : Option ℕ}
      (hquiet : ∀ act ∈ acts, act.Quiet) :
      Turn (acts ++ [.send fd url (okHeader size) (some sent), .sendfile fd size result, .close fd])

/-- The sizes of the files that are opened are numbers of the type `off_t`. -/
def SizesFit (acts : List Act) : Prop :=
  ∀ path size, .openFile path (some size) ∈ acts → size < 2 ^ 63

/-- A response that is not for a file does not begin like the header of one. -/
theorem sentData_ne_okHeader (ep : EpData) {text : List UInt8} (hcode : text[9]? = some 52)
    (size : ℕ) : sentData ep (bufsize - 1) text ≠ okHeader size := by
  intro heq
  obtain ⟨hlt, -⟩ := List.getElem?_eq_some_iff.mp hcode
  have hnine : (sentData ep (bufsize - 1) text)[9]? = text[9]? :=
    getElem?_sentData ep hlt (by decide) (by decide)
  rw [heq, hcode, okHeader_code] at hnine
  cases hnine

theorem Reply.turn {ep : EpData} {answers : Answers} {limit : ℕ} {text : List UInt8}
    {opened sent acts : List Act} {result : Option ℕ}
    (h : Reply ep answers limit text opened result sent) (hsize : SizesFit opened)
    (hquiet : ∀ act ∈ acts, act.Quiet) :
    Turn (acts ++ (.send ep.sockfd ep.url (sentData ep limit text) result ::
      (sent ++ [.close ep.sockfd]))) := by
  cases h with
  | denied haccess =>
    exact .error hquiet fun size heq =>
      absurd heq (sentData_ne_okHeader ep (forbidden_code _ _) size)
  | missing haccess hfile =>
    exact .error hquiet fun size heq => absurd heq (sentData_ne_okHeader ep notFound_code size)
  | failed haccess hfile hsend => exact .error hquiet fun _ _ => rfl
  | file haccess hfile hsend =>
    have hlt := length_okHeader_lt (hsize _ _ List.mem_cons_self)
    rw [sentData_eq ep hlt le_rfl]
    exact .file hquiet

/-- After quiet actions, `do_write` does nothing, or it sends a response, and then the connection is
closed. -/
theorem doWrite_turn {ep : EpData} {answers : Answers} {acts : List Act}
    (hquiet : ∀ act ∈ acts, act.Quiet) (hsize : SizesFit (doWrite ep answers).2) :
    (∀ act ∈ acts ++ (doWrite ep answers).2, act.Quiet) ∨
      (doWrite ep answers).1.outSize ≠ 0 ∧
        Turn (acts ++ (doWrite ep answers).2 ++ [.close (doWrite ep answers).1.sockfd]) := by
  rcases doWrite_cases ep answers with ⟨-, hdo⟩ |
    ⟨-, limit, text, opened, result, sent, hdo, hreply⟩
  · rw [hdo, List.append_nil]
    exact Or.inl hquiet
  · rw [hdo] at hsize ⊢
    have hquiet' : ∀ act ∈ acts ++ .access ep.url answers.access :: opened, act.Quiet := by
      intro act hact
      rcases List.mem_append.mp hact with hact | hact
      · exact hquiet act hact
      · rcases List.mem_cons.mp hact with rfl | hact
        · trivial
        · obtain ⟨size, rfl⟩ := hreply.openFile_of_mem act hact
          trivial
    have hopened : SizesFit opened := fun path size hmem =>
      hsize path size (List.mem_cons_of_mem _ (List.mem_append_left _ hmem))
    have hturn := hreply.turn hopened hquiet'
    refine Or.inr ⟨hreply.length_ne_zero, ?_⟩
    simp only [List.append_assoc, List.cons_append] at hturn ⊢
    exact hturn

theorem doRead_quiet {ep ep' : EpData} {results : List RecvResult} {acts : List Act}
    (h : doRead ep results = some (ep', acts)) : ∀ act ∈ acts, act.Quiet := by
  obtain ⟨-, recvs, hrecvs, hacts⟩ := doRead_spec h
  have hquiet : ∀ act ∈ recvs, act.Quiet := by
    intro act hact
    obtain ⟨result, rfl⟩ := hrecvs act hact
    trivial
  rcases hacts with ⟨rfl, -⟩ | rfl
  · exact hquiet
  · intro act hact
    rcases List.mem_append.mp hact with hact | hact
    · exact hquiet act hact
    · rw [List.mem_singleton.mp hact]
      trivial

theorem handleEvent_turn {ep ep' : EpData} {mask : Mask} {results : List RecvResult}
    {answers : Answers} {acts : List Act} {closed : Option ℕ}
    (h : handleEvent ep mask results answers = some (ep', acts, closed)) (hsize : SizesFit acts) :
    Turn acts := by
  rw [handleEvent_eq, Option.map_eq_some_iff] at h
  obtain ⟨⟨ep₁, acts₁⟩, hread, heq⟩ := h
  have hquiet : ∀ act ∈ acts₁, act.Quiet := by
    split_ifs at hread
    · exact doRead_quiet hread
    · cases hread
      simp
  simp only at heq
  cases hout : mask.output with
  | false =>
    rw [hout] at heq
    simp only [Bool.false_eq_true, if_false, List.append_nil] at heq
    split_ifs at heq
    · cases heq
      exact .close hquiet
    · cases heq
      exact .idle hquiet
  | true =>
    rw [hout] at heq
    simp only [if_true] at heq
    split_ifs at heq with hne
    · cases heq
      have hwrite : SizesFit (doWrite ep₁ answers).2 := fun path size hmem =>
        hsize path size (List.mem_append_left _ (List.mem_append_right _ hmem))
      rcases doWrite_turn hquiet hwrite with hall | ⟨-, hturn⟩
      · exact .close hall
      · exact hturn
    · cases heq
      have hwrite : SizesFit (doWrite ep₁ answers).2 := fun path size hmem =>
        hsize path size (List.mem_append_right _ hmem)
      rcases doWrite_turn hquiet hwrite with hall | ⟨hout, -⟩
      · exact .idle hall
      · exact absurd hout hne

/-! ## Runs -/

/-- How many bytes `sendfile` has handed to a socket. -/
def handedOver (fd : ℕ) (acts : List Act) : ℕ :=
  (acts.filterMap fun
    | .sendfile fd' _ result => if fd' = fd then result else none
    | _ => none).sum

/-- Between the header of a file and the end of the connection, all bytes of the file are handed to
the socket. -/
def BodyComplete (acts : List Act) : Prop :=
  ∀ front mid back fd url size sent,
    acts = front ++ .send fd url (okHeader size) (some sent) :: (mid ++ .close fd :: back) →
      .close fd ∉ mid → handedOver fd mid = size

/-- `sendfile` always sends all that it is asked for. -/
def SendsAll (acts : List Act) : Prop :=
  ∀ fd count result, .sendfile fd count result ∈ acts → result.getD 0 = count

theorem step_turn {s s' : Server} {l : Label} (h : Step s l s') (hsize : SizesFit l.acts) :
    Turn l.acts := by
  cases h with
  | wait hidle hopen honce => exact .idle (fun _ hact => absurd hact List.not_mem_nil)
  | refuse hbatch => exact .idle (fun _ hact => absurd hact List.not_mem_nil)
  | accept hbatch hnew hroom => exact .idle (fun _ hact => absurd hact List.not_mem_nil)
  | handle hbatch hevent => exact handleEvent_turn hevent hsize

theorem run_turn {tr : List Label} {s : Server} (h : Run Step Server.init tr s)
    (hsize : SizesFit (history tr)) : ∀ l ∈ tr, Turn l.acts := by
  refine h.history (R := fun tr _ => SizesFit (history tr) → ∀ l ∈ tr, Turn l.acts) ?_ ?_ hsize
  · exact fun _ l hl => absurd hl List.not_mem_nil
  · intro tr s₁ l s₂ ih hstep hsize l' hl'
    rw [history_append_singleton] at hsize
    rcases List.mem_append.mp hl' with hl' | hl'
    · exact ih (fun path size hmem => hsize path size (List.mem_append_left _ hmem)) l' hl'
    · rw [List.mem_singleton.mp hl']
      exact step_turn hstep fun path size hmem => hsize path size (List.mem_append_right _ hmem)

/-- The step in which something has been done. -/
theorem exists_label {tr : List Label} {front back : List Act} {act : Act}
    (h : history tr = front ++ act :: back) :
    ∃ before l after front' back', tr = before ++ l :: after ∧ l.acts = front' ++ act :: back' ∧
      front = history before ++ front' ∧ back = back' ++ history after := by
  induction tr generalizing front with
  | nil => exact absurd h.symm (List.append_ne_nil_of_right_ne_nil _ (List.cons_ne_nil _ _))
  | cons l tr ih =>
    have hcons : history (l :: tr) = l.acts ++ history tr := rfl
    have hlater : ∀ front₁, front = l.acts ++ front₁ → history tr = front₁ ++ act :: back →
        ∃ before l' after front' back', l :: tr = before ++ l' :: after ∧
          l'.acts = front' ++ act :: back' ∧ front = history before ++ front' ∧
          back = back' ++ history after := by
      rintro front₁ rfl hfront
      obtain ⟨before, l', after, front', back', rfl, hacts, rfl, hback⟩ := ih hfront
      exact ⟨l :: before, l', after, front', back', rfl, hacts, (List.append_assoc ..).symm, hback⟩
    rw [hcons] at h
    rcases List.append_eq_append_iff.mp h with ⟨front₁, hfront, htr⟩ | ⟨back₁, hacts, hback⟩
    · exact hlater front₁ hfront htr
    · cases back₁ with
      | nil =>
        rw [List.append_nil] at hacts
        exact hlater [] (by rw [hacts, List.append_nil]) hback.symm
      | cons act' back₁ =>
        obtain ⟨rfl, rfl⟩ := List.cons.inj hback
        exact ⟨[], l, tr, front, back₁, rfl, hacts, rfl, rfl⟩

/-- After the header of a file, the file is sent and the connection is closed at once. -/
theorem Turn.after_header {acts front back : List Act} {fd size sent : ℕ} {url : List UInt8}
    (h : Turn acts) (heq : acts = front ++ .send fd url (okHeader size) (some sent) :: back) :
    ∃ result, back = [.sendfile fd size result, .close fd] := by
  have hmem : .send fd url (okHeader size) (some sent) ∈ acts :=
    heq ▸ List.mem_append_right _ List.mem_cons_self
  cases h with
  | idle hquiet => exact (hquiet _ hmem).elim
  | close hquiet =>
    rcases List.mem_append.mp hmem with hmem | hmem
    · exact (hquiet _ hmem).elim
    · cases List.mem_singleton.mp hmem
  | error hquiet hdata =>
    rcases List.mem_append.mp hmem with hmem | hmem
    · exact (hquiet _ hmem).elim
    · simp only [List.mem_cons, Act.send.injEq, reduceCtorEq, List.not_mem_nil, or_false] at hmem
      obtain ⟨-, -, hheader, hresult⟩ := hmem
      rw [hdata size hheader.symm] at hresult
      cases hresult
  | @file acts fd' size' sent' url' result hquiet =>
    have hnot : .send fd url (okHeader size) (some sent) ∉
        [Act.sendfile fd' size' result, .close fd'] := by simp
    have hnot' : .send fd url (okHeader size) (some sent) ∉ acts := fun hmem => hquiet _ hmem
    obtain ⟨-, hsend, hback⟩ := (List.append_cons_inj_of_notMem hnot' hnot).mp heq
    obtain ⟨rfl, -, hheader, -⟩ := Act.send.inj hsend
    exact ⟨result, by rw [← hback, okHeader_injective hheader]⟩

/-- Before a file, its header is sent, and afterwards the connection is closed. -/
theorem Turn.of_sendfile {acts : List Act} {fd count : ℕ} {result : Option ℕ} (h : Turn acts)
    (hmem : .sendfile fd count result ∈ acts) :
    ∃ front url sent, acts = front ++ .send fd url (okHeader count) (some sent) ::
      ([.sendfile fd count result] ++ [.close fd]) := by
  cases h with
  | idle hquiet => exact (hquiet _ hmem).elim
  | close hquiet =>
    rcases List.mem_append.mp hmem with hmem | hmem
    · exact (hquiet _ hmem).elim
    · cases List.mem_singleton.mp hmem
  | error hquiet hdata =>
    rcases List.mem_append.mp hmem with hmem | hmem
    · exact (hquiet _ hmem).elim
    · simp at hmem
  | @file acts fd' size' sent' url' result' hquiet =>
    rcases List.mem_append.mp hmem with hmem | hmem
    · exact (hquiet _ hmem).elim
    · simp only [List.mem_cons, Act.sendfile.injEq, reduceCtorEq, List.not_mem_nil, or_false,
        false_or] at hmem
      obtain ⟨rfl, rfl, rfl⟩ := hmem
      exact ⟨acts, url', sent', rfl⟩

theorem handedOver_sendfile (fd count : ℕ) (result : Option ℕ) :
    handedOver fd [.sendfile fd count result] = result.getD 0 := by
  unfold handedOver
  cases result with
  | none => simp
  | some body => simp

/-- In every run in which the sizes of the files that are opened fit into `off_t`: for every
connection that the header of a file has been sent to, exactly the bytes of the file have been
handed to its socket when it is closed, if and only if each call of `sendfile` has sent all that it
was asked for. -/
theorem body_complete_iff {tr : List Label} {s : Server} (h : Run Step Server.init tr s)
    (hsize : SizesFit (history tr)) :
    BodyComplete (history tr) ↔ SendsAll (history tr) := by
  have hturn := run_turn h hsize
  constructor
  · intro hbody fd count result hmem
    obtain ⟨l, hl, hmem⟩ := List.mem_flatMap.mp hmem
    obtain ⟨front, url, sent, hacts⟩ := (hturn l hl).of_sendfile hmem
    obtain ⟨before, after, rfl⟩ := List.append_of_mem hl
    have hhistory : history (before ++ l :: after) = (history before ++ front) ++
        .send fd url (okHeader count) (some sent) ::
          ([.sendfile fd count result] ++ .close fd :: history after) := by
      unfold history
      rw [List.flatMap_append, List.flatMap_cons, hacts]
      simp
    rw [← handedOver_sendfile fd count result]
    exact hbody _ _ _ fd url count sent hhistory (by simp)
  · intro hall front mid back fd url size sent heq hmid
    obtain ⟨before, l, after, front', back', rfl, hacts, -, hback⟩ := exists_label heq
    obtain ⟨result, rfl⟩ := (hturn l (by simp)).after_header hacts
    have hmem : .sendfile fd size result ∈ history (before ++ l :: after) := by
      refine List.mem_flatMap.mpr ⟨l, by simp, ?_⟩
      rw [hacts]
      simp
    -- the connection is closed right after the file
    have hfile : mid = [.sendfile fd size result] := by
      rcases mid with _ | ⟨act, _ | ⟨act', mid⟩⟩
      · cases (List.cons.inj hback).1
      · rw [(List.cons.inj hback).1]
      · obtain ⟨-, hback⟩ := List.cons.inj hback
        obtain ⟨rfl, -⟩ := List.cons.inj hback
        exact absurd (List.mem_cons_of_mem _ List.mem_cons_self) hmid
    rw [hfile, handedOver_sendfile]
    exact hall fd size result hmem

/-- The file "t" of this size is requested, and `sendfile` sends so many bytes of it. -/
def download (size body : ℕ) : List Label :=
  [.wait [.listen], .accept 5 true, .wait [.conn 5 ⟨true, true⟩],
    .handle 5 [.recv 5 (.data (ascii "GET /t HTTP/1.1\r\n\r\n")), .request 5 (ascii "t"),
      .access (ascii "t") .ok, .openFile (ascii "t") (some size),
      .send 5 (ascii "t") (okHeader size) (some (okHeader size).length),
      .sendfile 5 size (some body), .close 5]]

theorem sizesFit_download {size body : ℕ} (hsize : size < 2 ^ 63) :
    SizesFit (history (download size body)) := by
  intro path size' hmem
  simp only [download, history, Label.acts, List.flatMap_cons, List.flatMap_nil, List.nil_append,
    List.append_nil, List.mem_cons, Act.openFile.injEq, Option.some.injEq, reduceCtorEq, false_or,
    List.not_mem_nil, or_false] at hmem
  rw [hmem.2]
  exact hsize

theorem doWrite_file {ep : EpData} {size : ℕ} (sent : ℕ) (body : Option ℕ) (hurl : ep.urlLen ≠ 0)
    (hsize : size < 2 ^ 63) :
    (doWrite ep ⟨.ok, some size, some sent, body⟩).2 =
      [.access ep.url .ok, .openFile ep.url (some size),
        .send ep.sockfd ep.url (okHeader size) (some sent), .sendfile ep.sockfd size body] ∧
    (doWrite ep ⟨.ok, some size, some sent, body⟩).1.outSize ≠ 0 ∧
    (doWrite ep ⟨.ok, some size, some sent, body⟩).1.sockfd = ep.sockfd := by
  rcases doWrite_cases ep ⟨.ok, some size, some sent, body⟩ with ⟨hzero, -⟩ |
    ⟨-, limit, text, opened, result, sent', hdo, hreply⟩
  · exact absurd hzero hurl
  rw [hdo]
  refine ⟨?_, hreply.length_ne_zero, rfl⟩
  cases hreply with
  | denied haccess => cases haccess
  | missing haccess hfile => cases hfile
  | failed haccess hfile hsend => cases hsend
  | file haccess hfile hsend =>
    cases hfile
    cases hsend
    rw [sentData_eq ep (length_okHeader_lt hsize) le_rfl]
    rfl

theorem run_download {size : ℕ} (hsize : size < 2 ^ 63) (body : ℕ) :
    ∃ s, Run Step Server.init (download size body) s := by
  obtain ⟨ep', hread, hfd, hurl, hurlLen⟩ :=
    getT_isLine.doRead { EpData.zero with sockfd := 5 } (by decide)
  have hpath : ep'.url = ascii "t" := hurl
  have hne : ep'.urlLen ≠ 0 := by
    rw [hurlLen, hpath]
    decide
  obtain ⟨hacts, hout, hsock⟩ := doWrite_file (okHeader size).length (some body) hne hsize
  have hevent := handleEvent_closed hread hout
  rw [hacts, hsock, hpath, hfd] at hevent
  have hconnect := (run_connect 5).mono fun _ _ _ h => h.1
  have hwait : Step ⟨{ EpData.zero with sockfd := 5 }, 2, [], [5]⟩ (.wait [.conn 5 ⟨true, true⟩])
      ⟨{ EpData.zero with sockfd := 5 }, 2, [.conn 5 ⟨true, true⟩], [5]⟩ :=
    .wait rfl (by simp) (by simp)
  exact ⟨_, (hconnect.tail hwait).tail (.handle rfl hevent)⟩

/-- A small file is sent at once. -/
theorem body_complete_small : ∃ s, Run Step Server.init (download 133 133) s ∧
    BodyComplete (history (download 133 133)) := by
  have hsize : 133 < 2 ^ 63 := by omega
  obtain ⟨s, hrun⟩ := run_download hsize 133
  refine ⟨s, hrun, (body_complete_iff hrun (sizesFit_download hsize)).mpr ?_⟩
  intro fd count result hmem
  simp [download, history, Label.acts] at hmem
  rw [hmem.2.1, hmem.2.2]
  rfl

/-- A file of 10 MB of which the socket takes 2 MB only. -/
theorem body_complete_fails : ∃ s, Run Step Server.init (download 10000000 2000000) s ∧
    ¬ BodyComplete (history (download 10000000 2000000)) := by
  obtain ⟨s, hrun⟩ := run_download (by omega : 10000000 < 2 ^ 63) 2000000
  refine ⟨s, hrun, fun hbody => ?_⟩
  have hlost := hbody [.recv 5 (.data (ascii "GET /t HTTP/1.1\r\n\r\n")), .request 5 (ascii "t"),
    .access (ascii "t") .ok, .openFile (ascii "t") (some 10000000)]
    [.sendfile 5 10000000 (some 2000000)] [] 5 (ascii "t") 10000000
    (okHeader 10000000).length rfl (by simp)
  rw [handedOver_sendfile] at hlost
  exact absurd hlost (by decide)

end CDevHws.Hw27
