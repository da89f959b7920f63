import CDevHws.Hw27.Proofs.PathProofs
import CDevHws.Lib.Transition

/-!
# Proofs: one request, one socket

All connections share the record `conn_data`, and `accept` overwrites the descriptor in it. As long
as no connection is accepted while another one is open, the record belongs to the open connection:
its descriptor is the one whose events are handled, and its URL is the one that was read last from
it.
-/

namespace CDevHws.Hw27

open Transition (Run)

/-! ## What has been done -/

/-- The socket that a system call acts on. -/
def Act.socket : Act → Option ℕ
  | .recv fd _ => some fd
  | .send fd _ _ _ => some fd
  | .sendfile fd _ _ => some fd
  | .close fd => some fd
  | _ => none

/-- What is done in a step. -/
def Label.acts : Label → List Act
  | .handle _ acts => acts
  | _ => []

/-- What is done in a run. -/
def history (tr : List Label) : List Act := tr.flatMap Label.acts

/-- The request known of a descriptor, after one more action. -/
def noteRequest (fd : ℕ) (known : Option (List UInt8)) : Act → Option (List UInt8)
  | .request fd' url => if fd' = fd then some url else known
  | _ => known

/-- The request most recently read from a descriptor. -/
def lastRequest (acts : List Act) (fd : ℕ) : Option (List UInt8) :=
  acts.foldl (noteRequest fd) none

/-- After `before`, every response sent in `acts` answers the request most recently read from the
descriptor that it is sent on. -/
def Answered (before acts : List Act) : Prop :=
  ∀ front back fd url data result, acts = front ++ .send fd url data result :: back →
    lastRequest (before ++ front) fd = some url

/-- The system calls for an event of a connection act on its own descriptor, and every response
answers the request most recently read from the descriptor that it is sent on. -/
structure OneSocket (tr : List Label) : Prop where
  own : ∀ fd acts, .handle fd acts ∈ tr → ∀ act ∈ acts, ∀ fd', act.socket = some fd' → fd' = fd
  answered : Answered [] (history tr)

theorem history_append_singleton (tr : List Label) (l : Label) :
    history (tr ++ [l]) = history tr ++ l.acts := by
  unfold history
  rw [List.flatMap_append, List.flatMap_singleton]

theorem lastRequest_append (acts acts' : List Act) (fd : ℕ) :
    lastRequest (acts ++ acts') fd = acts'.foldl (noteRequest fd) (lastRequest acts fd) :=
  List.foldl_append

/-- Without a new request, the last one stays. -/
theorem lastRequest_append_of_quiet {acts acts' : List Act} {fd : ℕ}
    (h : ∀ act ∈ acts', ∀ fd url, act ≠ .request fd url) :
    lastRequest (acts ++ acts') fd = lastRequest acts fd := by
  rw [lastRequest_append]
  generalize lastRequest acts fd = known
  induction acts' generalizing known with
  | nil => rfl
  | cons act acts' ih =>
    have hact : noteRequest fd known act = known := by
      cases act with
      | request fd' url => exact absurd rfl (h _ List.mem_cons_self fd' url)
      | _ => rfl
    rw [List.foldl_cons, hact]
    exact ih (fun a ha => h a (List.mem_cons_of_mem _ ha)) known

theorem lastRequest_append_request (acts : List Act) (fd : ℕ) (url : List UInt8) :
    lastRequest (acts ++ [.request fd url]) fd = some url := by
  rw [lastRequest_append]
  exact if_pos rfl

/-! ## One event -/

@[simp] theorem sockfd_cut (ep : EpData) (i : ℕ) : (ep.cut i).sockfd = ep.sockfd := by
  unfold EpData.cut
  split_ifs
  · rfl
  · rfl

theorem sockfd_storeRequest (ep : EpData) (res : ℕ) :
    (storeRequest ep res).sockfd = ep.sockfd := by
  have hcuts : ∀ (cuts : List ℕ) (ep : EpData), (cuts.foldl EpData.cut ep).sockfd = ep.sockfd := by
    intro cuts ep
    refine List.foldlRecOn (motive := fun ep' => ep'.sockfd = ep.sockfd) cuts EpData.cut rfl ?_
    intro ep' h i _
    rw [sockfd_cut, h]
  unfold storeRequest
  exact (hcuts _ _).trans (sockfd_cut ep res)

/-- `do_read` calls `recv` for the descriptor of the record, and at the end it may have got a
request from it. -/
theorem doRead_spec {ep ep' : EpData} {results : List RecvResult} {acts : List Act}
    (h : doRead ep results = some (ep', acts)) : ep'.sockfd = ep.sockfd ∧
      ∃ recvs, (∀ act ∈ recvs, ∃ result, act = .recv ep.sockfd result) ∧
        (acts = recvs ∧ ep'.url = ep.url ∧ ep'.urlLen = ep.urlLen ∨
          acts = recvs ++ [.request ep.sockfd ep'.url]) := by
  induction results generalizing ep acts with
  | nil => cases h
  | cons result results ih =>
    rcases doRead_cases h with ⟨-, -, rfl, rfl⟩ | ⟨bytes, -, -, -, rfl, rfl⟩ |
      ⟨bytes, acts₁, -, -, hrest, rfl⟩
    · exact ⟨rfl, _, by simp, Or.inl ⟨rfl, rfl, rfl⟩⟩
    · exact ⟨sockfd_storeRequest _ _, [.recv ep.sockfd (.data bytes)], by simp, Or.inr rfl⟩
    · obtain ⟨hfd, recvs, hrecvs, hacts⟩ := ih hrest
      refine ⟨hfd, .recv ep.sockfd (.data bytes) :: recvs, ?_, ?_⟩
      · intro act hact
        rcases List.mem_cons.mp hact with rfl | hact
        · exact ⟨_, rfl⟩
        · exact hrecvs act hact
      · rcases hacts with ⟨hacts, hurl⟩ | hacts
        · exact Or.inl ⟨congrArg _ hacts, hurl⟩
        · exact Or.inr (congrArg _ hacts)

/-- The record `ep` is up to date: if it has a URL, it is the last one read from its descriptor. -/
def UpToDate (acts : List Act) (ep : EpData) : Prop :=
  ep.urlLen ≠ 0 → lastRequest acts ep.sockfd = some ep.url

theorem Answered.append {before acts acts' : List Act} (h : Answered before acts)
    (h' : Answered (before ++ acts) acts') : Answered before (acts ++ acts') := by
  intro front back fd url data result heq
  rcases List.append_eq_append_iff.mp heq with ⟨front', rfl, hacts'⟩ | ⟨back', hacts, hback⟩
  · rw [← List.append_assoc]
    exact h' front' back fd url data result hacts'
  · cases back' with
    | nil =>
      rw [List.append_nil] at hacts
      have hsend := h' [] back fd url data result hback.symm
      rw [List.append_nil, hacts] at hsend
      exact hsend
    | cons act back' =>
      obtain ⟨rfl, -⟩ := List.cons.inj hback
      exact h front back' fd url data result hacts

/-- The actions `acts` act on the descriptor `fd`, and after `before` they send right responses. -/
structure Proper (before : List Act) (fd : ℕ) (acts : List Act) : Prop where
  own : ∀ act ∈ acts, ∀ fd', act.socket = some fd' → fd' = fd
  answered : Answered before acts

theorem Proper.append {before acts acts' : List Act} {fd : ℕ} (h : Proper before fd acts)
    (h' : Proper (before ++ acts) fd acts') : Proper before fd (acts ++ acts') where
  own := by
    intro act hact
    rcases List.mem_append.mp hact with hact | hact
    · exact h.own act hact
    · exact h'.own act hact
  answered := h.answered.append h'.answered

/-- Actions that send no response need only act on the descriptor. -/
theorem proper_of_no_send {before acts : List Act} {fd : ℕ}
    (hown : ∀ act ∈ acts, ∀ fd', act.socket = some fd' → fd' = fd)
    (hsend : ∀ act ∈ acts, ∀ fd' url data result, act ≠ .send fd' url data result) :
    Proper before fd acts where
  own := hown
  answered := by
    intro front back fd' url data result heq
    exact absurd rfl (hsend _ (heq ▸ List.mem_append_right _ List.mem_cons_self) _ _ _ _)

theorem doRead_proper {ep ep' : EpData} {results : List RecvResult} {before acts : List Act}
    (hup : UpToDate before ep) (h : doRead ep results = some (ep', acts)) :
    Proper before ep.sockfd acts ∧ ep'.sockfd = ep.sockfd ∧ UpToDate (before ++ acts) ep' := by
  obtain ⟨hfd, recvs, hrecvs, hacts⟩ := doRead_spec h
  have hproper : ∀ last : List Act, (∀ act ∈ last, ∃ url, act = .request ep.sockfd url) →
      Proper before ep.sockfd (recvs ++ last) := by
    intro last hlast
    refine proper_of_no_send ?_ ?_
    · intro act hact fd' hsocket
      rcases List.mem_append.mp hact with hact | hact
      · obtain ⟨result, rfl⟩ := hrecvs act hact
        exact (Option.some.inj hsocket).symm
      · obtain ⟨url, rfl⟩ := hlast act hact
        cases hsocket
    · rintro act hact fd' url data result rfl
      rcases List.mem_append.mp hact with hact | hact
      · obtain ⟨result', heq⟩ := hrecvs _ hact
        cases heq
      · obtain ⟨url', heq⟩ := hlast _ hact
        cases heq
  have hquiet : ∀ fd, lastRequest (before ++ recvs) fd = lastRequest before fd := by
    intro fd
    refine lastRequest_append_of_quiet ?_
    rintro act hact fd' url rfl
    obtain ⟨result, heq⟩ := hrecvs _ hact
    cases heq
  rcases hacts with ⟨rfl, hurl, hurlLen⟩ | rfl
  · refine ⟨?_, hfd, ?_⟩
    · rw [← List.append_nil acts]
      exact hproper [] (by simp)
    · intro hlen
      rw [hquiet, hfd, hurl]
      exact hup (hurlLen ▸ hlen)
  · refine ⟨hproper _ (by simp), hfd, ?_⟩
    intro _
    rw [← List.append_assoc, hfd]
    exact lastRequest_append_request _ _ _

/-- `do_write` sends its responses on the descriptor of the record, for the URL of the record. -/
theorem doWrite_proper {ep : EpData} {before : List Act} (hup : UpToDate before ep)
    (answers : Answers) :
    Proper before ep.sockfd (doWrite ep answers).2 ∧
      (doWrite ep answers).1.sockfd = ep.sockfd ∧
      UpToDate (before ++ (doWrite ep answers).2) (doWrite ep answers).1 := by
  rcases doWrite_cases ep answers with ⟨-, hdo⟩ |
    ⟨hurl, limit, text, opened, result, sent, hdo, hreply⟩
  · rw [hdo, List.append_nil]
    exact ⟨proper_of_no_send (by simp) (by simp), rfl, hup⟩
  · rw [hdo]
    -- every action is one of these, and none is a new request
    have hmem : ∀ act ∈ Act.access ep.url answers.access ::
        (opened ++ .send ep.sockfd ep.url (sentData ep limit text) result :: sent),
        act = .access ep.url answers.access ∨ (∃ size, act = .openFile ep.url size) ∨
          act = .send ep.sockfd ep.url (sentData ep limit text) result ∨
          ∃ count result, act = .sendfile ep.sockfd count result := by
      intro act hact
      simp only [List.mem_cons, List.mem_append] at hact
      rcases hact with hact | hact | hact | hact
      · exact Or.inl hact
      · exact Or.inr (Or.inl (hreply.openFile_of_mem act hact))
      · exact Or.inr (Or.inr (Or.inl hact))
      · exact Or.inr (Or.inr (Or.inr (hreply.sendfile_of_mem act hact)))
    have hquiet : ∀ acts, (∀ act ∈ acts, act ∈ Act.access ep.url answers.access ::
        (opened ++ .send ep.sockfd ep.url (sentData ep limit text) result :: sent)) →
        lastRequest (before ++ acts) ep.sockfd = some ep.url := by
      intro acts hacts
      rw [lastRequest_append_of_quiet, hup hurl]
      rintro act hact fd url rfl
      rcases hmem _ (hacts _ hact) with heq | ⟨size, heq⟩ | heq | ⟨count, result', heq⟩
      · cases heq
      · cases heq
      · cases heq
      · cases heq
    refine ⟨⟨?_, ?_⟩, rfl, fun _ => hquiet _ fun act hact => hact⟩
    · intro act hact fd' hsocket
      rcases hmem act hact with rfl | ⟨size, rfl⟩ | rfl | ⟨count, result', rfl⟩
      · cases hsocket
      · cases hsocket
      · exact (Option.some.inj hsocket).symm
      · exact (Option.some.inj hsocket).symm
    · intro front back fd' url data result' hacts
      have hsend : Act.send fd' url data result' =
          .send ep.sockfd ep.url (sentData ep limit text) result := by
        rcases hmem _ (hacts ▸ List.mem_append_right _ List.mem_cons_self) with
          heq | ⟨size, heq⟩ | heq | ⟨count, result'', heq⟩
        · cases heq
        · cases heq
        · exact heq
        · cases heq
      cases hsend
      refine hquiet front fun act hact => ?_
      simp only at hacts
      rw [hacts]
      exact List.mem_append_left _ hact

/-- `handleEvent` reads first, then writes. -/
theorem handleEvent_eq (ep : EpData) (mask : Mask) (results : List RecvResult)
    (answers : Answers) : handleEvent ep mask results answers =
      (if mask.input then doRead ep results else some (ep, [])).map fun read =>
        let wrote := if mask.output then doWrite read.1 answers else (read.1, [])
        if wrote.1.outSize ≠ 0 then
          (.zero, read.2 ++ wrote.2 ++ [.close wrote.1.sockfd], some wrote.1.sockfd)
        else (wrote.1, read.2 ++ wrote.2, none) := by
  have hpure : ∀ (p : EpData × List Act),
      (if p.1.outSize ≠ 0 then pure (.zero, p.2 ++ [.close p.1.sockfd], some p.1.sockfd)
        else pure (p.1, p.2, none) : Option (EpData × List Act × Option ℕ)) =
      some (if p.1.outSize ≠ 0 then (.zero, p.2 ++ [.close p.1.sockfd], some p.1.sockfd)
        else (p.1, p.2, none)) := by
    intro p
    split_ifs
    · rfl
    · rfl
  unfold handleEvent
  split_ifs
  · rcases doRead ep results with _ | ⟨ep₁, acts₁⟩
    · rfl
    · exact hpure ((doWrite ep₁ answers).1, acts₁ ++ (doWrite ep₁ answers).2)
  · exact hpure (_, _)
  · rcases doRead ep results with _ | ⟨ep₁, acts₁⟩
    · rfl
    · exact hpure (ep₁, acts₁ ++ [])
  · exact hpure (_, _)

/-- Handling an event acts on the descriptor of the record. Afterwards either the record is still
up to date, or it has been cleared and its descriptor closed. -/
theorem handleEvent_proper {ep ep' : EpData} {mask : Mask} {results : List RecvResult}
    {answers : Answers} {before acts : List Act} {closed : Option ℕ} (hup : UpToDate before ep)
    (h : handleEvent ep mask results answers = some (ep', acts, closed)) :
    Proper before ep.sockfd acts ∧
      (closed = none ∧ ep'.sockfd = ep.sockfd ∧ UpToDate (before ++ acts) ep' ∨
        closed = some ep.sockfd ∧ ep' = .zero) := by
  rw [handleEvent_eq, Option.map_eq_some_iff] at h
  obtain ⟨⟨ep₁, acts₁⟩, hres, heq⟩ := h
  have hread : Proper before ep.sockfd acts₁ ∧ ep₁.sockfd = ep.sockfd ∧
      UpToDate (before ++ acts₁) ep₁ := by
    split_ifs at hres
    · exact doRead_proper hup hres
    · cases hres
      rw [List.append_nil]
      exact ⟨proper_of_no_send (by simp) (by simp), rfl, hup⟩
  obtain ⟨hproper₁, hfd₁, hup₁⟩ := hread
  have hwrite : ∃ ep₂ acts₂, Proper (before ++ acts₁) ep.sockfd acts₂ ∧
      ep₂.sockfd = ep.sockfd ∧ UpToDate (before ++ (acts₁ ++ acts₂)) ep₂ ∧
      (if mask.output then doWrite ep₁ answers else (ep₁, [])) = (ep₂, acts₂) := by
    split_ifs
    · obtain ⟨hproper, hfd, hup₂⟩ := doWrite_proper hup₁ answers
      rw [List.append_assoc] at hup₂
      exact ⟨_, _, hfd₁ ▸ hproper, hfd.trans hfd₁, hup₂, rfl⟩
    · refine ⟨ep₁, [], proper_of_no_send (by simp) (by simp), hfd₁, ?_, rfl⟩
      rw [List.append_nil]
      exact hup₁
  obtain ⟨ep₂, acts₂, hproper₂, hfd₂, hup₂, hwrote⟩ := hwrite
  have hproper := hproper₁.append hproper₂
  simp only [hwrote] at heq
  split_ifs at heq with hout
  · cases heq
    refine ⟨hproper.append (proper_of_no_send ?_ (by simp)), Or.inr ⟨congrArg some hfd₂, rfl⟩⟩
    intro act hact fd' hsocket
    rw [List.mem_singleton.mp hact] at hsocket
    exact (Option.some.inj hsocket).symm.trans hfd₂
  · cases heq
    exact ⟨hproper, Or.inl ⟨rfl, hfd₂, hup₂⟩⟩

/-! ## Runs -/

/-- A step in which a connection is accepted only while no other one is open. -/
def Solo (s : Server) (l : Label) (s' : Server) : Prop :=
  Step s l s' ∧ ∀ fd added, l = .accept fd added → s.registered = []

/-- What holds after `tr` as long as there is one connection at a time. -/
structure Alone (tr : List Label) (s : Server) : Prop where
  oneSocket : OneSocket tr
  /-- The record is clear, or it is the one of the open connection. -/
  owner : s.registered = [] ∧ s.connData.urlLen = 0 ∨ s.registered = [s.connData.sockfd]
  upToDate : UpToDate (history tr) s.connData
  watched : ∀ fd mask, .conn fd mask ∈ s.batch → fd ∈ s.registered
  once : s.batch.Pairwise fun e e' => ∀ fd mask mask', e = .conn fd mask → e' ≠ .conn fd mask'

theorem OneSocket.append {tr : List Label} (h : OneSocket tr) {fd : ℕ} {acts : List Act}
    (hproper : Proper (history tr) fd acts) : OneSocket (tr ++ [.handle fd acts]) where
  own := by
    intro fd' acts' hmem
    rcases List.mem_append.mp hmem with hmem | hmem
    · exact h.own fd' acts' hmem
    · cases List.mem_singleton.mp hmem
      exact hproper.own
  answered := by
    rw [history_append_singleton]
    exact h.answered.append hproper.answered

/-- A step without an event of a connection does nothing. -/
theorem OneSocket.append_of_no_handle {tr : List Label} (h : OneSocket tr) {l : Label}
    (hl : ∀ fd acts, l ≠ .handle fd acts) :
    OneSocket (tr ++ [l]) ∧ history (tr ++ [l]) = history tr := by
  have hacts : l.acts = [] := by
    cases l with
    | handle fd acts => exact absurd rfl (hl fd acts)
    | _ => rfl
  have hhist : history (tr ++ [l]) = history tr := by
    rw [history_append_singleton, hacts, List.append_nil]
  refine ⟨⟨?_, hhist ▸ h.answered⟩, hhist⟩
  intro fd acts hmem
  rcases List.mem_append.mp hmem with hmem | hmem
  · exact h.own fd acts hmem
  · exact absurd (List.mem_singleton.mp hmem).symm (hl fd acts)

theorem alone_init : Alone [] Server.init where
  oneSocket := by
    refine ⟨by simp, ?_⟩
    intro front back fd url data result heq
    exact absurd heq.symm (by simp [history])
  owner := Or.inl ⟨rfl, rfl⟩
  upToDate := fun h => absurd rfl h
  watched := by simp [Server.init]
  once := List.Pairwise.nil

/-- Handling an event keeps the invariant: either the connection stays the only one, or it is
closed and has no more events. -/
theorem alone_handle {tr : List Label} {s : Server} {rest : List Event} {fd : ℕ} {mask : Mask}
    {results : List RecvResult} {answers : Answers} {connData : EpData} {acts : List Act}
    {closed : Option ℕ} (h : Alone tr s) (hbatch : s.batch = .conn fd mask :: rest)
    (hevent : handleEvent s.connData mask results answers = some (connData, acts, closed)) :
    Alone (tr ++ [.handle fd acts]) (afterEvent s rest connData closed) := by
  have hmem : fd ∈ s.registered := h.watched fd mask (hbatch ▸ List.mem_cons_self)
  have hown : s.registered = [s.connData.sockfd] := by
    rcases h.owner with ⟨hnone, -⟩ | hone
    · rw [hnone] at hmem
      cases hmem
    · exact hone
  have hfd : fd = s.connData.sockfd := by
    rw [hown] at hmem
    exact List.mem_singleton.mp hmem
  obtain ⟨hproper, hafter⟩ := handleEvent_proper h.upToDate hevent
  have honce := h.once
  rw [hbatch, List.pairwise_cons] at honce
  have hrest : ∀ fd' mask', .conn fd' mask' ∈ rest → fd' ∈ s.registered :=
    fun fd' mask' hin => h.watched fd' mask' (hbatch ▸ List.mem_cons_of_mem _ hin)
  have hone : OneSocket (tr ++ [.handle fd acts]) := h.oneSocket.append (hfd ▸ hproper)
  rcases hafter with ⟨rfl, hsame, hup⟩ | ⟨rfl, rfl⟩
  · refine ⟨hone, Or.inr ?_, ?_, hrest, honce.2⟩
    · exact hown.trans (congrArg (fun fd => [fd]) hsame.symm)
    · rw [history_append_singleton]
      exact hup
  · have herase : s.registered.erase s.connData.sockfd = [] := by
      rw [hown]
      simp
    refine ⟨hone, Or.inl ⟨herase, rfl⟩, fun hlen => absurd rfl hlen, ?_, honce.2⟩
    intro fd' mask' hin
    have hreg := hrest fd' mask' hin
    rw [hown, List.mem_singleton, ← hfd] at hreg
    subst hreg
    exact absurd rfl (honce.1 _ hin fd' mask mask' rfl)

theorem alone_step {tr : List Label} {s s' : Server} {l : Label} (h : Alone tr s)
    (hstep : Solo s l s') : Alone (tr ++ [l]) s' := by
  obtain ⟨hstep, hsolo⟩ := hstep
  cases hstep with
  | wait hidle hopen honce =>
    obtain ⟨hone, hhist⟩ := h.oneSocket.append_of_no_handle (l := .wait _) (by simp)
    exact ⟨hone, h.owner, hhist ▸ h.upToDate, hopen, honce⟩
  | @refuse rest hbatch =>
    obtain ⟨hone, hhist⟩ := h.oneSocket.append_of_no_handle (l := .refuse) (by simp)
    have honce := h.once
    rw [hbatch] at honce
    refine ⟨hone, h.owner, hhist ▸ h.upToDate, ?_, honce.of_cons⟩
    intro fd mask hmem
    exact h.watched fd mask (hbatch ▸ List.mem_cons_of_mem _ hmem)
  | @accept rest fd added hbatch hnew hroom =>
    obtain ⟨hone, hhist⟩ := h.oneSocket.append_of_no_handle (l := .accept fd added) (by simp)
    have hnone := hsolo fd added rfl
    have hclear : s.connData.urlLen = 0 := by
      rcases h.owner with ⟨-, hclear⟩ | hown
      · exact hclear
      · rw [hnone] at hown
        cases hown
    have honce := h.once
    rw [hbatch] at honce
    refine ⟨hone, ?_, fun hlen => absurd hclear hlen, ?_, honce.of_cons⟩
    · cases added
      · exact Or.inl ⟨hnone, hclear⟩
      · exact Or.inr (congrArg (List.cons fd) hnone)
    · intro fd' mask hmem
      have hin := h.watched fd' mask (hbatch ▸ List.mem_cons_of_mem _ hmem)
      rw [hnone] at hin
      cases hin
  | handle hbatch hevent => exact alone_handle h hbatch hevent

/-- A client connects to a server without connections. -/
theorem run_connect (fd : ℕ) : Run Solo Server.init [.wait [.listen], .accept fd true]
    ⟨{ EpData.zero with sockfd := fd }, 2, [], [fd]⟩ := by
  have hwait : Solo Server.init (.wait [.listen]) { Server.init with batch := [.listen] } :=
    ⟨.wait rfl (by simp) (by simp), by simp⟩
  have haccept : Step { Server.init with batch := [.listen] } (.accept fd true)
      (acceptConn { Server.init with batch := [.listen] } [] fd true) :=
    .accept rfl (by simp [Server.init]) (by simp [Server.init])
  exact (Run.single hwait).tail ⟨haccept, fun _ _ _ => rfl⟩

/-- What happens when a client connects and sends a request, and `acts` are done for it. -/
def session (fd : ℕ) (acts : List Act) : List Label :=
  [.wait [.listen], .accept fd true, .wait [.conn fd ⟨true, true⟩], .handle fd acts]

theorem ascii_append (s t : String) : ascii (s ++ t) = ascii s ++ ascii t := by
  unfold ascii
  rw [String.toList_append, List.map_append]

theorem notFound_code : notFound[9]? = some 52 := by
  unfold notFound
  rw [ascii_append, ascii_append]
  rfl

theorem doWrite_missing {ep : EpData} (h : ep.urlLen ≠ 0) : ∃ ep' acts data,
    doWrite ep ⟨.ok, none, some 133, none⟩ = (ep', acts) ∧ ep'.outSize ≠ 0 ∧
      ep'.sockfd = ep.sockfd ∧ .send ep.sockfd ep.url data (some 133) ∈ acts := by
  have hwrite : doWrite ep ⟨.ok, none, some 133, none⟩ = (ep.print (bufsize - 1) notFound,
      [.access ep.url .ok, .openFile ep.url none,
        (ep.print (bufsize - 1) notFound).sendOut (some 133)]) := if_pos h
  have hsize : notFound.length ≠ 0 := by
    intro hnil
    have hcode := notFound_code
    rw [List.length_eq_zero_iff.mp hnil] at hcode
    cases hcode
  generalize notFound = text at hwrite hsize
  rw [sendOut_print] at hwrite
  exact ⟨_, _, sentData ep (bufsize - 1) text, hwrite, hsize, rfl, by simp⟩

/-- A client that asks for a file that is not there gets a response, and its connection is closed:
the server is as before. -/
theorem run_session (fd : ℕ) {bytes : List UInt8} (hlen : bytes.length ≤ bufsize)
    (hends : crlfcrlf <:+: CString.ofBytes bytes)
    (hurl : (parseRequest (CString.ofBytes bytes)).1 ≠ []) : ∃ acts data,
    Run Solo Server.init (session fd acts) Server.init ∧
      .send fd (parseRequest (CString.ofBytes bytes)).1 data (some 133) ∈ acts := by
  obtain ⟨ep, hep⟩ : ∃ ep : EpData, ep = { EpData.zero with sockfd := fd } := ⟨_, rfl⟩
  obtain ⟨hstoredUrl, hstoredLen⟩ := storeRequest_url ep hlen
  obtain ⟨acts, hread⟩ := doRead_single ep hlen hends
  have hfd : (storeRequest { ep with inBuf := ep.inBuf.write bytes } bytes.length).sockfd = fd := by
    rw [sockfd_storeRequest, hep]
  generalize storeRequest { ep with inBuf := ep.inBuf.write bytes } bytes.length = stored at *
  have hne : stored.urlLen ≠ 0 := by
    rw [hstoredLen, hstoredUrl]
    exact fun hzero => hurl (List.length_eq_zero_iff.mp hzero)
  obtain ⟨written, acts', data, hwrite, hsize, hsame, hmem⟩ := doWrite_missing hne
  rw [hfd] at hsame hmem
  rw [hstoredUrl] at hmem
  have hevent : handleEvent ep ⟨true, true⟩ [.data bytes] ⟨.ok, none, some 133, none⟩ =
      some (.zero, acts ++ acts' ++ [.close fd], some fd) := by
    rw [handleEvent_eq, if_pos rfl]
    refine (congrArg (Option.map _) hread).trans ?_
    simp only [Option.map_some, if_true, hwrite, if_pos hsize, hsame]
  have hwait : Solo ⟨ep, 2, [], [fd]⟩ (.wait [.conn fd ⟨true, true⟩])
      ⟨ep, 2, [.conn fd ⟨true, true⟩], [fd]⟩ := ⟨.wait rfl (by simp) (by simp), by simp⟩
  have hhandle : Solo ⟨ep, 2, [.conn fd ⟨true, true⟩], [fd]⟩
      (.handle fd (acts ++ acts' ++ [.close fd])) (afterEvent _ [] .zero (some fd)) :=
    ⟨.handle rfl hevent, by simp⟩
  have hend : afterEvent ⟨ep, 2, [.conn fd ⟨true, true⟩], [fd]⟩ [] .zero (some fd) =
      Server.init := by
    unfold afterEvent Server.init
    simp
  have hconnect := run_connect fd
  rw [← hep] at hconnect
  rw [hend] at hhandle
  refine ⟨_, data, (hconnect.tail hwait).tail hhandle, ?_⟩
  exact List.mem_append_left _ (List.mem_append_right _ hmem)

/-- In every run in which a connection is accepted only while no other one is open, the calls made
for a connection act on its own descriptor, and every response answers the request most recently
read from the descriptor that it is sent on. -/
theorem one_socket_of_solo {tr : List Label} {s : Server} (h : Run Solo Server.init tr s) :
    OneSocket tr := by
  have hrun : Alone tr s := h.history alone_init fun _ _ _ _ => alone_step
  exact hrun.oneSocket

/-- One client asks for "t", and after it another one, with another descriptor, for "u". -/
theorem one_socket_of_solo_two : ∃ acts acts' data data',
    Run Solo Server.init (session 5 acts ++ session 6 acts') Server.init ∧
      .send 5 (ascii "t") data (some 133) ∈ acts ∧ .send 6 (ascii "u") data' (some 133) ∈ acts' ∧
      OneSocket (session 5 acts ++ session 6 acts') := by
  have hlen : (ascii "GET /t HTTP/1.1\r\n\r\n").length ≤ bufsize := by decide
  have hlen' : (ascii "GET /u HTTP/1.1\r\n\r\n").length ≤ bufsize := by decide
  obtain ⟨acts, data, hrun, hmem⟩ := run_session 5 hlen (by decide) (by decide)
  obtain ⟨acts', data', hrun', hmem'⟩ := run_session 6 hlen' (by decide) (by decide)
  have hboth := hrun.append hrun'
  exact ⟨acts, acts', data, data', hboth, hmem, hmem', one_socket_of_solo hboth⟩

/-- Two clients are connected; an event of the first one reads from the second one. -/
theorem two_sockets : ∃ s,
    Run Step Server.init [.wait [.listen], .accept 5 true, .wait [.listen], .accept 6 true,
      .wait [.conn 5 ⟨true, false⟩], .handle 5 [.recv 6 .error]] s ∧
    ¬ OneSocket [.wait [.listen], .accept 5 true, .wait [.listen], .accept 6 true,
      .wait [.conn 5 ⟨true, false⟩], .handle 5 [.recv 6 .error]] := by
  set ep : ℕ → EpData := fun fd => { EpData.zero with sockfd := fd } with hep
  have hlisten : Step ⟨ep 5, 2, [], [5]⟩ (.wait [.listen]) ⟨ep 5, 2, [.listen], [5]⟩ :=
    .wait rfl (by simp) (by simp)
  have haccept : Step ⟨ep 5, 2, [.listen], [5]⟩ (.accept 6 true) ⟨ep 6, 3, [], [6, 5]⟩ :=
    .accept rfl (by simp) (by simp)
  have hwait : Step ⟨ep 6, 3, [], [6, 5]⟩ (.wait [.conn 5 ⟨true, false⟩])
      ⟨ep 6, 3, [.conn 5 ⟨true, false⟩], [6, 5]⟩ := .wait rfl (by simp) (by simp)
  have hevent : handleEvent (ep 6) ⟨true, false⟩ [.error] ⟨.ok, none, none, none⟩ =
      some (ep 6, [.recv 6 .error], none) := by
    rw [handleEvent_eq]
    rfl
  have hhandle : Step ⟨ep 6, 3, [.conn 5 ⟨true, false⟩], [6, 5]⟩ (.handle 5 [.recv 6 .error])
      (afterEvent _ [] (ep 6) none) := .handle rfl hevent
  have hconnect := (run_connect 5).mono fun _ _ _ h => h.1
  refine ⟨_, (((hconnect.tail hlisten).tail haccept).tail hwait).tail hhandle, ?_⟩
  intro hone
  have hfd := hone.own 5 [.recv 6 .error] (by simp) _ List.mem_cons_self 6 rfl
  cases hfd

end CDevHws.Hw27
