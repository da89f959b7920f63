import CDevHws.FinalProject.Network
import CDevHws.FinalProject.Proofs.IsolationProofs
import CDevHws.FinalProject.Proofs.VsPortProofs

/-!
# Proofs: the frames in the network

In every run of the network, whatever the order of the steps and whatever is lost, doubled or
reordered, the switch hears only ports and the ports hear only the switch. So all frames on the way
are frames that some port has read, and the ports keep sending to the switch. What is known about
the runs of the switch alone holds of its steps in the network.
-/

namespace CDevHws.FinalProject

open AgingTable (Seen)
open Transition (Run)

/-! ## A step of the switch -/

/-- An endpoint in the table is the sender of the datagram, or it has been there before. -/
theorem table_step {s s' : Switch} {l : Label} (h : Step s l s') {k : Text} {r' : MacRecord}
    (hr : s'.macTable.lookup k = some r') :
    (∃ data, l.received = .datagram r'.cliAddr data) ∨
      ∃ r, s.macTable.lookup k = some r ∧ r.cliAddr = r'.cliAddr := by
  cases h with
  | recv r iter hpc hiter =>
    rw [body_macTable] at hr
    cases r with
    | error => exact Or.inr ⟨r', hr, rfl⟩
    | datagram sender data =>
      by_cases hpos : 0 < (s.receive (.datagram sender data)).1
      · rw [if_pos hpos] at hr
        have hlearn : (macLearning s.macTable _ sender).lookup k = some r' := hr
        rw [lookup_macLearning] at hlearn
        by_cases hk : k = macStr (etherShost (s.receive (.datagram sender data)).2.etherData)
        · rw [if_pos hk] at hlearn
          cases hlearn
          exact Or.inl ⟨data, rfl⟩
        · rw [if_neg hk] at hlearn
          exact Or.inr ⟨r', hlearn, rfl⟩
      · rw [if_neg hpos] at hr
        exact Or.inr ⟨r', hr, rfl⟩
  | refresh hpc hflag =>
    have hage : s.refreshAge.macTable.lookup k = some r' := hr
    rw [lookup_refreshAge, Option.bind_eq_some_iff] at hage
    obtain ⟨r, hold, hif⟩ := hage
    by_cases hage : 20 < r.age.toNat
    · rw [if_pos hage] at hif
      cases hif
    · rw [if_neg hage] at hif
      cases hif
      exact Or.inr ⟨r, hold, rfl⟩
  | skip hpc hflag => exact Or.inr ⟨r', hr, rfl⟩
  | sigalrm halarm => exact Or.inr ⟨r', hr, rfl⟩

theorem mem_frameForwarding {t : MacTable} {iter : List MacEntry}
    (hiter : GHashTable.Enumerates iter t) {ethSrc ethDst : Text} {addr : SockaddrIn}
    {frame : List UInt8} {sent : List Send}
    (h : frameForwarding t iter ethSrc ethDst addr frame = some sent) {x : Send} (hx : x ∈ sent) :
    ∃ k record, t.lookup k = some record ∧ x = ⟨record.cliAddr, frame⟩ := by
  have hflood : x ∈ flood iter ethSrc frame →
      ∃ k record, t.lookup k = some record ∧ x = ⟨record.cliAddr, frame⟩ := by
    intro hmem
    obtain ⟨k, record, hr, -, hxr⟩ := (mem_flood_iff hiter).mp hmem
    exact ⟨k, record, hr, hxr⟩
  unfold frameForwarding at h
  cases ht : t.lookup ethDst with
  | some record =>
    simp only [ht] at h
    by_cases hport : record.cliAddr.sinPort = addr.sinPort
    · rw [if_pos hport] at h
      cases h
    · rw [if_neg hport] at h
      cases h
      exact ⟨ethDst, record, ht, List.mem_singleton.mp hx⟩
  | none =>
    simp only [ht, ite_self, Option.some.injEq] at h
    exact hflood (h ▸ hx)

/-- What the switch sends is the datagram it has just received, to endpoints of its table. -/
theorem mem_body_sent {s : Switch} {r : Recv} {iter : List MacEntry}
    (hiter : GHashTable.Enumerates iter (s.receive r).2.learn.macTable) {x : Send}
    (hx : x ∈ (s.body r iter).2) :
    ∃ sender data k record, r = .datagram sender data ∧
      (s.body r iter).1.macTable.lookup k = some record ∧
      x = ⟨record.cliAddr, data.take etherMaxLen⟩ := by
  rw [body_macTable]
  unfold Switch.body at hx
  by_cases hpos : 0 < (s.receive r).1
  · cases r with
    | error => cases hpos
    | datagram sender data =>
      have hn : (s.receive (.datagram sender data)).1.toNat = min data.length etherMaxLen := by
        show ((min data.length etherMaxLen : ℤ)).toNat = _
        omega
      have hbytes : (s.receive (.datagram sender data)).2.learn.etherData.bytes
          (s.receive (.datagram sender data)).1.toNat = data.take etherMaxLen := by
        rw [hn]
        exact bytes_recvfrom s.switchAddr sender s.etherData data
      simp only [gt_iff_lt, if_pos hpos, hbytes] at hx
      rw [if_pos hpos]
      split at hx
      · cases hx
      · rename_i sent hsent
        obtain ⟨k, record, hrecord, hxr⟩ := mem_frameForwarding hiter hsent hx
        exact ⟨sender, data, k, record, rfl, hrecord, hxr⟩
  · simp only [gt_iff_lt, if_neg hpos] at hx
    cases hx

theorem mem_datagrams {s s' : Switch} {l : Label} (h : Step s l s') {source : SockaddrIn}
    {d : Datagram} (hd : d ∈ l.datagrams source) :
    ∃ sender data k record, l.received = .datagram sender data ∧
      s'.macTable.lookup k = some record ∧
      d = ⟨source, record.cliAddr, data.take etherMaxLen⟩ := by
  cases h with
  | recv r iter hpc hiter =>
    obtain ⟨x, hx, rfl⟩ := List.mem_map.mp hd
    obtain ⟨sender, data, k, record, hr, hrecord, rfl⟩ := mem_body_sent hiter hx
    exact ⟨sender, data, k, record, hr, hrecord, rfl⟩
  | refresh => cases hd
  | skip => cases hd
  | sigalrm => cases hd

theorem dstMac_take (data : List UInt8) : dstMac (data.take etherMaxLen) = dstMac data := by
  apply Vector.ext
  intro i hi
  simp only [dstMac, Vector.getElem_ofFn, List.getD_eq_getElem?_getD]
  rw [List.getElem?_take_of_lt (by unfold etherMaxLen; omega)]

theorem srcMac_take (data : List UInt8) : srcMac (data.take etherMaxLen) = srcMac data := by
  apply Vector.ext
  intro i hi
  simp only [srcMac, Vector.getElem_ofFn, List.getD_eq_getElem?_getD]
  rw [List.getElem?_take_of_lt (by unfold etherMaxLen; omega)]

/-- The table that a datagram meets holds what was last seen, the datagram included. -/
theorem learned_iff_seen {tr : List Label} {s : Switch} (h : SwitchRun tr s) (hf : WholeFrames tr)
    (sender : SockaddrIn) {data : List UInt8} (hlen : 14 ≤ data.length) (m : Mac)
    (e : SockaddrIn) (k : ℕ) :
    (∃ r, (s.learned sender data).lookup (macStr m) = some r ∧ r.cliAddr = e ∧ r.age.toNat = k) ↔
      Seen (history tr ++ [.learn (srcMac data) sender]) m e k ∧ k < 22 := by
  have hview : tableView (s.learned sender data) =
      AgingTable.after 20 (history tr ++ [.learn (srcMac data) sender]) := by
    unfold Switch.learned
    rw [learned_macTable s sender (by omega), tableView_macLearning, tableView_run h hf,
      AgingTable.after_append_singleton]
    rfl
  rw [← tableView_eq_some_iff, hview, AgingTable.after_eq_some_iff]
  exact and_congr_right fun _ => Nat.lt_succ_iff.symm

/-! ## The invariant -/

variable {ι : Type} {a : Addresses ι} {tr : List (NetLabel ι)} {n : Network ι}

theorem entered_append {tr' : List (NetLabel ι)} {i : ι} {frame : List UInt8} :
    Entered (tr ++ tr') i frame ↔ Entered tr i frame ∨ Entered tr' i frame := by
  unfold Entered
  simp only [List.mem_append, exists_or]

theorem Entered.append {i : ι} {frame : List UInt8} (h : Entered tr i frame)
    (tr' : List (NetLabel ι)) : Entered (tr ++ tr') i frame := entered_append.mpr (Or.inl h)

theorem WholeEntered.left {tr' : List (NetLabel ι)} (h : WholeEntered (tr ++ tr')) :
    WholeEntered tr :=
  fun i frame hframe => h i frame (hframe.append tr')

/-- The bytes are those of a frame that the port has read. -/
def Carries (tr : List (NetLabel ι)) (i : ι) (data : List UInt8) : Prop :=
  ∃ frame, Entered tr i frame ∧ data = frame.take etherMaxLen

theorem Carries.append {i : ι} {data : List UInt8} (h : Carries tr i data)
    (tr' : List (NetLabel ι)) : Carries (tr ++ tr') i data := by
  obtain ⟨frame, hframe, hdata⟩ := h
  exact ⟨frame, hframe.append tr', hdata⟩

theorem Carries.take {i : ι} {data : List UInt8} (h : Carries tr i data) :
    Carries tr i (data.take etherMaxLen) := by
  obtain ⟨frame, hframe, rfl⟩ := h
  exact ⟨frame, hframe, by rw [List.take_take, Nat.min_self]⟩

/-- A datagram from a port to the switch, or from the switch to a port, with a frame that a port has
read. -/
def Proper (a : Addresses ι) (tr : List (NetLabel ι)) (d : Datagram) : Prop :=
  (∃ i, d.source = a.port i ∧ d.dest = a.server ∧ Carries tr i d.data) ∨
    ∃ i j, d.source = a.server ∧ d.dest = a.port j ∧ Carries tr i d.data

/-- What holds in every state of the network. -/
structure NetInv (a : Addresses ι) (tr : List (NetLabel ι)) (n : Network ι) : Prop where
  /-- The ports know the switch. -/
  port : ∀ i, (n.port i).port.switchAddr = a.server
  /-- The switch knows ports only. -/
  table : ∀ k r, n.switch.macTable.lookup k = some r → ∃ j, r.cliAddr = a.port j
  sent : ∀ d ∈ n.sent, Proper a tr d

theorem Proper.append {d : Datagram} (h : Proper a tr d) (tr' : List (NetLabel ι)) :
    Proper a (tr ++ tr') d := by
  rcases h with ⟨i, hsource, hdest, hdata⟩ | ⟨i, j, hsource, hdest, hdata⟩
  · exact Or.inl ⟨i, hsource, hdest, hdata.append tr'⟩
  · exact Or.inr ⟨i, j, hsource, hdest, hdata.append tr'⟩

/-- The switch hears only ports. -/
theorem NetInv.of_switch (h : NetInv a tr n) {sender : SockaddrIn} {data : List UInt8}
    (hr : Available n.sent a.server (.datagram sender data)) :
    ∃ i, sender = a.port i ∧ Carries tr i data := by
  rcases h.sent _ hr with ⟨i, hsource, -, hdata⟩ | ⟨i, j, -, hdest, -⟩
  · exact ⟨i, hsource, hdata⟩
  · exact absurd hdest.symm (a.port_ne_server j)

/-- The ports hear only the switch. -/
theorem NetInv.of_port (h : NetInv a tr n) {j : ι} {sender : SockaddrIn} {data : List UInt8}
    (hr : Available n.sent (a.port j) (.datagram sender data)) :
    sender = a.server ∧ ∃ i, Carries tr i data := by
  rcases h.sent _ hr with ⟨i, -, hdest, -⟩ | ⟨i, j', hsource, -, hdata⟩
  · exact absurd hdest (a.port_ne_server j)
  · exact ⟨hsource, i, hdata⟩

theorem receiveTask_calls (s : PortState) {r : Recv} {c : PortCall} (hc : c ∈ (s.receiveTask r).2) :
    ∃ sender data, r = .datagram sender data ∧ c = .write s.port.tapfd (data.take etherMaxLen) := by
  cases r with
  | error => cases hc
  | datagram sender data =>
    refine ⟨sender, data, rfl, ?_⟩
    have hn : (recvfrom s.port.switchAddr s.etherData (.datagram sender data)).1.toNat =
        min data.length etherMaxLen := by
      show ((min data.length etherMaxLen : ℤ)).toNat = _
      omega
    unfold PortState.receiveTask at hc
    simp only [hn, bytes_recvfrom] at hc
    split at hc
    · exact List.mem_singleton.mp hc
    · cases hc

theorem receiveTask_datagrams (s : PortState) (r : Recv) (source : SockaddrIn) :
    (s.receiveTask r).2.filterMap (PortCall.datagram source) = [] := by
  refine List.filterMap_eq_nil_iff.mpr ?_
  intro c hc
  obtain ⟨sender, data, -, rfl⟩ := receiveTask_calls s hc
  rfl

theorem mem_sendTask_datagrams {p : VsPort} {frame : Option (List UInt8)} {source : SockaddrIn}
    {d : Datagram} (hd : d ∈ (p.sendTask frame).filterMap (PortCall.datagram source)) :
    ∃ bytes, frame = some bytes ∧ d = ⟨source, p.switchAddr, bytes.take etherMaxLen⟩ := by
  obtain ⟨c, hc, hcd⟩ := List.mem_filterMap.mp hd
  cases frame with
  | none => cases hc
  | some bytes =>
    simp only [VsPort.sendTask] at hc
    split at hc
    · rw [List.mem_singleton.mp hc] at hcd
      exact ⟨bytes, rfl, (Option.some.inj hcd).symm⟩
    · cases hc

theorem switchTrace_append (tr tr' : List (NetLabel ι)) :
    switchTrace (tr ++ tr') = switchTrace tr ++ switchTrace tr' := List.filterMap_append

theorem mem_switchTrace {l : Label} : l ∈ switchTrace tr ↔ .switch l ∈ tr := by
  unfold switchTrace
  rw [List.mem_filterMap]
  constructor
  · rintro ⟨netLabel, hmem, hl⟩
    cases netLabel with
    | send => cases hl
    | receive => cases hl
    | switch l' =>
      cases hl
      exact hmem
  · intro hmem
    exact ⟨_, hmem, rfl⟩

theorem netInv_start (h : n.Start a) : NetInv a [] n where
  port i := by
    obtain ⟨tapfd, sockfd, hinit⟩ := h.port i
    obtain ⟨-, -, ip, hip, hport⟩ := vsPortInit_eq_some_iff.mp hinit
    rw [hport, ← Option.some.inj hip]
    rfl
  table k r hr := by
    obtain ⟨buf, hswitch⟩ := h.switch
    rw [hswitch] at hr
    cases hr
  sent d hd := by
    rw [h.sent] at hd
    cases hd

variable [DecidableEq ι]

theorem netInv_step {n' : Network ι} {l : NetLabel ι} (h : NetInv a tr n) (hl : NetStep a n l n') :
    NetInv a (tr ++ [l]) n' := by
  have hold : ∀ d ∈ n.sent, Proper a (tr ++ [l]) d := fun d hd => (h.sent d hd).append [l]
  cases hl with
  | @send i frame calls s' hstep =>
    cases hstep
    refine ⟨?_, h.table, ?_⟩
    · intro j
      rw [Function.update_eq_self]
      exact h.port j
    · intro d hd
      rcases List.mem_append.mp hd with hd | hd
      · exact hold d hd
      · obtain ⟨bytes, rfl, rfl⟩ := mem_sendTask_datagrams hd
        refine Or.inl ⟨i, rfl, h.port i, bytes, ?_, rfl⟩
        exact ⟨_, List.mem_append_right _ (List.mem_singleton_self _)⟩
  | @receive i r calls s' hstep hr =>
    cases hstep
    refine ⟨?_, h.table, ?_⟩
    · intro j
      by_cases hj : j = i
      · subst hj
        show (Function.update n.port j _ j).port.switchAddr = _
        rw [Function.update_self]
        cases r with
        | error => exact h.port j
        | datagram sender data => exact (h.of_port hr).1
      · show (Function.update n.port i _ j).port.switchAddr = _
        rw [Function.update_of_ne hj]
        exact h.port j
    · intro d hd
      rw [receiveTask_datagrams, List.append_nil] at hd
      exact hold d hd
  | @switch l s' hstep hr =>
    have htable : ∀ k r, s'.macTable.lookup k = some r → ∃ j, r.cliAddr = a.port j := by
      intro k r hlookup
      rcases table_step hstep hlookup with ⟨data, hreceived⟩ | ⟨r', hr', haddr⟩
      · rw [hreceived] at hr
        obtain ⟨i, hi, -⟩ := h.of_switch hr
        exact ⟨i, hi⟩
      · rw [← haddr]
        exact h.table k r' hr'
    refine ⟨h.port, htable, ?_⟩
    intro d hd
    rcases List.mem_append.mp hd with hd | hd
    · exact hold d hd
    · obtain ⟨sender, data, k, record, hreceived, hrecord, rfl⟩ := mem_datagrams hstep hd
      rw [hreceived] at hr
      obtain ⟨i, -, hdata⟩ := h.of_switch hr
      obtain ⟨j, hj⟩ := htable k record hrecord
      exact Or.inr ⟨i, j, rfl, hj, hdata.take.append _⟩

theorem netInv_run (h : NetRun a tr n) : NetInv a tr n := by
  obtain ⟨n₀, hstart, hrun⟩ := h
  exact hrun.history (R := NetInv a) (netInv_start hstart) fun _ _ _ _ => netInv_step

theorem NetRun.split_at {pre post : List (NetLabel ι)} {l : NetLabel ι}
    (h : NetRun a (pre ++ l :: post) n) :
    ∃ n₁ n₂, NetRun a pre n₁ ∧ NetStep a n₁ l n₂ ∧ NetRun a (pre ++ [l]) n₂ := by
  obtain ⟨n₀, hstart, hrun⟩ := h
  obtain ⟨n₁, n₂, hpre, hl, -⟩ := hrun.split_at
  exact ⟨n₁, n₂, ⟨n₀, hstart, hpre⟩, hl, n₀, hstart, hpre.tail hl⟩

/-! ## The steps of the switch -/

theorem NetRun.switchRun (h : NetRun a tr n) : SwitchRun (switchTrace tr) n.switch := by
  obtain ⟨n₀, hstart, hrun⟩ := h
  obtain ⟨buf, hswitch⟩ := hstart.switch
  refine ⟨buf, a.server, ?_⟩
  rw [← hswitch]
  refine hrun.history (R := fun tr n => Run Step n₀.switch (switchTrace tr) n.switch) Run.refl ?_
  intro tr n₁ l n₂ ih hl
  rw [switchTrace_append]
  cases hl with
  | send => exact (List.append_nil (switchTrace tr)).symm ▸ ih
  | receive => exact (List.append_nil (switchTrace tr)).symm ▸ ih
  | switch hstep => exact ih.tail hstep

/-- What the switch receives has been read by the port that it comes from. -/
theorem NetRun.received (h : NetRun a tr n) {sender : SockaddrIn} {data : List UInt8}
    {sent : List Send} (hmem : .switch (.recv (.datagram sender data) sent) ∈ tr) :
    ∃ i, sender = a.port i ∧ Carries tr i data := by
  obtain ⟨pre, post, rfl⟩ := List.append_of_mem hmem
  obtain ⟨n₁, n₂, hpre, hstep, -⟩ := h.split_at
  cases hstep with
  | switch hl hr =>
    obtain ⟨i, hsender, hdata⟩ := (netInv_run hpre).of_switch hr
    exact ⟨i, hsender, hdata.append _⟩

theorem NetRun.wholeFrames (h : NetRun a tr n) (hf : WholeEntered tr) :
    WholeFrames (switchTrace tr) := by
  intro sender data sent hmem
  obtain ⟨i, -, frame, hframe, rfl⟩ := h.received (mem_switchTrace.mp hmem)
  have hlen := hf i frame hframe
  rw [List.length_take]
  unfold etherMaxLen
  omega

/-- An address that has been heard from a port is one that the port has read. -/
theorem NetRun.entered_of_learn (h : NetRun a tr n) {m : Mac} {j : ι}
    (hmem : .learn m (a.port j) ∈ history (switchTrace tr)) :
    ∃ frame, Entered tr j frame ∧ srcMac frame = m := by
  obtain ⟨data, sent, hrecv, hm⟩ := mem_history.mp hmem
  obtain ⟨i, hi, frame, hframe, rfl⟩ := h.received (mem_switchTrace.mp hrecv)
  rw [← a.port_injective hi] at hframe
  rw [srcMac_take] at hm
  exact ⟨frame, hframe, hm⟩

/-- A datagram from the switch has been sent in one of its steps. -/
theorem NetRun.sent_by_switch (h : NetRun a tr n) {d : Datagram} (hd : d ∈ n.sent)
    (hsource : d.source = a.server) : ∃ l, .switch l ∈ tr ∧ d ∈ l.datagrams a.server := by
  obtain ⟨n₀, hstart, hrun⟩ := h
  refine hrun.history (R := fun tr n => ∀ d ∈ n.sent, d.source = a.server →
    ∃ l, .switch l ∈ tr ∧ d ∈ l.datagrams a.server) ?_ ?_ d hd hsource
  · intro d hd
    rw [hstart.sent] at hd
    cases hd
  intro tr n₁ l n₂ ih hl d hd hsource
  have hold : d ∈ n₁.sent → ∃ l', .switch l' ∈ tr ++ [l] ∧ d ∈ l'.datagrams a.server := by
    intro hd
    obtain ⟨l', hl', hdl⟩ := ih d hd hsource
    exact ⟨l', List.mem_append_left _ hl', hdl⟩
  cases hl with
  | @send i frame calls s' hstep =>
    cases hstep
    rcases List.mem_append.mp hd with hd | hd
    · exact hold hd
    · obtain ⟨bytes, -, rfl⟩ := mem_sendTask_datagrams hd
      exact absurd hsource (a.port_ne_server i)
  | @receive i r calls s' hstep hr =>
    cases hstep
    rw [receiveTask_datagrams, List.append_nil] at hd
    exact hold hd
  | @switch l s' hstep hr =>
    rcases List.mem_append.mp hd with hd | hd
    · exact hold hd
    · exact ⟨l, List.mem_append_right _ (List.mem_singleton_self _), hd⟩

end CDevHws.FinalProject
