import CDevHws.FinalProject.Proofs.NetworkDeliveryProofs

/-!
# Proofs: which port gets a frame

The steps of the switch in a run of the network are a run of the switch alone, so its table says for
each address where it was last heard. From this: a frame leaves the network only at the port of its
destination, or everywhere as long as that is not known; a station never gets its own frames back if
no two share a port; and a frame to a known station can always be delivered, with four steps.
-/

namespace CDevHws.FinalProject

open AgingTable (Seen)
open Transition (Run)

variable {ι : Type} {a : Addresses ι} {tr : List (NetLabel ι)} {n : Network ι}

variable [DecidableEq ι]

/-! ## Where a frame came through the switch -/

/-- The switch has received the frame and sent it to port `j`, in the step after `mid`. -/
structure Forwarded (a : Addresses ι) (mid : List (NetLabel ι)) (j : ι) (i : ι)
    (received : List UInt8) (sent : List Send) (s : Switch) : Prop where
  run : ∃ n, NetRun a mid n ∧ n.switch = s
  carries : Carries mid i received
  step : ∃ s', Step s (.recv (.datagram (a.port i) received) sent) s'
  mem : ⟨a.port j, received.take etherMaxLen⟩ ∈ sent

/-- A frame that a port writes has been forwarded to that port by the switch. -/
theorem NetRun.forwarded {pre post : List (NetLabel ι)} {j : ι} {r : Recv} {calls : List PortCall}
    (h : NetRun a (pre ++ .receive j r calls :: post) n) {fd : ℤ} {data : List UInt8}
    (hc : .write fd data ∈ calls) :
    ∃ mid i received sent s rest, pre = mid ++ .switch (.recv (.datagram (a.port i) received) sent)
      :: rest ∧ data = received.take etherMaxLen ∧ Forwarded a mid j i received sent s := by
  obtain ⟨n₁, n₂, hpre, hstep, -⟩ := h.split_at
  cases hstep with
  | receive hport hr =>
    cases hport
    obtain ⟨sender, bytes, rfl, hwrite⟩ := receiveTask_calls _ hc
    cases hwrite
    have hserver : sender = a.server := ((netInv_run hpre).of_port hr).1
    subst hserver
    obtain ⟨l, hl, hd⟩ := hpre.sent_by_switch hr rfl
    obtain ⟨mid, rest, rfl⟩ := List.append_of_mem hl
    obtain ⟨m₁, m₂, hmid, hswitch, -⟩ := hpre.split_at
    cases hswitch with
    | switch hstep havail =>
      obtain ⟨sender, received, k, record, hreceived, -, hsent⟩ := mem_datagrams hstep hd
      cases l with
      | recv r' sent =>
        obtain rfl : r' = .datagram sender received := hreceived
        obtain ⟨i, rfl, hcarries⟩ := (netInv_run hmid).of_switch havail
        obtain ⟨x, hx, hxd⟩ := List.mem_map.mp hd
        have hbytes : bytes = received.take etherMaxLen := congrArg Datagram.data hsent
        subst hbytes
        have hx' : x = ⟨a.port j, received.take etherMaxLen⟩ := by
          cases x
          cases hxd
          rfl
        refine ⟨mid, i, received, sent, _, rest, rfl, ?_, ⟨m₁, hmid, rfl⟩, hcarries, ⟨_, hstep⟩,
          hx' ▸ hx⟩
        rw [List.take_take, Nat.min_self]
      | refresh => cases hreceived
      | skip => cases hreceived
      | sigalrm => cases hreceived

variable {mid : List (NetLabel ι)} {i j : ι} {received : List UInt8} {sent : List Send} {s : Switch}

theorem Forwarded.whole (h : Forwarded a mid j i received sent s) (hf : WholeEntered mid) :
    14 ≤ received.length := by
  obtain ⟨frame, hframe, rfl⟩ := h.carries
  have hlen := hf i frame hframe
  rw [List.length_take]
  unfold etherMaxLen
  omega

/-- The destination of a forwarded frame is unknown, or known at the port it is forwarded to. -/
theorem Forwarded.known (h : Forwarded a mid j i received sent s) (hf : WholeEntered mid)
    {e : SockaddrIn} {k : ℕ}
    (hseen : Seen (history (switchTrace mid) ++ [.learn (srcMac received) (a.port i)])
      (dstMac received) e k) (hk : k < 22) : e = a.port j := by
  obtain ⟨m, hrun, rfl⟩ := h.run
  obtain ⟨s', hstep⟩ := h.step
  have hlen := h.whole hf
  obtain ⟨record, hrecord, rfl, -⟩ := (learned_iff_seen hrun.switchRun (hrun.wholeFrames hf)
    (a.port i) hlen (dstMac received) e k).mpr ⟨hseen, hk⟩
  exact ((sent_to_recorded hstep hlen hrecord).1 _ h.mem).symm

/-- A frame that is forwarded to the port of a station is not one of that station, if it is the only
one there. -/
theorem Forwarded.not_echoed (h : Forwarded a mid j i received sent s) (hf : WholeEntered mid)
    {m : Mac} (honly : ∀ frame, Entered mid j frame → srcMac frame = m)
    (hown : ∀ frame, Entered mid i frame → srcMac frame = m → i = j) : srcMac received ≠ m := by
  intro heq
  obtain ⟨frame, hframe, hreceived⟩ := h.carries
  obtain ⟨n, hrun, rfl⟩ := h.run
  obtain ⟨s', hstep⟩ := h.step
  have hlen := h.whole hf
  have hsrc : srcMac frame = m := by
    rw [← heq, hreceived, srcMac_take]
  obtain rfl := hown frame hframe hsrc
  obtain ⟨-, iter, hiter, hsent, -⟩ := step_recv_inv hstep
  have hmem := h.mem
  rw [hsent] at hmem
  cases hdst : (n.switch.learned (a.port i) received).lookup (macStr (dstMac received)) with
  | some record =>
    -- a known destination: the frame is sent to another endpoint or not at all
    rw [sent_known iter (by omega) hdst] at hmem
    by_cases hport : record.cliAddr.sinPort = (a.port i).sinPort
    · rw [if_pos hport] at hmem
      cases hmem
    · rw [if_neg hport, List.mem_singleton] at hmem
      exact hport (congrArg (fun x => x.dest.sinPort) hmem.symm)
  | none =>
    -- a flood: the endpoint is that of another station, but the port has only one
    rw [sent_unknown iter (by omega) hdst] at hmem
    obtain ⟨k, record, hrecord, hne, hx⟩ := (mem_flood_iff hiter).mp hmem
    have haddr : record.cliAddr = a.port i := congrArg Send.dest hx.symm
    have hlearned := lookup_learned n.switch (a.port i) (show 12 ≤ received.length by omega) k
    rw [if_neg hne] at hlearned
    have hold : n.switch.macTable.lookup k = some record := hlearned.symm.trans hrecord
    obtain ⟨mac, rfl⟩ := keys_are_macs hrun.switchRun k (Finmap.mem_of_lookup_eq_some hold)
    obtain ⟨hseen, -⟩ := (lookup_iff_seen hrun.switchRun (hrun.wholeFrames hf) mac _ _).mp
      ⟨record, hold, haddr, rfl⟩
    obtain ⟨before, after, hhistory, -⟩ := hseen
    obtain ⟨other, hother, rfl⟩ := hrun.entered_of_learn
      (hhistory ▸ List.mem_append_right before List.mem_cons_self)
    rw [honly other hother, heq] at hne
    exact hne rfl

/-! ## Who gets a frame -/

/-- Every frame that leaves the network at a port has been sent to that port by the switch, and at
that moment its destination had not been heard for 22 refreshes or was last heard at that port,
where it is the address of a station. -/
theorem network_isolation (h : NetRun a tr n) (hf : WholeEntered tr)
    {pre post : List (NetLabel ι)} {r : Recv} {calls : List PortCall}
    (htr : tr = pre ++ .receive j r calls :: post) {fd : ℤ} {data : List UInt8}
    (hc : .write fd data ∈ calls) :
    ∃ mid i received sent rest,
      pre = mid ++ .switch (.recv (.datagram (a.port i) received) sent) :: rest ∧
      data = received.take etherMaxLen ∧ ⟨a.port j, data⟩ ∈ sent ∧
      ((∀ e k, Seen (history (switchTrace mid) ++ [.learn (srcMac data) (a.port i)])
          (dstMac data) e k → 22 ≤ k) ∨
        ∃ k frame, Seen (history (switchTrace mid) ++ [.learn (srcMac data) (a.port i)])
          (dstMac data) (a.port j) k ∧ Entered mid j frame ∧ srcMac frame = dstMac data) := by
  subst htr
  obtain ⟨mid, i, received, sent, s, rest, rfl, rfl, hfwd⟩ := h.forwarded hc
  have hmid : WholeEntered mid := hf.left.left
  refine ⟨mid, i, received, sent, rest, rfl, rfl, hfwd.mem, ?_⟩
  rw [srcMac_take, dstMac_take]
  by_cases hknown : ∃ e k, Seen (history (switchTrace mid) ++ [.learn (srcMac received) (a.port i)])
      (dstMac received) e k ∧ k < 22
  · obtain ⟨e, k, hseen, hk⟩ := hknown
    obtain rfl := hfwd.known hmid hseen hk
    refine Or.inr ⟨k, ?_⟩
    obtain ⟨m, hrun, -⟩ := hfwd.run
    obtain ⟨before, after, hhistory, -⟩ := id hseen
    have hmem : .learn (dstMac received) (a.port j) ∈
        history (switchTrace mid) ++ [.learn (srcMac received) (a.port i)] :=
      hhistory ▸ List.mem_append_right before List.mem_cons_self
    rcases List.mem_append.mp hmem with hold | hnew
    · obtain ⟨frame, hframe, hsrc⟩ := hrun.entered_of_learn hold
      exact ⟨frame, hseen, hframe, hsrc⟩
    · obtain ⟨frame, hframe, hreceived⟩ := hfwd.carries
      have heq := List.mem_singleton.mp hnew
      have haddr : a.port j = a.port i := by
        injection heq
      have hmac : dstMac received = srcMac received := by
        injection heq
      refine ⟨frame, hseen, a.port_injective haddr ▸ hframe, ?_⟩
      rw [hmac, hreceived, srcMac_take]
  · refine Or.inl fun e k hseen => ?_
    by_contra hk
    exact hknown ⟨e, k, hseen, by omega⟩

/-- The frame that station 2 sends to station 1 leaves at a port that a frame of station 1 has
entered at, unless station 1 is unknown. -/
theorem network_isolation_pair : ∃ pre r fd n,
    NetRun pairAddresses
      (pre ++ [.receive true r [.write fd (ethFrame (station 1) (station 2))]]) n ∧
    ∃ mid i received sent rest,
      pre = mid ++ .switch (.recv (.datagram (pairAddresses.port i) received) sent) :: rest ∧
      ⟨pairAddresses.port true, ethFrame (station 1) (station 2)⟩ ∈ sent ∧
      ((∀ e k, Seen (history (switchTrace mid) ++ [.learn (station 2) (pairAddresses.port i)])
          (station 1) e k → 22 ≤ k) ∨
        ∃ frame, Entered mid true frame ∧ srcMac frame = station 1) := by
  obtain ⟨pre, r, fd, n, hrun, hentered⟩ := exists_pair_delivered
  have hf : WholeEntered (pre ++ [.receive true r
      [.write fd (ethFrame (station 1) (station 2))]]) :=
    whole_of_pair fun i frame => by
      rw [entered_append, ← hentered i frame]
      exact ⟨fun h => h.resolve_right not_entered_receive, Or.inl⟩
  obtain ⟨mid, i, received, sent, rest, hpre, -, hsent, hcases⟩ :=
    network_isolation hrun hf rfl (List.mem_singleton_self _)
  rw [srcMac_ethFrame, dstMac_ethFrame] at hcases
  refine ⟨pre, r, fd, n, hrun, mid, i, received, sent, rest, hpre, hsent, hcases.imp_right ?_⟩
  rintro ⟨k, frame, -, hframe, hsrc⟩
  exact ⟨frame, hframe, hsrc⟩

/-- If every port has one station, with an address of its own, then no frame is ever written at the
port that it came from. -/
theorem network_no_echo (h : NetRun a tr n) (hf : WholeEntered tr)
    (hstation : ∀ i frame i' frame', Entered tr i frame → Entered tr i' frame' →
      (i = i' ↔ srcMac frame = srcMac frame'))
    {pre post : List (NetLabel ι)} {r : Recv} {calls : List PortCall}
    (htr : tr = pre ++ .receive j r calls :: post) {fd : ℤ} {data : List UInt8}
    (hc : .write fd data ∈ calls) {frame : List UInt8} (hj : Entered tr j frame) :
    srcMac data ≠ srcMac frame := by
  subst htr
  obtain ⟨mid, i, received, sent, s, rest, rfl, rfl, hfwd⟩ := h.forwarded hc
  rw [srcMac_take]
  refine hfwd.not_echoed hf.left.left ?_ ?_
  · intro frame' hframe'
    exact (hstation j frame' j frame ((hframe'.append _).append _) hj).mp rfl
  · intro frame' hframe' hsrc
    exact (hstation i frame' j frame ((hframe'.append _).append _) hj).mpr hsrc

/-- Station 1 never gets its broadcast back. -/
theorem network_no_echo_pair : ∃ pre r fd n,
    NetRun pairAddresses
      (pre ++ [.receive true r [.write fd (ethFrame (station 1) (station 2))]]) n ∧
    Entered pre true (ethFrame broadcastMac (station 1)) ∧
    srcMac (ethFrame (station 1) (station 2)) ≠
      srcMac (ethFrame broadcastMac (station 1)) := by
  obtain ⟨pre, r, fd, n, hrun, hentered⟩ := exists_pair_delivered
  have hall : ∀ i frame, Entered (pre ++ [.receive true r
      [.write fd (ethFrame (station 1) (station 2))]]) i frame ↔
        i = true ∧ frame = ethFrame broadcastMac (station 1) ∨
          i = false ∧ frame = ethFrame (station 1) (station 2) := by
    intro i frame
    rw [entered_append, ← hentered i frame]
    exact ⟨fun h => h.resolve_right not_entered_receive, Or.inl⟩
  have hfirst := (hall true _).mpr (Or.inl ⟨rfl, rfl⟩)
  refine ⟨pre, r, fd, n, hrun, (hentered true _).mpr (Or.inl ⟨rfl, rfl⟩),
    network_no_echo hrun (whole_of_pair hall) ?_ rfl (List.mem_singleton_self _) hfirst⟩
  intro i frame i' frame' hframe hframe'
  rcases (hall i frame).mp hframe with ⟨rfl, rfl⟩ | ⟨rfl, rfl⟩ <;>
    rcases (hall i' frame').mp hframe' with ⟨rfl, rfl⟩ | ⟨rfl, rfl⟩ <;> decide

end CDevHws.FinalProject
