import CDevHws.FinalProject.Proofs.NetworkProofs

/-!
# Proofs: how a frame gets through the network

Frames are carried unchanged, and a frame to a known station can always be delivered: whatever has
happened before, the port can read and send it, the switch can finish its pass and forward the
datagram, and the other port can write it. Here is also a network of two ports, for examples.
-/

namespace CDevHws.FinalProject

open AgingTable (Seen)
open Transition (Run)

variable {ι : Type} {a : Addresses ι} {tr : List (NetLabel ι)} {n : Network ι}

/-! ## What some steps are for the history -/

/-- The rest of a pass of the switch. -/
def Finishing (mid : List (NetLabel ι)) : Prop :=
  mid = [] ∨ mid = [.switch .skip] ∨ mid = [.switch .refresh]

theorem Finishing.seen {mid : List (NetLabel ι)} (hmid : Finishing mid) {m : Mac} {e : SockaddrIn}
    {k : ℕ} (h : Seen (history (switchTrace tr)) m e k) :
    ∃ k', k' ≤ k + 1 ∧ Seen (history (switchTrace (tr ++ mid))) m e k' := by
  rw [switchTrace_append, history_append]
  rcases hmid with rfl | rfl | rfl
  · exact ⟨k, Nat.le_succ k, (List.append_nil (history (switchTrace tr))).symm ▸ h⟩
  · exact ⟨k, Nat.le_succ k, (List.append_nil (history (switchTrace tr))).symm ▸ h⟩
  · exact ⟨k + 1, le_rfl, AgingTable.seen_append_tick.mpr ⟨k, rfl, h⟩⟩

theorem entered_send {i i' : ι} {frame frame' : List UInt8} {calls : List PortCall} :
    Entered [.send i (some frame) calls] i' frame' ↔ i' = i ∧ frame' = frame := by
  unfold Entered
  constructor
  · rintro ⟨calls', hmem⟩
    cases List.mem_singleton.mp hmem
    exact ⟨rfl, rfl⟩
  · rintro ⟨rfl, rfl⟩
    exact ⟨calls, List.mem_singleton_self _⟩

theorem switchTrace_send (tr : List (NetLabel ι)) (i : ι) (frame : Option (List UInt8))
    (calls : List PortCall) : switchTrace (tr ++ [.send i frame calls]) = switchTrace tr := by
  rw [switchTrace_append]
  exact List.append_nil _

theorem not_entered_switch {l : Label} {i : ι} {frame : List UInt8} :
    ¬ Entered [.switch l] i frame := by
  rintro ⟨calls, hmem⟩
  cases List.mem_singleton.mp hmem

theorem not_entered_receive {j i : ι} {r : Recv} {calls : List PortCall} {frame : List UInt8} :
    ¬ Entered [.receive j r calls] i frame := by
  rintro ⟨calls', hmem⟩
  cases List.mem_singleton.mp hmem

theorem Finishing.not_entered {mid : List (NetLabel ι)} (hmid : Finishing mid) {i : ι}
    {frame : List UInt8} : ¬ Entered mid i frame := by
  rcases hmid with rfl | rfl | rfl
  · rintro ⟨calls, hmem⟩
    cases hmem
  · exact not_entered_switch
  · exact not_entered_switch

variable [DecidableEq ι]

/-! ## Going on with a run -/

theorem NetRun.next (h : NetRun a tr n) {l : NetLabel ι} {n' : Network ι} (hl : NetStep a n l n') :
    NetRun a (tr ++ [l]) n' := by
  obtain ⟨n₀, hstart, hrun⟩ := h
  exact ⟨n₀, hstart, hrun.tail hl⟩

/-- A port can read a frame and send it to the switch. -/
theorem NetRun.sends (h : NetRun a tr n) (i : ι) {frame : List UInt8} (hne : frame ≠ []) :
    ∃ fd n', NetRun a (tr ++ [.send i (some frame) [.sendto fd (frame.take etherMaxLen) a.server]])
        n' ∧ n'.switch = n.switch ∧ ⟨a.port i, a.server, frame.take etherMaxLen⟩ ∈ n'.sent := by
  have hstep := h.next (NetStep.send (PortStep.send (n.port i) (some frame)))
  rw [sendTask_frame _ hne, (netInv_run h).port i] at hstep
  exact ⟨_, _, hstep, rfl, List.mem_append_right _ (List.mem_singleton_self _)⟩

/-- A switch at the top of its loop can receive what has been sent to it. -/
theorem NetRun.switches (h : NetRun a tr n) (hpc : n.switch.pc = .recvfrom) {sender : SockaddrIn}
    {data : List UInt8} (hmem : ⟨sender, a.server, data⟩ ∈ n.sent) :
    ∃ iter n', GHashTable.Enumerates iter (n.switch.learned sender data) ∧
      NetRun a (tr ++ [.switch (.recv (.datagram sender data)
        (n.switch.body (.datagram sender data) iter).2)]) n' ∧
      ∀ x ∈ (n.switch.body (.datagram sender data) iter).2,
        ⟨a.server, x.dest, x.data⟩ ∈ n'.sent := by
  obtain ⟨iter, hiter⟩ := GHashTable.exists_enumerates (n.switch.learned sender data)
  refine ⟨iter, _, hiter, h.next (NetStep.switch (Step.recv n.switch _ iter hpc hiter) hmem), ?_⟩
  intro x hx
  exact List.mem_append_right _ (List.mem_map_of_mem hx)

/-- A port can write what has been sent to it. -/
theorem NetRun.writes (h : NetRun a tr n) {j : ι} {data : List UInt8} (hne : data ≠ [])
    (hmem : ⟨a.server, a.port j, data⟩ ∈ n.sent) :
    ∃ fd n', NetRun a (tr ++ [.receive j (.datagram a.server data)
      [.write fd (data.take etherMaxLen)]]) n' ∧ n'.switch = n.switch := by
  have hcalls : ((n.port j).receiveTask (.datagram a.server data)).2 =
      [.write (n.port j).port.tapfd (data.take etherMaxLen)] := by
    have hn : (recvfrom (n.port j).port.switchAddr (n.port j).etherData
        (.datagram a.server data)).1.toNat = min data.length etherMaxLen := by
      show ((min data.length etherMaxLen : ℤ)).toNat = _
      omega
    have hpos : 0 < (recvfrom (n.port j).port.switchAddr (n.port j).etherData
        (.datagram a.server data)).1 := by
      have hlen := List.length_pos_iff.mpr hne
      show (0 : ℤ) < (min data.length etherMaxLen : ℤ)
      unfold etherMaxLen
      omega
    unfold PortState.receiveTask
    simp only [gt_iff_lt, if_pos hpos, hn, bytes_recvfrom]
  have hstep := h.next (NetStep.receive (PortStep.receive (n.port j) (.datagram a.server data))
    hmem)
  rw [hcalls] at hstep
  exact ⟨_, _, hstep, rfl⟩

/-- The switch can always get to the top of its loop. -/
theorem NetRun.finishes (h : NetRun a tr n) : ∃ mid n', Finishing mid ∧ NetRun a (tr ++ mid) n' ∧
    n'.switch.pc = .recvfrom ∧ n'.sent = n.sent := by
  cases hpc : n.switch.pc with
  | recvfrom => exact ⟨[], n, Or.inl rfl, by rw [List.append_nil]; exact h, hpc, rfl⟩
  | aging =>
    cases hflag : n.switch.refreshAgeFlag with
    | false =>
      refine ⟨_, _, Or.inr (Or.inl rfl),
        h.next (NetStep.switch (Step.skip n.switch hpc hflag) trivial), rfl, ?_⟩
      exact List.append_nil n.sent
    | true =>
      refine ⟨_, _, Or.inr (Or.inr rfl),
        h.next (NetStep.switch (Step.refresh n.switch hpc hflag) trivial), rfl, ?_⟩
      exact List.append_nil n.sent

/-- A switch at the top of its loop can forward a frame to the port where its destination is known.
-/
theorem NetRun.forwards (h : NetRun a tr n) (hf : WholeEntered tr) (hpc : n.switch.pc = .recvfrom)
    {i j : ι} {data : List UInt8} (hlen : 14 ≤ data.length)
    (hmem : ⟨a.port i, a.server, data⟩ ∈ n.sent) {k : ℕ}
    (hseen : Seen (history (switchTrace tr)) (dstMac data) (a.port j) k) (hk : k < 22)
    (hne : dstMac data ≠ srcMac data) (hport : (a.port j).sinPort ≠ (a.port i).sinPort) :
    ∃ n', NetRun a (tr ++ [.switch (.recv (.datagram (a.port i) data)
        [⟨a.port j, data.take etherMaxLen⟩])]) n' ∧
      ⟨a.server, a.port j, data.take etherMaxLen⟩ ∈ n'.sent := by
  obtain ⟨r, hr, haddr, -⟩ := (lookup_iff_seen h.switchRun (h.wholeFrames hf) _ _ _).mpr ⟨hseen, hk⟩
  obtain ⟨iter, n', -, hrun, hsent⟩ := h.switches hpc hmem
  have hlearned := lookup_learned_of_ne n.switch (a.port i) (show 12 ≤ data.length by omega) hne
  rw [sent_known iter (by omega) (hlearned.trans hr), haddr, if_neg hport] at hrun hsent
  exact ⟨n', hrun, hsent _ (List.mem_singleton_self _)⟩

/-! ## A network of two ports -/

/-- Two ports, with UDP ports of their own. -/
def pairAddresses : Addresses Bool where
  serverPort := 5555
  serverIp := 1
  port i := ⟨if i then 5001 else 5002, 2⟩
  port_injective i i' h := by
    revert h
    cases i <;> cases i' <;> decide
  port_ne_server i := by
    cases i <;> decide

theorem take_ethFrame (dst src : Mac) : (ethFrame dst src).take etherMaxLen = ethFrame dst src := by
  refine List.take_of_length_le ?_
  rw [length_ethFrame]
  decide

theorem exists_pair_start : ∃ n : Network Bool, n.Start pairAddresses ∧ n.switch.pc = .recvfrom :=
  ⟨{ switch := Switch.init (fun _ => 0) pairAddresses.server
     port := fun _ => ⟨⟨3, 4, pairAddresses.server⟩, fun _ => 0⟩
     sent := [] }, ⟨⟨_, rfl⟩, fun _ => ⟨3, 4, rfl⟩, rfl⟩, rfl⟩

/-- The switch has heard station 1 from the first port, and nothing else has happened. -/
theorem exists_pair_heard : ∃ tr n, NetRun pairAddresses tr n ∧
    Seen (history (switchTrace tr)) (station 1) (pairAddresses.port true) 0 ∧
    ∀ i frame, Entered tr i frame ↔ i = true ∧ frame = ethFrame broadcastMac (station 1) := by
  obtain ⟨n₀, hstart, hpc⟩ := exists_pair_start
  have hrun₀ : NetRun pairAddresses [] n₀ := ⟨n₀, hstart, Run.refl⟩
  obtain ⟨fd, n₁, hrun₁, hswitch, hmem⟩ := hrun₀.sends true
    (show ethFrame broadcastMac (station 1) ≠ [] from List.cons_ne_nil _ _)
  obtain ⟨iter, n₂, -, hrun₂, -⟩ := hrun₁.switches (hswitch ▸ hpc) hmem
  refine ⟨_, n₂, hrun₂, ?_, ?_⟩
  · refine ⟨[], [], ?_, fun _ => List.not_mem_nil, rfl⟩
    exact congrArg (fun m => [AgingTable.Event.learn m (pairAddresses.port true)])
      ((srcMac_take _).trans (srcMac_ethFrame _ _))
  · intro i frame
    rw [entered_append, List.nil_append, entered_send]
    exact ⟨fun h => h.resolve_right not_entered_switch, Or.inl⟩

theorem whole_of_pair {tr : List (NetLabel Bool)}
    (h : ∀ i frame, Entered tr i frame ↔ i = true ∧ frame = ethFrame broadcastMac (station 1) ∨
      i = false ∧ frame = ethFrame (station 1) (station 2)) : WholeEntered tr := by
  intro i frame hframe
  rcases (h i frame).mp hframe with ⟨-, rfl⟩ | ⟨-, rfl⟩
  · exact (length_ethFrame _ _).ge
  · exact (length_ethFrame _ _).ge

/-- Station 2 has then sent a frame to station 1, which has been written at the first port. -/
theorem exists_pair_delivered : ∃ pre r fd n,
    NetRun pairAddresses
      (pre ++ [.receive true r [.write fd (ethFrame (station 1) (station 2))]]) n ∧
    ∀ i frame, Entered pre i frame ↔
      i = true ∧ frame = ethFrame broadcastMac (station 1) ∨
        i = false ∧ frame = ethFrame (station 1) (station 2) := by
  have htake := take_ethFrame (station 1) (station 2)
  have hlen := (length_ethFrame (station 1) (station 2)).ge
  have hdst := dstMac_ethFrame (station 1) (station 2)
  have hsrc := srcMac_ethFrame (station 1) (station 2)
  have hwhole : ∀ tr : List (NetLabel Bool), _ → WholeEntered tr := fun tr => whole_of_pair
  generalize ethFrame (station 1) (station 2) = frame at *
  obtain ⟨tr, n, hrun, hseen, hentered⟩ := exists_pair_heard
  have hnil : frame ≠ [] := List.ne_nil_of_length_pos (by omega)
  have hne : dstMac frame ≠ srcMac frame := by
    rw [hdst, hsrc]
    decide
  obtain ⟨fd, n₁, hrun₁, -, hmem₁⟩ := hrun.sends false hnil
  rw [htake] at hrun₁ hmem₁
  obtain ⟨mid, n₂, hmid, hrun₂, hpc, hsent⟩ := hrun₁.finishes
  have hentered₂ : ∀ i frame', Entered (tr ++ [.send false (some frame)
      [.sendto fd frame pairAddresses.server]] ++ mid) i frame' ↔
        i = true ∧ frame' = ethFrame broadcastMac (station 1) ∨ i = false ∧ frame' = frame := by
    intro i frame'
    rw [entered_append, entered_append, hentered, entered_send]
    exact ⟨fun h => h.resolve_right hmid.not_entered, Or.inl⟩
  rw [← hdst, ← switchTrace_send tr false (some frame)
    [.sendto fd frame pairAddresses.server]] at hseen
  obtain ⟨k, hk, hseen'⟩ := hmid.seen hseen
  have hmem₂ : ⟨pairAddresses.port false, pairAddresses.server, frame⟩ ∈ n₂.sent := by
    rw [hsent]
    exact hmem₁
  obtain ⟨n₃, hrun₃, hmem₃⟩ := hrun₂.forwards (hwhole _ hentered₂) hpc hlen hmem₂ hseen' (by omega)
    hne (show (pairAddresses.port true).sinPort ≠ (pairAddresses.port false).sinPort by decide)
  rw [htake] at hrun₃ hmem₃
  obtain ⟨fd', n₄, hrun₄, -⟩ := hrun₃.writes hnil hmem₃
  rw [htake] at hrun₄
  refine ⟨_, _, fd', n₄, hrun₄, ?_⟩
  intro i frame'
  rw [entered_append, hentered₂]
  exact ⟨fun h => h.resolve_right not_entered_switch, Or.inl⟩

/-! ## Frames are carried unchanged -/

/-- Every port sends all its frames to the switch, and every frame that leaves the network has
entered it before, at some port, with the same bytes. -/
theorem network_carries_frames (h : NetRun a tr n) :
    (∀ i frame calls, .send i (some frame) calls ∈ tr → frame ≠ [] →
      ∃ fd, calls = [.sendto fd (frame.take etherMaxLen) a.server]) ∧
    ∀ pre j r calls post, tr = pre ++ .receive j r calls :: post →
      ∀ c ∈ calls, ∃ fd i frame, c = .write fd (frame.take etherMaxLen) ∧ Entered pre i frame := by
  constructor
  · intro i frame calls hmem hne
    obtain ⟨pre, post, rfl⟩ := List.append_of_mem hmem
    obtain ⟨n₁, n₂, hpre, hstep, -⟩ := h.split_at
    cases hstep with
    | send hport =>
      cases hport
      exact ⟨_, by rw [sendTask_frame _ hne, (netInv_run hpre).port i]⟩
  · rintro pre j r calls post rfl c hc
    obtain ⟨n₁, n₂, hpre, hstep, -⟩ := h.split_at
    cases hstep with
    | receive hport hr =>
      cases hport
      obtain ⟨sender, data, rfl, rfl⟩ := receiveTask_calls _ hc
      obtain ⟨-, i, hdata⟩ := (netInv_run hpre).of_port hr
      obtain ⟨frame, hframe, hbytes⟩ := hdata.take
      exact ⟨_, i, frame, by rw [hbytes], hframe⟩

/-- Station 1 gets the frame that station 2 has sent. -/
theorem network_carries_frames_pair : ∃ pre r fd n,
    NetRun pairAddresses
      (pre ++ [.receive true r [.write fd (ethFrame (station 1) (station 2))]]) n ∧
    ∃ i frame, ethFrame (station 1) (station 2) = frame.take etherMaxLen ∧
      Entered pre i frame := by
  obtain ⟨pre, r, fd, n, hrun, -⟩ := exists_pair_delivered
  obtain ⟨fd', i, frame, hwrite, hframe⟩ :=
    (network_carries_frames hrun).2 pre true r _ [] rfl _ (List.mem_singleton_self _)
  injection hwrite with hfd hdata
  exact ⟨pre, r, fd, n, hrun, i, frame, hdata, hframe⟩

/-! ## Frames can be delivered -/

/-- In every state of the network a frame can be delivered to a station that the switch has heard in
the last 21 refreshes: four steps at most, of which the last writes the frame at the port of the
station. -/
theorem network_delivers (h : NetRun a tr n) (hf : WholeEntered tr) {i j : ι}
    {frame : List UInt8} (hlen : 14 ≤ frame.length) {k : ℕ}
    (hseen : Seen (history (switchTrace tr)) (dstMac frame) (a.port j) k) (hk : k < 21)
    (hne : dstMac frame ≠ srcMac frame) (hport : (a.port j).sinPort ≠ (a.port i).sinPort) :
    ∃ fd fd' mid n', Finishing mid ∧
      NetRun a (tr ++ [.send i (some frame) [.sendto fd (frame.take etherMaxLen) a.server]] ++
        mid ++ [.switch (.recv (.datagram (a.port i) (frame.take etherMaxLen))
          [⟨a.port j, frame.take etherMaxLen⟩])] ++
        [.receive j (.datagram a.server (frame.take etherMaxLen))
          [.write fd' (frame.take etherMaxLen)]]) n' := by
  have htake : 14 ≤ (frame.take etherMaxLen).length := by
    rw [List.length_take]
    unfold etherMaxLen
    omega
  have hnil : ∀ bytes : List UInt8, 14 ≤ bytes.length → bytes ≠ [] := by
    rintro _ hbytes rfl
    simp at hbytes
  have hidem : (frame.take etherMaxLen).take etherMaxLen = frame.take etherMaxLen := by
    rw [List.take_take, Nat.min_self]
  obtain ⟨fd, n₁, hrun₁, -, hmem₁⟩ := h.sends i (hnil frame hlen)
  obtain ⟨mid, n₂, hmid, hrun₂, hpc, hsent₂⟩ := hrun₁.finishes
  rw [← switchTrace_send tr i (some frame) [.sendto fd (frame.take etherMaxLen) a.server]] at hseen
  obtain ⟨k', hk', hseen'⟩ := hmid.seen hseen
  have hwhole : WholeEntered (tr ++ [.send i (some frame)
      [.sendto fd (frame.take etherMaxLen) a.server]] ++ mid) := by
    intro i' frame' hentered
    rcases entered_append.mp hentered with hentered | hentered
    · rcases entered_append.mp hentered with hentered | hentered
      · exact hf i' frame' hentered
      · obtain ⟨-, rfl⟩ := entered_send.mp hentered
        exact hlen
    · exact absurd hentered hmid.not_entered
  obtain ⟨n₃, hrun₃, hmem₃⟩ := hrun₂.forwards hwhole hpc htake (hsent₂ ▸ hmem₁)
    (by rw [dstMac_take]; exact hseen') (by omega) (by rw [dstMac_take, srcMac_take]; exact hne)
    hport
  rw [hidem] at hrun₃ hmem₃
  obtain ⟨fd', n₄, hrun₄, -⟩ := hrun₃.writes (hnil _ htake) hmem₃
  rw [hidem] at hrun₄
  exact ⟨fd, fd', mid, n₄, hmid, hrun₄⟩

/-- Once station 1 has been heard, a frame from station 2 can be delivered to it. -/
theorem network_delivers_pair : ∃ tr n fd,
    NetRun pairAddresses (tr ++ [.receive true
      (.datagram pairAddresses.server (ethFrame (station 1) (station 2)))
      [.write fd (ethFrame (station 1) (station 2))]]) n := by
  obtain ⟨tr, n, hrun, hseen, hentered⟩ := exists_pair_heard
  have hf : WholeEntered tr := by
    intro i frame hframe
    obtain ⟨-, rfl⟩ := (hentered i frame).mp hframe
    exact (length_ethFrame _ _).ge
  rw [← dstMac_ethFrame (station 1) (station 2)] at hseen
  have hne : dstMac (ethFrame (station 1) (station 2)) ≠
      srcMac (ethFrame (station 1) (station 2)) := by
    decide
  obtain ⟨fd, fd', mid, n', -, hrun'⟩ := network_delivers hrun hf
    (length_ethFrame (station 1) (station 2)).ge hseen (by decide) hne
    (show (pairAddresses.port true).sinPort ≠ (pairAddresses.port false).sinPort by decide)
  rw [take_ethFrame] at hrun'
  exact ⟨_, n', fd', hrun'⟩

end CDevHws.FinalProject
