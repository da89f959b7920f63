import CDevHws.FinalProject.Proofs.MacTableProofs

/-!
# Proofs: where a frame is sent

One lemma for each branch of the forwarding, and from them: who gets a flooded frame, when a known
destination gets its frame, when a broadcast is flooded, and that no station gets another's unicast.
-/

namespace CDevHws.FinalProject

open AgingTable (Seen)
open Transition (Run)

/-- The table that the forwarding of a datagram looks at: its source has been learned. -/
def Switch.learned (s : Switch) (sender : SockaddrIn) (data : List UInt8) : MacTable :=
  (s.receive (.datagram sender data)).2.learn.macTable

theorem lookup_learned (s : Switch) (sender : SockaddrIn) {data : List UInt8}
    (h : 12 ≤ data.length) (k : Text) :
    (s.learned sender data).lookup k =
      if k = macStr (srcMac data) then some { cliAddr := sender, age := 0 }
      else s.macTable.lookup k := by
  unfold Switch.learned
  rw [learned_macTable s sender h, lookup_macLearning]

theorem lookup_learned_src (s : Switch) (sender : SockaddrIn) {data : List UInt8}
    (h : 12 ≤ data.length) : (s.learned sender data).lookup (macStr (srcMac data)) =
      some { cliAddr := sender, age := 0 } := by
  rw [lookup_learned s sender h, if_pos rfl]

theorem lookup_learned_of_ne (s : Switch) (sender : SockaddrIn) {data : List UInt8}
    (h : 12 ≤ data.length) {m : Mac} (hm : m ≠ srcMac data) :
    (s.learned sender data).lookup (macStr m) = s.macTable.lookup (macStr m) := by
  have hne : macStr m ≠ macStr (srcMac data) := fun heq => hm (macStr_injective heq)
  rw [lookup_learned s sender h, if_neg hne]

/-! ## Handling a datagram -/

theorem Handles.sent_eq {s : Switch} {sender : SockaddrIn} {data : List UInt8} {sent : List Send}
    (h : Handles s sender data sent) : ∃ iter, GHashTable.Enumerates iter (s.learned sender data) ∧
      sent = (s.body (.datagram sender data) iter).2 := by
  obtain ⟨-, s', hstep⟩ := h
  obtain ⟨-, iter, hiter, hsent, -⟩ := step_recv_inv hstep
  exact ⟨iter, hiter, hsent⟩

theorem handles_body {s : Switch} (hs : Reachable s) (hpc : s.pc = .recvfrom) {sender : SockaddrIn}
    {data : List UInt8} {iter : List MacEntry}
    (hiter : GHashTable.Enumerates iter (s.learned sender data)) :
    Handles s sender data (s.body (.datagram sender data) iter).2 :=
  ⟨hs, _, Step.recv s _ iter hpc hiter⟩

theorem exists_handles (h : List (AgingTable.Event Mac SockaddrIn)) (sender : SockaddrIn)
    (data : List UInt8) : ∃ tr s iter, SwitchRun tr s ∧ WholeFrames tr ∧ history tr = h ∧
      GHashTable.Enumerates iter (s.learned sender data) ∧
      Handles s sender data (s.body (.datagram sender data) iter).2 := by
  obtain ⟨tr, s, hrun, hf, hh, hpc, -⟩ := exists_switchRun_history h
  obtain ⟨iter, hiter⟩ := GHashTable.exists_enumerates (s.learned sender data)
  exact ⟨tr, s, iter, hrun, hf, hh, hiter, handles_body ⟨tr, hrun⟩ hpc hiter⟩

/-! ## The branches of the forwarding -/

/-- What the body sends for a datagram: nothing where the code says `continue`. -/
theorem body_sent (s : Switch) (sender : SockaddrIn) {data : List UInt8} (iter : List MacEntry)
    (h : 12 ≤ data.length) :
    (s.body (.datagram sender data) iter).2 =
      (frameForwarding (s.learned sender data) iter (macStr (srcMac data)) (macStr (dstMac data))
        sender (data.take etherMaxLen)).getD [] := by
  have hpos := receive_datagram_pos s sender (show 0 < data.length by omega)
  have hsrc := etherShost_recvfrom s.switchAddr sender s.etherData h
  have hdst := etherDhost_recvfrom s.switchAddr sender s.etherData
    (show 6 ≤ data.length by omega)
  have hbytes := bytes_recvfrom s.switchAddr sender s.etherData data
  have hn : (s.receive (.datagram sender data)).1.toNat = min data.length etherMaxLen := by
    show ((min data.length etherMaxLen : ℤ)).toNat = _
    omega
  unfold Switch.body
  simp only [gt_iff_lt, hpos, if_true, hn]
  rw [← hsrc, ← hdst, ← hbytes]
  show _ = (frameForwarding (s.receive (.datagram sender data)).2.learn.macTable _ _ _ _ _).getD []
  split
  · rename_i hf
    exact (congrArg (fun o => Option.getD o []) hf).symm
  · rename_i sent hf
    exact (congrArg (fun o => Option.getD o []) hf).symm

/-- A frame to a known address goes to the recorded endpoint, or nowhere. -/
theorem sent_known {s : Switch} {sender : SockaddrIn} {data : List UInt8} (iter : List MacEntry)
    (h : 12 ≤ data.length) {r : MacRecord}
    (hr : (s.learned sender data).lookup (macStr (dstMac data)) = some r) :
    (s.body (.datagram sender data) iter).2 =
      if r.cliAddr.sinPort = sender.sinPort then [] else [⟨r.cliAddr, data.take etherMaxLen⟩] := by
  rw [body_sent s sender iter h]
  unfold frameForwarding
  rw [hr]
  by_cases hp : r.cliAddr.sinPort = sender.sinPort
  · simp [hp]
  · simp [hp]

/-- A frame to an unknown address or to the broadcast address is flooded. -/
theorem sent_unknown {s : Switch} {sender : SockaddrIn} {data : List UInt8} (iter : List MacEntry)
    (h : 12 ≤ data.length) (hr : (s.learned sender data).lookup (macStr (dstMac data)) = none) :
    (s.body (.datagram sender data) iter).2 =
      flood iter (macStr (srcMac data)) (data.take etherMaxLen) := by
  rw [body_sent s sender iter h]
  unfold frameForwarding
  rw [hr]
  by_cases hb : macStr (dstMac data) = broadcastStr
  · simp [hb]
  · simp [hb]

theorem flood_eq_map (iter : List MacEntry) (k : Text) (frame : List UInt8) :
    flood iter k frame =
      (iter.filter fun e => e.1 ≠ k).map fun e => { dest := e.2.cliAddr, data := frame } := by
  unfold flood
  induction iter with
  | nil => rfl
  | cons e iter ih =>
    by_cases he : e.1 = k
    · simp [he, ih]
    · simp [he, ih]

theorem mem_flood_iff {t : MacTable} {iter : List MacEntry} (hiter : GHashTable.Enumerates iter t)
    {k : Text} {frame : List UInt8} {x : Send} :
    x ∈ flood iter k frame ↔
      ∃ k' r, t.lookup k' = some r ∧ k' ≠ k ∧ x = { dest := r.cliAddr, data := frame } := by
  rw [flood_eq_map]
  simp only [List.mem_map, List.mem_filter, decide_eq_true_eq]
  constructor
  · rintro ⟨⟨k', r⟩, ⟨hmem, hne⟩, rfl⟩
    exact ⟨k', r, (hiter.mem_iff k' r).mp hmem, hne, rfl⟩
  · rintro ⟨k', r, hr, hne, rfl⟩
    exact ⟨⟨k', r⟩, ⟨(hiter.mem_iff k' r).mpr hr, hne⟩, rfl⟩

/-! ## Split horizon -/

/-- Every endpoint of the table but the ingress gets the frame once, and the ingress does not. -/
def SplitHorizon (t : MacTable) (ingress : SockaddrIn) (sent : List Send) : Prop :=
  (∀ k r, t.lookup k = some r → r.cliAddr ≠ ingress →
    (sent.map Send.dest).count r.cliAddr = 1) ∧ ingress ∉ sent.map Send.dest

/-- Among the stations other than `ethSrc`, none sits behind the ingress endpoint and no two sit
behind the same endpoint. -/
def OwnEndpoints (t : MacTable) (ethSrc : Text) (ingress : SockaddrIn) : Prop :=
  (∀ k r, t.lookup k = some r → k ≠ ethSrc → r.cliAddr ≠ ingress) ∧
  ∀ k r k' r', t.lookup k = some r → t.lookup k' = some r' → k ≠ ethSrc → k' ≠ ethSrc →
    r.cliAddr = r'.cliAddr → k = k'

theorem nodup_others {t : MacTable} {iter : List MacEntry} (hiter : GHashTable.Enumerates iter t)
    (k : Text) : (iter.filter fun e => e.1 ≠ k).Nodup :=
  hiter.nodupKeys.nodup.filter _

/-- A flooded list of sends has split horizon if and only if the other stations have endpoints of
their own. -/
theorem splitHorizon_flood_iff {t t' : MacTable} {iter : List MacEntry}
    (hiter : GHashTable.Enumerates iter t') {ethSrc : Text} {ingress : SockaddrIn}
    {frame : List UInt8}
    (ht : ∀ k, t'.lookup k = if k = ethSrc then some { cliAddr := ingress, age := 0 }
      else t.lookup k) :
    SplitHorizon t' ingress (flood iter ethSrc frame) ↔ OwnEndpoints t ethSrc ingress := by
  set others := iter.filter fun e => e.1 ≠ ethSrc with hothers
  have hmem : ∀ k r, ⟨k, r⟩ ∈ others ↔ t.lookup k = some r ∧ k ≠ ethSrc := by
    intro k r
    rw [hothers, List.mem_filter, hiter.mem_iff, ht, decide_eq_true_eq]
    constructor
    · rintro ⟨h1, h2⟩
      rw [if_neg h2] at h1
      exact ⟨h1, h2⟩
    · rintro ⟨h1, h2⟩
      rw [if_neg h2]
      exact ⟨h1, h2⟩
  have hdest : (flood iter ethSrc frame).map Send.dest = others.map fun e => e.2.cliAddr := by
    rw [flood_eq_map, List.map_map]
    rfl
  unfold SplitHorizon OwnEndpoints
  rw [hdest]
  constructor
  · rintro ⟨hone, hin⟩
    have hne : ∀ k r, t.lookup k = some r → k ≠ ethSrc → r.cliAddr ≠ ingress := by
      intro k r hr hk heq
      exact hin (List.mem_map.mpr ⟨⟨k, r⟩, (hmem k r).mpr ⟨hr, hk⟩, heq⟩)
    refine ⟨hne, fun k r k' r' hr hr' hk hk' heq => ?_⟩
    -- an endpoint that is counted once has one entry
    have hnodup : (others.map fun e => e.2.cliAddr).Nodup := by
      rw [List.nodup_iff_count_eq_one]
      intro e he
      obtain ⟨⟨k2, r2⟩, hm, rfl⟩ := List.mem_map.mp he
      obtain ⟨hr2, hk2⟩ := (hmem k2 r2).mp hm
      exact hone k2 r2 (by rw [ht, if_neg hk2]; exact hr2) (hne k2 r2 hr2 hk2)
    have hpair := List.inj_on_of_nodup_map hnodup ((hmem k r).mpr ⟨hr, hk⟩)
      ((hmem k' r').mpr ⟨hr', hk'⟩) heq
    exact congrArg Sigma.fst hpair
  · rintro ⟨hne, hinj⟩
    have hnodup : (others.map fun e => e.2.cliAddr).Nodup := by
      rw [List.nodup_map_iff_inj_on (nodup_others hiter ethSrc)]
      rintro ⟨k, r⟩ hm ⟨k', r'⟩ hm' heq
      obtain ⟨hr, hk⟩ := (hmem k r).mp hm
      obtain ⟨hr', hk'⟩ := (hmem k' r').mp hm'
      obtain rfl := hinj k r k' r' hr hr' hk hk' heq
      rw [hr] at hr'
      rw [Option.some.inj hr']
    refine ⟨fun k r hr hri => ?_, ?_⟩
    · rw [List.nodup_iff_count_eq_one] at hnodup
      apply hnodup
      have hk : k ≠ ethSrc := by
        rintro rfl
        rw [ht, if_pos rfl] at hr
        exact hri (by rw [← Option.some.inj hr])
      rw [ht, if_neg hk] at hr
      exact List.mem_map.mpr ⟨⟨k, r⟩, (hmem k r).mpr ⟨hr, hk⟩, rfl⟩
    · intro hin
      obtain ⟨⟨k, r⟩, hm, heq⟩ := List.mem_map.mp hin
      obtain ⟨hr, hk⟩ := (hmem k r).mp hm
      exact hne k r hr hk heq

/-- A flooded frame reaches every endpoint of the table but the ingress once, and not the ingress,
if and only if the other stations of the table sit behind endpoints of their own. -/
theorem split_horizon_iff {s : Switch} {sender : SockaddrIn} {data : List UInt8} {sent : List Send}
    (h : Handles s sender data sent) (hlen : 14 ≤ data.length)
    (hflood : (s.learned sender data).lookup (macStr (dstMac data)) = none) :
    SplitHorizon (s.learned sender data) sender sent ↔
      OwnEndpoints s.macTable (macStr (srcMac data)) sender := by
  obtain ⟨iter, hiter, rfl⟩ := h.sent_eq
  rw [sent_unknown _ (by omega) hflood]
  exact splitHorizon_flood_iff hiter fun k => lookup_learned s sender (by omega) k

/-- A broadcast from a second station reaches the one known so far once. -/
theorem split_horizon_station : ∃ tr s sent,
    SwitchRun tr s ∧ history tr = [.learn (station 1) ⟨5001, 1⟩] ∧
    Handles s ⟨5002, 2⟩ (ethFrame broadcastMac (station 2)) sent ∧
    SplitHorizon (s.learned ⟨5002, 2⟩ (ethFrame broadcastMac (station 2))) ⟨5002, 2⟩ sent := by
  obtain ⟨tr, s, iter, hrun, hf, hh, -, hhandles⟩ := exists_handles
    [.learn (station 1) ⟨5001, 1⟩] ⟨5002, 2⟩ (ethFrame broadcastMac (station 2))
  have honly : ∀ k r, s.macTable.lookup k = some r →
      k = macStr (station 1) ∧ r.cliAddr = ⟨5001, 1⟩ := by
    intro k r hr
    obtain ⟨m, n, rfl, hm⟩ := after_of_lookup hrun hf hr
    rw [hh] at hm
    by_cases h1 : m = station 1
    · simp [AgingTable.after, AgingTable.step, AgingTable.learn, h1] at hm
      exact ⟨by rw [h1], hm.1.symm⟩
    · simp [AgingTable.after, AgingTable.step, AgingTable.learn, h1] at hm
  have hflood : (s.learned ⟨5002, 2⟩ (ethFrame broadcastMac (station 2))).lookup
      (macStr (dstMac (ethFrame broadcastMac (station 2)))) = none := by
    rw [dstMac_ethFrame, lookup_learned_of_ne s _ (by simp) (by simp)]
    refine Option.eq_none_iff_forall_ne_some.mpr fun r hr => ?_
    have hm := macStr_injective (honly _ r hr).1
    simp at hm
  refine ⟨tr, s, _, hrun, hh, hhandles, (split_horizon_iff hhandles (by simp) hflood).mpr ⟨?_, ?_⟩⟩
  · intro k r hr _
    rw [(honly k r hr).2]
    simp
  · intro k r k' r' hr hr' _ _ _
    rw [(honly k r hr).1, (honly k' r' hr').1]

/-- With two stations behind one endpoint, a broadcast from a third station reaches it twice. -/
theorem split_horizon_fails : ∃ tr s sent,
    SwitchRun tr s ∧ WholeFrames tr ∧
    history tr = [.learn (station 1) ⟨5001, 1⟩, .learn (station 2) ⟨5001, 1⟩] ∧
    Handles s ⟨5002, 2⟩ (ethFrame broadcastMac (station 3)) sent ∧
    (s.learned ⟨5002, 2⟩ (ethFrame broadcastMac (station 3))).lookup (macStr broadcastMac) = none ∧
    ¬ SplitHorizon (s.learned ⟨5002, 2⟩ (ethFrame broadcastMac (station 3))) ⟨5002, 2⟩
      sent := by
  obtain ⟨tr, s, iter, hrun, hf, hh, hiter, hhandles⟩ := exists_handles
    [.learn (station 1) ⟨5001, 1⟩, .learn (station 2) ⟨5001, 1⟩] ⟨5002, 2⟩
    (ethFrame broadcastMac (station 3))
  obtain ⟨r1, hr1, he1⟩ := lookup_of_after hrun hf (m := station 1) (by rw [hh]; rfl)
  obtain ⟨r2, hr2, he2⟩ := lookup_of_after hrun hf (m := station 2) (by rw [hh]; rfl)
  have hunknown : tableView s.macTable broadcastMac = none := by
    rw [tableView_run hrun hf, hh]
    rfl
  have hnone : (s.learned ⟨5002, 2⟩ (ethFrame broadcastMac (station 3))).lookup
      (macStr broadcastMac) = none := by
    rw [lookup_learned_of_ne s _ (by simp) (by simp)]
    exact tableView_eq_none_iff.mp hunknown
  refine ⟨tr, s, _, hrun, hf, hh, hhandles, hnone, ?_⟩
  rw [sent_unknown _ (by simp) (by rw [dstMac_ethFrame]; exact hnone),
    splitHorizon_flood_iff hiter fun k => lookup_learned s _ (by simp) k, srcMac_ethFrame]
  rintro ⟨-, hown⟩
  have hkey := hown _ _ _ _ hr1 hr2 (by simp [macStr_inj]) (by simp [macStr_inj])
    (he1.trans he2.symm)
  simp [macStr_inj] at hkey

/-! ## Known destinations -/

/-- A frame to a known address is sent to the recorded endpoint if and only if this and the endpoint
that the frame came from have different UDP ports. -/
theorem known_unicast_iff {s : Switch} {sender : SockaddrIn} {data : List UInt8} {sent : List Send}
    (h : Handles s sender data sent) (hlen : 14 ≤ data.length) {r : MacRecord}
    (hr : (s.learned sender data).lookup (macStr (dstMac data)) = some r) :
    { dest := r.cliAddr, data := data.take etherMaxLen } ∈ sent ↔
      r.cliAddr.sinPort ≠ sender.sinPort := by
  obtain ⟨iter, -, rfl⟩ := h.sent_eq
  rw [sent_known _ (by omega) hr]
  by_cases hp : r.cliAddr.sinPort = sender.sinPort
  · simp [hp]
  · simp [hp]

theorem known_unicast_station : ∃ tr s sent,
    SwitchRun tr s ∧ history tr = [.learn (station 1) ⟨5001, 1⟩] ∧
    Handles s ⟨5002, 1⟩ (ethFrame (station 1) (station 2)) sent ∧
    { dest := ⟨5001, 1⟩, data := (ethFrame (station 1) (station 2)).take etherMaxLen } ∈ sent := by
  obtain ⟨tr, s, iter, hrun, hf, hh, -, hhandles⟩ := exists_handles
    [.learn (station 1) ⟨5001, 1⟩] ⟨5002, 1⟩ (ethFrame (station 1) (station 2))
  obtain ⟨r, hr, he⟩ := lookup_of_after hrun hf (m := station 1) (by rw [hh]; rfl)
  have hlearn : (s.learned ⟨5002, 1⟩ (ethFrame (station 1) (station 2))).lookup
      (macStr (dstMac (ethFrame (station 1) (station 2)))) = some r := by
    rw [dstMac_ethFrame, lookup_learned_of_ne s _ (by simp) (by simp)]
    exact hr
  refine ⟨tr, s, _, hrun, hh, hhandles, ?_⟩
  rw [← he]
  exact (known_unicast_iff hhandles (by simp) hlearn).mpr (by rw [he]; simp)

/-- A frame to a station on another host that uses the same UDP port as the sender is not sent. -/
theorem known_unicast_fails : ∃ tr s sent r,
    SwitchRun tr s ∧ WholeFrames tr ∧ history tr = [.learn (station 1) ⟨5001, 1⟩] ∧
    Handles s ⟨5001, 2⟩ (ethFrame (station 1) (station 2)) sent ∧
    (s.learned ⟨5001, 2⟩ (ethFrame (station 1) (station 2))).lookup (macStr (station 1)) = some r ∧
    r.cliAddr = ⟨5001, 1⟩ ∧ r.cliAddr ≠ ⟨5001, 2⟩ ∧ sent = [] := by
  obtain ⟨tr, s, iter, hrun, hf, hh, -, hhandles⟩ := exists_handles
    [.learn (station 1) ⟨5001, 1⟩] ⟨5001, 2⟩ (ethFrame (station 1) (station 2))
  obtain ⟨r, hr, he⟩ := lookup_of_after hrun hf (m := station 1) (by rw [hh]; rfl)
  have hlearn : (s.learned ⟨5001, 2⟩ (ethFrame (station 1) (station 2))).lookup
      (macStr (station 1)) = some r := by
    rw [lookup_learned_of_ne s _ (by simp) (by simp)]
    exact hr
  refine ⟨tr, s, _, r, hrun, hf, hh, hhandles, hlearn, he, by rw [he]; simp, ?_⟩
  rw [sent_known _ (by simp) (by rw [dstMac_ethFrame]; exact hlearn), he, if_pos rfl]

/-! ## Broadcasts -/

/-- The frame is sent to every entry of the table but the source's own. -/
def FloodedTo (t : MacTable) (ethSrc : Text) (frame : List UInt8) (sent : List Send) : Prop :=
  ∀ k r, t.lookup k = some r → k ≠ ethSrc → { dest := r.cliAddr, data := frame } ∈ sent

/-- A broadcast is flooded as long as the table does not know the broadcast address. -/
theorem broadcast_flooded_of_unknown {s : Switch} {sender : SockaddrIn} {data : List UInt8}
    {sent : List Send} (h : Handles s sender data sent) (hlen : 14 ≤ data.length)
    (hdst : dstMac data = broadcastMac) (hsrc : srcMac data ≠ broadcastMac)
    (hun : macStr broadcastMac ∉ s.macTable) :
    FloodedTo (s.learned sender data) (macStr (srcMac data)) (data.take etherMaxLen) sent := by
  obtain ⟨iter, hiter, rfl⟩ := h.sent_eq
  have hnone : (s.learned sender data).lookup (macStr (dstMac data)) = none := by
    rw [hdst, lookup_learned_of_ne s sender (by omega) hsrc.symm]
    exact Finmap.lookup_eq_none.mpr hun
  intro k r hr hk
  rw [sent_unknown _ (by omega) hnone]
  exact (mem_flood_iff hiter).mpr ⟨k, r, hr, hk, rfl⟩

/-- If the table knows the broadcast address, a broadcast that comes from the port recorded there is
dropped. -/
theorem broadcast_dropped_of_known {s : Switch} (hs : Reachable s) (hpc : s.pc = .recvfrom)
    {r : MacRecord} (hr : s.macTable.lookup (macStr broadcastMac) = some r) {m : Mac}
    (hm : m ≠ broadcastMac) : Handles s r.cliAddr (ethFrame broadcastMac m) [] := by
  obtain ⟨iter, hiter⟩ := GHashTable.exists_enumerates
    (s.learned r.cliAddr (ethFrame broadcastMac m))
  have hlearn : (s.learned r.cliAddr (ethFrame broadcastMac m)).lookup
      (macStr (dstMac (ethFrame broadcastMac m))) = some r := by
    rw [dstMac_ethFrame,
      lookup_learned_of_ne s _ (by simp) (by rw [srcMac_ethFrame]; exact hm.symm)]
    exact hr
  have hsent := sent_known iter (by simp) hlearn
  rw [if_pos rfl] at hsent
  rw [← hsent]
  exact handles_body hs hpc hiter

theorem sent_broadcast_loop {s : Switch} {sender : SockaddrIn} {data : List UInt8}
    {sent : List Send} (h : Handles s sender data sent) (hlen : 14 ≤ data.length)
    (heq : dstMac data = srcMac data) : sent = [] := by
  obtain ⟨iter, -, rfl⟩ := h.sent_eq
  have hr := lookup_learned_src s sender (show 12 ≤ data.length by omega)
  rw [← heq] at hr
  rw [sent_known _ (by omega) hr, if_pos rfl]

/-- In a state reached by whole frames, every broadcast from another source is flooded if and only
if no frame with the broadcast address as its source was received with fewer than 22 refreshes
since. A broadcast from the broadcast address itself is flooded only if there is nobody else to send
it to. -/
theorem broadcast_flooded_iff {tr : List Label} {s : Switch} (h : SwitchRun tr s)
    (hf : WholeFrames tr) (hpc : s.pc = .recvfrom) :
    ((∀ sender data sent, Handles s sender data sent → 14 ≤ data.length →
        dstMac data = broadcastMac → srcMac data ≠ broadcastMac →
        FloodedTo (s.learned sender data) (macStr (srcMac data)) (data.take etherMaxLen) sent) ↔
      ¬ ∃ e n, Seen (history tr) broadcastMac e n ∧ n < 22) ∧
    ∀ sender data sent, Handles s sender data sent → 14 ≤ data.length →
      dstMac data = broadcastMac → srcMac data = broadcastMac →
      (FloodedTo (s.learned sender data) (macStr (srcMac data)) (data.take etherMaxLen) sent ↔
        ∀ k ∈ s.macTable, k = macStr broadcastMac) := by
  rw [← mem_macTable_iff h hf]
  refine ⟨⟨fun hall hmem => ?_, fun hun sender data sent hhandles hlen hdst hsrc =>
    broadcast_flooded_of_unknown hhandles hlen hdst hsrc hun⟩, ?_⟩
  · obtain ⟨r, hr⟩ := Finmap.mem_iff.mp hmem
    have hm := station_ne_broadcastMac 1
    have hflood := hall _ _ _ (broadcast_dropped_of_known ⟨tr, h⟩ hpc hr hm) (by simp) (by simp)
      (by simp)
    rw [srcMac_ethFrame] at hflood
    have hne : macStr broadcastMac ≠ macStr (station 1) := by rw [Ne, macStr_inj]; exact hm.symm
    have hent : (s.learned r.cliAddr (ethFrame broadcastMac (station 1))).lookup
        (macStr broadcastMac) = some r := by
      rw [lookup_learned_of_ne s _ (by simp) (by rw [srcMac_ethFrame]; exact hm.symm)]
      exact hr
    exact absurd (hflood _ r hent hne) (by simp)
  · intro sender data sent hhandles hlen hdst hsrc
    have hlearn := lookup_learned s sender (show 12 ≤ data.length by omega)
    rw [sent_broadcast_loop hhandles hlen (hdst.trans hsrc.symm)]
    constructor
    · intro hflood k hk
      obtain ⟨r, hr⟩ := Finmap.mem_iff.mp hk
      by_contra hne
      have hks : k ≠ macStr (srcMac data) := by rw [hsrc]; exact hne
      have hmem := hflood k r (by rw [hlearn, if_neg hks]; exact hr) hks
      simp at hmem
    · intro hall k r hr hk
      rw [hlearn, if_neg hk] at hr
      have hkb := hall k (Finmap.mem_iff.mpr ⟨r, hr⟩)
      exact absurd (by rw [hkb, hsrc]) hk

/-- With one station known, every broadcast from a station is flooded. -/
theorem broadcast_flooded_station : ∃ tr s,
    SwitchRun tr s ∧ history tr = [.learn (station 1) ⟨5001, 1⟩] ∧
    ∀ sender data sent, Handles s sender data sent → 14 ≤ data.length →
      dstMac data = broadcastMac → srcMac data ≠ broadcastMac →
      FloodedTo (s.learned sender data) (macStr (srcMac data)) (data.take etherMaxLen) sent := by
  obtain ⟨tr, s, hrun, hf, hh, hpc, -⟩ := exists_switchRun_history
    [.learn (station 1) ⟨5001, 1⟩]
  refine ⟨tr, s, hrun, hh, ((broadcast_flooded_iff hrun hf hpc).1).mpr ?_⟩
  rintro ⟨e, n, hseen, -⟩
  rw [hh] at hseen
  obtain ⟨pre, post, heq, -⟩ := hseen
  have hmem : .learn broadcastMac e ∈
      [AgingTable.Event.learn (station 1) (⟨5001, 1⟩ : SockaddrIn)] := by
    rw [heq]
    simp
  simp at hmem

/-- Once somebody has sent from the broadcast address, a broadcast goes to that one station only. -/
theorem broadcast_flooded_fails : ∃ tr s sent,
    SwitchRun tr s ∧ WholeFrames tr ∧
    history tr = [.learn (station 1) ⟨5001, 1⟩, .learn broadcastMac ⟨5002, 2⟩] ∧
    Handles s ⟨5003, 3⟩ (ethFrame broadcastMac (station 3)) sent ∧
    ¬ FloodedTo (s.learned ⟨5003, 3⟩ (ethFrame broadcastMac (station 3))) (macStr (station 3))
      (ethFrame broadcastMac (station 3)) sent := by
  obtain ⟨tr, s, iter, hrun, hf, hh, -, hhandles⟩ := exists_handles
    [.learn (station 1) ⟨5001, 1⟩, .learn broadcastMac ⟨5002, 2⟩] ⟨5003, 3⟩
    (ethFrame broadcastMac (station 3))
  obtain ⟨r1, hr1, he1⟩ := lookup_of_after hrun hf (m := station 1) (by rw [hh]; rfl)
  obtain ⟨r2, hr2, he2⟩ := lookup_of_after hrun hf (m := broadcastMac) (by rw [hh]; rfl)
  refine ⟨tr, s, _, hrun, hf, hh, hhandles, fun hflood => ?_⟩
  have hlearn : ∀ m ≠ station 3, (s.learned ⟨5003, 3⟩ (ethFrame broadcastMac (station 3))).lookup
      (macStr m) = s.macTable.lookup (macStr m) := by
    intro m hm
    exact lookup_learned_of_ne s _ (by simp) (by rw [srcMac_ethFrame]; exact hm)
  have hmem := hflood (macStr (station 1)) r1 (by rw [hlearn _ (by simp)]; exact hr1)
    (by simp [macStr_inj])
  rw [sent_known _ (by simp) (by rw [dstMac_ethFrame, hlearn _ (by simp)]; exact hr2), he1,
    he2] at hmem
  simp at hmem

end CDevHws.FinalProject
