import CDevHws.FinalProject.Proofs.ForwardingProofs

/-!
# Proofs: who gets the frames of whom

While an address is known at an endpoint, its frames go to that endpoint and nowhere else. A
datagram is handled by its own bytes alone as soon as it has both addresses; a shorter one is
completed by the bytes that an earlier datagram left in the buffer.
-/

namespace CDevHws.FinalProject

open AgingTable (Seen)
open Transition (Run)

/-! ## Unicast isolation -/

theorem sent_to_recorded {s s' : Switch} {sender : SockaddrIn} {data : List UInt8}
    {sent : List Send} (hstep : Step s (.recv (.datagram sender data) sent) s')
    (hlen : 14 ≤ data.length) {r : MacRecord}
    (hr : (s.learned sender data).lookup (macStr (dstMac data)) = some r) :
    (∀ x ∈ sent, x.dest = r.cliAddr) ∧ sent.length ≤ 1 := by
  obtain ⟨-, iter, hiter, rfl, -⟩ := step_recv_inv hstep
  rw [sent_known _ (by omega) hr]
  by_cases hp : r.cliAddr.sinPort = sender.sinPort
  · simp [hp]
  · simp [hp]

theorem mem_history {tr : List Label} {m : Mac} {e : SockaddrIn} :
    .learn m e ∈ history tr ↔
      ∃ data sent, Label.recv (.datagram e data) sent ∈ tr ∧ srcMac data = m := by
  unfold history
  rw [List.mem_flatMap]
  constructor
  · rintro ⟨l, hl, hmem⟩
    rcases l with ⟨_ | ⟨sender, data⟩, sent⟩ | _ | _ | _
    · simp [Label.events] at hmem
    · simp only [Label.events, List.mem_singleton, AgingTable.Event.learn.injEq] at hmem
      obtain ⟨rfl, rfl⟩ := hmem
      exact ⟨data, sent, hl, rfl⟩
    · simp [Label.events] at hmem
    · simp [Label.events] at hmem
    · simp [Label.events] at hmem
  · rintro ⟨data, sent, hl, rfl⟩
    exact ⟨_, hl, by simp [Label.events]⟩

/-- The part of a run that starts with a frame from `m` at `e` (the first label of `w`), hears `m`
only at `e`, and never goes 22 refreshes without hearing `m`. -/
structure Window (m : Mac) (e : SockaddrIn) (w : List Label) : Prop where
  from_e : ∀ e' data sent, Label.recv (.datagram e' data) sent ∈ w → srcMac data = m → e' = e
  recent : ∀ w' e' n, w' <+: w → Seen (history w') m e' n → n < 22

/-- At every moment of a window that has started, the table holds `m` at `e`. -/
theorem Window.lookup {m : Mac} {e : SockaddrIn} {w : List Label} (hw : Window m e w)
    {pre w' : List Label} {s : Switch} (hrun : SwitchRun (pre ++ w') s)
    (hf : WholeFrames (pre ++ w')) (hpre : w' <+: w) (hstart : .learn m e ∈ history w') :
    ∃ r, s.macTable.lookup (macStr m) = some r ∧ r.cliAddr = e := by
  obtain ⟨e', n, hseen, hmem⟩ := AgingTable.exists_seen_of_mem hstart
  have hn : n < 22 := hw.recent w' e' n hpre hseen
  have he : e' = e := by
    obtain ⟨data, sent, hl, hm⟩ := mem_history.mp hmem
    exact hw.from_e e' data sent (hpre.subset hl) hm
  subst he
  have hseen' : Seen (history (pre ++ w')) m e' n := by
    rw [history_append]
    exact AgingTable.seen_append_of_seen hseen
  obtain ⟨r, hr, hre, -⟩ := (lookup_iff_seen hrun hf m e' n).mpr ⟨hseen', hn⟩
  exact ⟨r, hr, hre⟩

/-- From the moment a frame with source `m` arrives from `e`, until `m` is heard elsewhere or not at
all for 22 refreshes, no frame addressed to `m` is sent to an endpoint other than `e`, nor twice. -/
theorem unicast_isolation (pre : List Label) {mid : List Label} {m : Mac} {e : SockaddrIn}
    {first : List UInt8} {sent₀ : List Send} {s : Switch}
    (hrun : SwitchRun (pre ++ .recv (.datagram e first) sent₀ :: mid) s)
    (hf : WholeFrames (pre ++ .recv (.datagram e first) sent₀ :: mid)) (hfirst : srcMac first = m)
    (hw : Window m e (.recv (.datagram e first) sent₀ :: mid))
    {sender : SockaddrIn} {data : List UInt8} {sent : List Send}
    (hl : .recv (.datagram sender data) sent ∈ .recv (.datagram e first) sent₀ :: mid)
    (hdst : dstMac data = m) : (∀ x ∈ sent, x.dest = e) ∧ sent.length ≤ 1 := by
  have hlen : 14 ≤ data.length := hf sender data sent (List.mem_append_right _ hl)
  obtain ⟨buf, addr, hrun⟩ := hrun
  obtain ⟨w', rest, hsplit⟩ := List.append_of_mem hl
  rw [hsplit, ← List.append_assoc] at hrun
  obtain ⟨s1, s2, hrun1, hstep, -⟩ := hrun.split_at
  have hf1 : WholeFrames (pre ++ w') := by
    rw [hsplit, ← List.append_assoc] at hf
    exact (wholeFrames_append.mp hf).1
  -- whatever the state before, the record that the forwarding finds for `m` names `e`
  have hrec : ∃ r, (s1.learned sender data).lookup (macStr (dstMac data)) = some r ∧
      r.cliAddr = e := by
    by_cases hsrc : srcMac data = m
    · have hse : sender = e := hw.from_e sender data sent hl hsrc
      refine ⟨{ cliAddr := sender, age := 0 }, ?_, hse⟩
      rw [hdst, ← hsrc]
      exact lookup_learned_src s1 sender (by omega)
    · rw [hdst, lookup_learned_of_ne s1 sender (by omega) (fun h => hsrc h.symm)]
      cases w' with
      | nil =>
        -- the frame is the one that opens the window, and that one has source `m`
        simp only [List.nil_append, List.cons.injEq, Label.recv.injEq,
          Recv.datagram.injEq] at hsplit
        exact absurd (by rw [← hsplit.1.1.2]; exact hfirst) hsrc
      | cons l0 w' =>
        simp only [List.cons_append, List.cons.injEq] at hsplit
        obtain ⟨rfl, hmid⟩ := hsplit
        have hpre : (Label.recv (.datagram e first) sent₀ :: w') <+:
            .recv (.datagram e first) sent₀ :: mid := by
          rw [hmid, ← List.cons_append]
          exact List.prefix_append _ _
        have hstart : .learn m e ∈ history (.recv (.datagram e first) sent₀ :: w') :=
          mem_history.mpr ⟨first, sent₀, by simp, hfirst⟩
        exact hw.lookup ⟨buf, addr, hrun1⟩ hf1 hpre hstart
  obtain ⟨r, hr, hre⟩ := hrec
  rw [← hre]
  exact sent_to_recorded hstep hlen hr

/-- A second station's frame to the first one goes to the first one's endpoint only. -/
theorem unicast_isolation_station : ∃ tr s sent,
    SwitchRun tr s ∧
    history tr = [.learn (station 1) ⟨5001, 1⟩, .learn (station 2) ⟨5002, 2⟩] ∧
    .recv (.datagram ⟨5002, 2⟩ (ethFrame (station 1) (station 2))) sent ∈ tr ∧
    (∀ x ∈ sent, x.dest = ⟨5001, 1⟩) ∧ sent.length ≤ 1 := by
  have hrest : AtRest (Switch.init (fun _ => 0) ⟨0, 0⟩) := ⟨rfl, rfl, rfl⟩
  obtain ⟨sent₀, t₁, s1, hrun1, hrest1, ht₁, -⟩ := run_receive Run.refl hrest
    (.datagram ⟨5001, 1⟩ (ethFrame broadcastMac (station 1)))
  obtain ⟨sent, t₂, s2, hrun2, -, ht₂, -⟩ := run_receive hrun1 hrest1
    (.datagram ⟨5002, 2⟩ (ethFrame (station 1) (station 2)))
  simp only [List.nil_append, List.cons_append] at hrun2
  set mid := t₁ ++ .recv (.datagram ⟨5002, 2⟩ (ethFrame (station 1) (station 2))) sent :: t₂
    with hmid
  set w := Label.recv (.datagram ⟨5001, 1⟩ (ethFrame broadcastMac (station 1))) sent₀ :: mid with hw
  have hhist : history w = [.learn (station 1) ⟨5001, 1⟩, .learn (station 2) ⟨5002, 2⟩] := by
    rcases ht₁ with rfl | rfl <;> rcases ht₂ with rfl | rfl <;>
      simp [hw, hmid, history, Label.events]
  have hwhole : WholeFrames w := by
    intro a b c hm
    rcases ht₁ with rfl | rfl <;> rcases ht₂ with rfl | rfl <;> simp [hw, hmid] at hm <;>
      rcases hm with ⟨⟨-, rfl⟩, -⟩ | ⟨⟨-, rfl⟩, -⟩ <;> simp
  have hwin : Window (station 1) ⟨5001, 1⟩ w := by
    refine ⟨fun e' data sent' hm hsrc => ?_, fun w' e' n hpre hseen => ?_⟩
    · have hin : .learn (station 1) e' ∈ history w := mem_history.mpr ⟨data, sent', hm, hsrc⟩
      rw [hhist] at hin
      simpa using hin
    · obtain ⟨rest, hrest⟩ := hpre
      have hticks : AgingTable.ticks (history w') ≤ AgingTable.ticks (history w) := by
        rw [← hrest, history_append, AgingTable.ticks_append]
        omega
      rw [hhist] at hticks
      have hle := hseen.le_ticks
      have hzero : AgingTable.ticks [AgingTable.Event.learn (station 1) (⟨5001, 1⟩ : SockaddrIn),
        .learn (station 2) ⟨5002, 2⟩] = 0 := rfl
      omega
  have hmem : .recv (.datagram ⟨5002, 2⟩ (ethFrame (station 1) (station 2))) sent ∈ w := by
    simp [hw, hmid]
  have hswitch : SwitchRun w s2 := ⟨_, _, hrun2⟩
  exact ⟨w, s2, sent, hswitch, hhist, hmem, unicast_isolation [] hswitch hwhole
    (srcMac_ethFrame _ _) hwin hmem (dstMac_ethFrame _ _)⟩

/-! ## Bytes of earlier datagrams -/

/-- Two states react to a datagram in the same way: the same table afterwards, and the same sends
whenever glib walks the table in the same order. -/
def SameReaction (s1 s2 : Switch) (sender : SockaddrIn) (data : List UInt8) : Prop :=
  ∀ iter, GHashTable.Enumerates iter (s1.learned sender data) →
    (s1.body (.datagram sender data) iter).1.macTable =
      (s2.body (.datagram sender data) iter).1.macTable ∧
    (s1.body (.datagram sender data) iter).2 = (s2.body (.datagram sender data) iter).2

theorem sameReaction_of_whole_header {s1 s2 : Switch} (ht : s1.macTable = s2.macTable)
    (sender : SockaddrIn) {data : List UInt8} (hlen : 12 ≤ data.length) :
    SameReaction s1 s2 sender data := by
  intro iter _
  have hlearned : s1.learned sender data = s2.learned sender data := by
    unfold Switch.learned
    rw [learned_macTable s1 sender hlen, learned_macTable s2 sender hlen, ht]
  constructor
  · rw [body_macTable, body_macTable, if_pos (receive_datagram_pos s1 sender (by omega)),
      if_pos (receive_datagram_pos s2 sender (by omega))]
    exact hlearned
  · rw [body_sent s1 sender iter hlen, body_sent s2 sender iter hlen, hlearned]

/-- The last byte of the source address of a short datagram is the one left in the buffer. -/
theorem etherShost_stale (addr sender : SockaddrIn) (buf : EtherBuf) {data : List UInt8}
    (h : data.length < 12) :
    (etherShost (recvfrom addr buf (.datagram sender data)).2.2)[5] =
      buf ⟨11, by unfold etherMaxLen; omega⟩ := by
  simp only [etherShost, Vector.getElem_ofFn]
  rw [recvfrom_stale _ _ _ _ (by simp only; omega)]

/-- A datagram acts through the table, its sender and its own bytes alone if and only if it holds
both addresses of the header, that is, if and only if it has at least 12 bytes. -/
theorem same_reaction_iff (sender : SockaddrIn) {data : List UInt8} (hpos : 0 < data.length) :
    (∀ s1 s2, Reachable s1 → Reachable s2 → s1.pc = .recvfrom → s2.pc = .recvfrom →
      s1.macTable = s2.macTable → SameReaction s1 s2 sender data) ↔ 12 ≤ data.length := by
  constructor
  · intro hall
    by_contra hshort
    have hlt : data.length < 12 := by omega
    -- two switches that have received nothing yet, with different bytes in their buffers
    set s1 := Switch.init (fun _ => 0) ⟨0, 0⟩ with hs1
    set s2 := Switch.init (fun _ => 1) ⟨0, 0⟩ with hs2
    obtain ⟨iter, hiter⟩ := GHashTable.exists_enumerates (s1.learned sender data)
    obtain ⟨htab, -⟩ := hall s1 s2 ⟨[], _, _, Run.refl⟩ ⟨[], _, _, Run.refl⟩ rfl rfl rfl iter hiter
    rw [body_macTable, body_macTable, if_pos (receive_datagram_pos s1 sender hpos),
      if_pos (receive_datagram_pos s2 sender hpos)] at htab
    set m1 := etherShost (recvfrom s1.switchAddr s1.etherData (.datagram sender data)).2.2 with hm1
    set m2 := etherShost (recvfrom s2.switchAddr s2.etherData (.datagram sender data)).2.2 with hm2
    have hne : m1 ≠ m2 := by
      intro heq
      have h5 := congrArg (fun m : Mac => m[5]) heq
      simp only [hm1, hm2, etherShost_stale _ _ _ hlt] at h5
      cases h5
    have htab' : macLearning ∅ (macStr m1) sender = macLearning ∅ (macStr m2) sender := htab
    have hlook := congrArg (Finmap.lookup (macStr m1)) htab'
    rw [lookup_macLearning, lookup_macLearning, if_pos rfl,
      if_neg (fun h => hne (macStr_injective h)), Finmap.lookup_empty] at hlook
    cases hlook
  · intro hlen s1 s2 _ _ _ _ ht
    exact sameReaction_of_whole_header ht sender hlen

/-- A whole frame acts alike on a buffer of zeros and on a buffer of ones. -/
theorem same_reaction_frame : ∃ s₁ s₂, Reachable s₁ ∧ Reachable s₂ ∧ s₁.etherData ≠ s₂.etherData ∧
    SameReaction s₁ s₂ ⟨5001, 1⟩ (ethFrame broadcastMac (station 1)) := by
  set s₁ := Switch.init (fun _ => 0) ⟨0, 0⟩ with hs₁
  set s₂ := Switch.init (fun _ => 1) ⟨0, 0⟩ with hs₂
  have hr₁ : Reachable s₁ := ⟨[], _, _, Run.refl⟩
  have hr₂ : Reachable s₂ := ⟨[], _, _, Run.refl⟩
  have hne : s₁.etherData ≠ s₂.etherData := by
    intro heq
    cases congrFun heq ⟨0, by unfold etherMaxLen; omega⟩
  have hiff := same_reaction_iff ⟨5001, 1⟩
    (show 0 < (ethFrame broadcastMac (station 1)).length by simp)
  exact ⟨s₁, s₂, hr₁, hr₂, hne, hiff.mpr (by simp) s₁ s₂ hr₁ hr₂ rfl rfl rfl⟩

/-- Two runs from the same start that end with the same table, the one with station 1 heard last,
the other with station 2: a datagram of one byte from a third endpoint moves station 1 there in the
first run and station 2 in the second. -/
theorem same_reaction_fails : ∃ tr₁ s₁ tr₂ s₂,
    Run Step (Switch.init (fun _ => 0) ⟨0, 0⟩) tr₁ s₁ ∧
    history tr₁ = [.learn (station 1) ⟨5001, 1⟩, .learn (station 2) ⟨5001, 1⟩,
      .learn (station 1) ⟨5001, 1⟩] ∧
    Run Step (Switch.init (fun _ => 0) ⟨0, 0⟩) tr₂ s₂ ∧
    history tr₂ = [.learn (station 1) ⟨5001, 1⟩, .learn (station 2) ⟨5001, 1⟩] ∧
    s₁.pc = .recvfrom ∧ s₂.pc = .recvfrom ∧ s₁.macTable = s₂.macTable ∧
    ¬ SameReaction s₁ s₂ ⟨5003, 3⟩ [0] := by
  obtain ⟨tr₁, s₁, hrun₁, hf₁, hh₁, hrest₁, hbuf₁⟩ := exists_run_history (fun _ => 0) ⟨0, 0⟩
    [.learn (station 1) ⟨5001, 1⟩, .learn (station 2) ⟨5001, 1⟩, .learn (station 1) ⟨5001, 1⟩]
  obtain ⟨tr₂, s₂, hrun₂, hf₂, hh₂, hrest₂, hbuf₂⟩ := exists_run_history (fun _ => 0) ⟨0, 0⟩
    [.learn (station 1) ⟨5001, 1⟩, .learn (station 2) ⟨5001, 1⟩]
  have hsw₁ : SwitchRun tr₁ s₁ := ⟨_, _, hrun₁⟩
  have hsw₂ : SwitchRun tr₂ s₂ := ⟨_, _, hrun₂⟩
  have hview₁ := tableView_run hsw₁ hf₁
  have hview₂ := tableView_run hsw₂ hf₂
  rw [hh₁] at hview₁
  rw [hh₂] at hview₂
  have htab : s₁.macTable = s₂.macTable := by
    apply macTable_ext (keys_are_macs hsw₁) (keys_are_macs hsw₂)
    rw [hview₁, hview₂]
    funext m
    by_cases h1 : m = station 1 <;> by_cases h2 : m = station 2 <;>
      simp [AgingTable.after, AgingTable.step, AgingTable.learn, h1, h2]
  refine ⟨tr₁, s₁, tr₂, s₂, hrun₁, hh₁, hrun₂, hh₂, hrest₁.1, hrest₂.1, htab, fun hsame => ?_⟩
  -- the one byte received does not reach the source address, which is still that of the last frame
  have hkeep : ∀ s : Switch, etherShost (recvfrom s.switchAddr s.etherData
      (.datagram ⟨5003, 3⟩ [0])).2.2 = etherShost s.etherData := by
    intro s
    apply Vector.ext
    intro i hi
    simp only [etherShost, Vector.getElem_ofFn]
    rw [recvfrom_stale _ _ _ _ (by simp only [List.length_singleton]; omega)]
  obtain ⟨iter, hiter⟩ := GHashTable.exists_enumerates (s₁.learned ⟨5003, 3⟩ [0])
  obtain ⟨heq, -⟩ := hsame iter hiter
  rw [body_macTable, body_macTable, if_pos (receive_datagram_pos s₁ _ (by simp)),
    if_pos (receive_datagram_pos s₂ _ (by simp))] at heq
  have hlast₁ : etherShost s₁.etherData = station 1 :=
    hbuf₁ [.learn (station 1) ⟨5001, 1⟩, .learn (station 2) ⟨5001, 1⟩] _ _ rfl
  have hlast₂ : etherShost s₂.etherData = station 2 :=
    hbuf₂ [.learn (station 1) ⟨5001, 1⟩] _ _ rfl
  have heq' : macLearning s₁.macTable (macStr (station 1)) ⟨5003, 3⟩ =
      macLearning s₂.macTable (macStr (station 2)) ⟨5003, 3⟩ := by
    rw [← hlast₁, ← hlast₂, ← hkeep s₁, ← hkeep s₂]
    exact heq
  obtain ⟨r, hr, he⟩ := lookup_of_after hsw₂ hf₂ (m := station 1) (by rw [hh₂]; rfl)
  have hlook := congrArg (Finmap.lookup (macStr (station 1))) heq'
  rw [lookup_macLearning, lookup_macLearning, if_pos rfl, if_neg (by simp [macStr_inj]),
    hr] at hlook
  have hr3 := congrArg MacRecord.cliAddr (Option.some.inj hlook)
  rw [he] at hr3
  cases hr3

end CDevHws.FinalProject
