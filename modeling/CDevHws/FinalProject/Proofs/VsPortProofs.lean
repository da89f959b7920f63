import CDevHws.FinalProject.VsPort

/-!
# Proofs: where the port sends its frames

The address that the sending task uses is the one the port was given, until a datagram arrives; from
then on it is the address of the last sender, whoever that was.
-/

namespace CDevHws.FinalProject

open Transition (Run)

theorem vsPortInit_eq_some_iff {tapfd sockfd : ℤ} {sinAddr : Option UInt32} {serverPort : ℕ}
    {p : VsPort} : vsPortInit tapfd sockfd sinAddr serverPort = some p ↔
      0 ≤ tapfd ∧ 0 ≤ sockfd ∧ ∃ a, sinAddr = some a ∧
        p = { tapfd, sockfd, switchAddr := ⟨htons serverPort, a⟩ } := by
  unfold vsPortInit
  by_cases ht : tapfd < 0
  · have hn : ¬ 0 ≤ tapfd := by omega
    simp [ht, hn]
  · have hp : 0 ≤ tapfd := by omega
    by_cases hs : sockfd < 0
    · have hn : ¬ 0 ≤ sockfd := by omega
      simp [ht, hs, hn]
    · have hp' : 0 ≤ sockfd := by omega
      cases sinAddr with
      | none => simp [ht, hs]
      | some a =>
        simp only [ht, hs, if_false, hp, hp', true_and, Option.some.injEq]
        constructor
        · rintro rfl; exact ⟨a, rfl, rfl⟩
        · rintro ⟨_, rfl, rfl⟩; rfl

theorem lastSender_append_singleton (tr : List PortLabel) (l : PortLabel) :
    lastSender (tr ++ [l]) = match l with
      | .receive (.datagram sender _) _ => some sender
      | _ => lastSender tr := by
  unfold lastSender
  rw [List.foldl_append]
  rfl

/-- The sockets never change, and the address is that of the last sender, if there was one. -/
theorem port_run_inv {s₀ s : PortState} {tr : List PortLabel} (h : Run PortStep s₀ tr s) :
    s.port.sockfd = s₀.port.sockfd ∧
      s.port.switchAddr = (lastSender tr).getD s₀.port.switchAddr := by
  refine h.history (R := fun tr s => s.port.sockfd = s₀.port.sockfd ∧
    s.port.switchAddr = (lastSender tr).getD s₀.port.switchAddr) ⟨rfl, rfl⟩ ?_
  intro tr s1 l s2 ih hl
  rw [lastSender_append_singleton]
  cases hl with
  | send frame => exact ih
  | receive r =>
    cases r with
    | error => exact ih
    | datagram sender data => exact ⟨ih.1, rfl⟩

theorem sendTask_frame (p : VsPort) {frame : List UInt8} (h : frame ≠ []) :
    p.sendTask (some frame) = [.sendto p.sockfd (frame.take etherMaxLen) p.switchAddr] := by
  have hpos : 0 < frame.length := List.length_pos_iff.mpr h
  have hlen : (frame.take etherMaxLen).length > 0 := by
    rw [List.length_take]
    unfold etherMaxLen
    omega
  simp only [VsPort.sendTask, hlen, if_true]

/-- A frame read from the TAP device after the labels `pre` goes to the last sender in `pre`. -/
theorem send_after {s₀ s : PortState} {pre post : List PortLabel} {frame : List UInt8}
    {calls : List PortCall} (h : Run PortStep s₀ (pre ++ .send (some frame) calls :: post) s)
    (hne : frame ≠ []) :
    calls = [.sendto s₀.port.sockfd (frame.take etherMaxLen)
      ((lastSender pre).getD s₀.port.switchAddr)] := by
  obtain ⟨s1, s2, h1, hl, -⟩ := h.split_at
  obtain ⟨hfd, haddr⟩ := port_run_inv h1
  cases hl with
  | send frame =>
    rw [sendTask_frame _ hne, hfd, haddr]

/-- In a run of the port that `vs_port_init` set up, every frame read from the TAP device goes to
the address of the switch if and only if before each of them the last datagram received, if any,
came from that address. -/
theorem sent_to_switch_iff {tapfd sockfd : ℤ} {sinAddr : UInt32} {serverPort : ℕ} {p : VsPort}
    (hinit : vsPortInit tapfd sockfd (some sinAddr) serverPort = some p) {buf : EtherBuf}
    {tr : List PortLabel} {s : PortState} (hrun : Run PortStep ⟨p, buf⟩ tr s) :
    (∀ frame calls, .send (some frame) calls ∈ tr → frame ≠ [] →
      calls = [.sendto sockfd (frame.take etherMaxLen) ⟨htons serverPort, sinAddr⟩]) ↔
    ∀ pre frame calls post, tr = pre ++ .send (some frame) calls :: post → frame ≠ [] →
      ∀ sender, lastSender pre = some sender → sender = ⟨htons serverPort, sinAddr⟩ := by
  obtain ⟨-, -, a, ha, rfl⟩ := vsPortInit_eq_some_iff.mp hinit
  obtain rfl := Option.some.inj ha
  constructor
  · intro hall pre frame calls post htr hne sender hlast
    subst htr
    have hcalls := send_after hrun hne
    rw [hlast, Option.getD_some] at hcalls
    have hsw := hall frame calls (by simp) hne
    rw [hcalls] at hsw
    simp only [List.cons.injEq, PortCall.sendto.injEq, and_true, true_and] at hsw
    exact hsw
  · intro hall frame calls hmem hne
    obtain ⟨pre, post, rfl⟩ := List.append_of_mem hmem
    rw [send_after hrun hne]
    cases hlast : lastSender pre with
    | none => rfl
    | some sender => rw [Option.getD_some, hall pre frame calls post rfl hne sender hlast]

/-- The run of a port that receives one datagram from elsewhere and then reads a frame. -/
theorem sent_to_switch_fails : ∃ p tr s, vsPortInit 3 4 (some 1) 5555 = some p ∧
    Run PortStep ⟨p, fun _ => 0⟩ tr s ∧
    tr = [.receive (.datagram ⟨htons 6666, 2⟩ [0]) [.write 3 [0]],
      .send (some [1]) [.sendto 4 [1] ⟨htons 6666, 2⟩]] ∧
    (⟨htons 6666, 2⟩ : SockaddrIn) ≠ p.switchAddr := by
  have hrecv := PortStep.receive ⟨⟨3, 4, ⟨htons 5555, 1⟩⟩, fun _ => 0⟩
    (.datagram ⟨htons 6666, 2⟩ [0])
  have hsend := PortStep.send (PortState.receiveTask ⟨⟨3, 4, ⟨htons 5555, 1⟩⟩, fun _ => 0⟩
    (.datagram ⟨htons 6666, 2⟩ [0])).1 (some [1])
  refine ⟨⟨3, 4, ⟨htons 5555, 1⟩⟩, _, _, rfl, (Run.single hrecv).tail hsend, ?_, by decide⟩
  have h1 : (PortState.receiveTask ⟨⟨3, 4, ⟨htons 5555, 1⟩⟩, fun _ => 0⟩
      (.datagram ⟨htons 6666, 2⟩ [0])).2 = [.write 3 [0]] := by decide
  rw [h1]
  rfl

/-- A port that only ever hears its switch keeps sending to it. -/
theorem sent_to_switch_answered : ∃ p tr s, vsPortInit 3 4 (some 1) 5555 = some p ∧
    Run PortStep ⟨p, fun _ => 0⟩ tr s ∧
    (.send (some [1]) [.sendto 4 [1] ⟨htons 5555, 1⟩]) ∈ tr ∧
    ∀ frame calls, .send (some frame) calls ∈ tr → frame ≠ [] →
      calls = [.sendto 4 (frame.take etherMaxLen) ⟨htons 5555, 1⟩] := by
  have hrecv := PortStep.receive ⟨⟨3, 4, ⟨htons 5555, 1⟩⟩, fun _ => 0⟩
    (.datagram ⟨htons 5555, 1⟩ [0])
  have hsend := PortStep.send (PortState.receiveTask ⟨⟨3, 4, ⟨htons 5555, 1⟩⟩, fun _ => 0⟩
    (.datagram ⟨htons 5555, 1⟩ [0])).1 (some [1])
  have hrun := (Run.single hrecv).tail hsend
  have hinit : vsPortInit 3 4 (some 1) 5555 = some ⟨3, 4, ⟨htons 5555, 1⟩⟩ := rfl
  refine ⟨_, _, _, hinit, hrun, by simp [VsPort.sendTask, PortState.receiveTask, recvfrom], ?_⟩
  refine (sent_to_switch_iff hinit hrun).mpr ?_
  intro pre frame calls post htr hne sender hlast
  rcases pre with _ | ⟨l1, _ | ⟨l2, pre⟩⟩
  · simp at htr
  · simp only [List.cons_append, List.nil_append, List.cons.injEq] at htr
    rw [← htr.1] at hlast
    exact (Option.some.inj hlast).symm
  · simp at htr

end CDevHws.FinalProject
