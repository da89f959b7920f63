import CDevHws.FinalProject.Proofs.ForwardingProofs

/-!
# Proofs: when the ageing at the bottom of the loop is reached

`refresh_age` is the only place where the alarm is armed again, so a pass of the loop that starts
with the flag set has to reach it. The `continue` of the forwarding is the one way round it.
-/

namespace CDevHws.FinalProject

open Transition (Run)

/-- The flag and the pending alarm exclude each other, and one of them is there: `alarm(1)` is
called once at the start and once for each alarm that has gone off and been served. -/
theorem alarm_eq_not_flag {s : Switch} (h : Reachable s) : s.alarm = !s.refreshAgeFlag := by
  obtain ⟨tr, buf, addr, hrun⟩ := h
  refine hrun.invariant (I := fun s => s.alarm = !s.refreshAgeFlag) rfl ?_
  intro s1 l s2 ih hl
  cases hl with
  | recv r iter hpc hiter =>
    obtain ⟨hflag, halarm, -⟩ := body_frame s1 r iter
    rw [hflag, halarm]
    exact ih
  | refresh hpc hflag => rfl
  | skip hpc hflag => exact ih
  | sigalrm halarm => rfl

/-- The rest of the pass executes `refresh_age` exactly once: the switch can go on, and whatever it
does next is the refresh, after which it is at the top of the loop with the flag cleared and the
alarm armed. -/
def RefreshesNext (s : Switch) : Prop :=
  (∃ l s', Step s l s') ∧ ∀ l s', Step s l s' →
    l = .refresh ∧ s'.pc = .recvfrom ∧ s'.refreshAgeFlag = false ∧ s'.alarm = true

theorem refreshesNext_of_aging {s : Switch} (hpc : s.pc = .aging) (hflag : s.refreshAgeFlag = true)
    (halarm : s.alarm = false) : RefreshesNext s := by
  refine ⟨⟨_, _, Step.refresh s hpc hflag⟩, fun l s' hl => ?_⟩
  cases hl with
  | recv r iter hpc' hiter => rw [hpc] at hpc'; cases hpc'
  | refresh hpc' hflag' => exact ⟨rfl, rfl, rfl, rfl⟩
  | skip hpc' hflag' => rw [hflag] at hflag'; cases hflag'
  | sigalrm halarm' => rw [halarm] at halarm'; cases halarm'

/-- At the top of the loop the next thing to happen may be another datagram, so nothing says that
the table is refreshed before it. -/
theorem not_refreshesNext_of_recvfrom {s : Switch} (hpc : s.pc = .recvfrom) :
    ¬ RefreshesNext s := by
  rintro ⟨-, hall⟩
  obtain ⟨iter, hiter⟩ := GHashTable.exists_enumerates (s.receive .error).2.learn.macTable
  obtain ⟨hl, -⟩ := hall _ _ (Step.recv s .error iter hpc hiter)
  cases hl

/-- The datagram is one whose destination is recorded, or learned right now, at the UDP port it came
from. -/
def DestinationIsHere (s : Switch) (r : Recv) : Prop :=
  0 < (s.receive r).1 ∧
    (etherDhost (s.receive r).2.etherData = etherShost (s.receive r).2.etherData ∨
      ∃ rec, s.macTable.lookup (macStr (etherDhost (s.receive r).2.etherData)) = some rec ∧
        rec.cliAddr.sinPort = (s.receive r).2.switchAddr.sinPort)

/-- For a datagram with both addresses this is a matter of its own bytes and the table. -/
theorem destinationIsHere_iff (s : Switch) (sender : SockaddrIn) {data : List UInt8}
    (h : 12 ≤ data.length) : DestinationIsHere s (.datagram sender data) ↔
      dstMac data = srcMac data ∨ ∃ rec, s.macTable.lookup (macStr (dstMac data)) = some rec ∧
        rec.cliAddr.sinPort = sender.sinPort := by
  have hdst := etherDhost_recvfrom s.switchAddr sender s.etherData (show 6 ≤ data.length by omega)
  have hsrc := etherShost_recvfrom s.switchAddr sender s.etherData h
  have hpos := receive_datagram_pos s sender (show 0 < data.length by omega)
  rw [← hdst, ← hsrc]
  exact ⟨fun hhere => hhere.2, fun hor => ⟨hpos, hor⟩⟩

theorem frameForwarding_eq_none_iff {t : MacTable} {iter : List MacEntry} {ethSrc ethDst : Text}
    {addr : SockaddrIn} {frame : List UInt8} :
    frameForwarding t iter ethSrc ethDst addr frame = none ↔
      ∃ rec, t.lookup ethDst = some rec ∧ rec.cliAddr.sinPort = addr.sinPort := by
  unfold frameForwarding
  cases ht : t.lookup ethDst with
  | none =>
    by_cases hb : ethDst = broadcastStr
    · simp [hb]
    · simp [hb]
  | some rec =>
    by_cases hp : rec.cliAddr.sinPort = addr.sinPort
    · simp [hp]
    · simp [hp]

/-- What the forwarding looks up under the destination, in terms of the table before the datagram.
-/
theorem learn_lookup_iff (s : Switch) (dst : Mac) :
    (∃ rec, s.learn.macTable.lookup (macStr dst) = some rec ∧
      rec.cliAddr.sinPort = s.switchAddr.sinPort) ↔
    dst = etherShost s.etherData ∨ ∃ rec, s.macTable.lookup (macStr dst) = some rec ∧
      rec.cliAddr.sinPort = s.switchAddr.sinPort := by
  have hlook : s.learn.macTable.lookup (macStr dst) =
      if macStr dst = macStr (etherShost s.etherData) then
        some { cliAddr := s.switchAddr, age := 0 }
      else s.macTable.lookup (macStr dst) :=
    lookup_macLearning s.macTable (macStr (etherShost s.etherData)) s.switchAddr (macStr dst)
  rw [hlook]
  by_cases hd : dst = etherShost s.etherData
  · rw [if_pos (by rw [hd])]
    simp [hd]
  · rw [if_neg (fun h => hd (macStr_injective h))]
    simp [hd]

/-- The body ends at the test of the flag, unless the forwarding says `continue`. -/
theorem body_pc {s : Switch} (hpc : s.pc = .recvfrom) (r : Recv) (iter : List MacEntry) :
    ((s.body r iter).1.pc = .recvfrom ∧ DestinationIsHere s r) ∨
      ((s.body r iter).1.pc = .aging ∧ ¬ DestinationIsHere s r) := by
  have hhere : 0 < (s.receive r).1 →
      (frameForwarding (s.receive r).2.learn.macTable iter
        (macStr (etherShost (s.receive r).2.etherData))
        (macStr (etherDhost (s.receive r).2.etherData)) (s.receive r).2.switchAddr
        ((s.receive r).2.etherData.bytes (s.receive r).1.toNat) = none ↔
          DestinationIsHere s r) := by
    intro hpos
    rw [frameForwarding_eq_none_iff, learn_lookup_iff]
    unfold DestinationIsHere
    exact ⟨fun h => ⟨hpos, h⟩, fun h => h.2⟩
  unfold Switch.body
  by_cases hpos : 0 < (s.receive r).1
  · simp only [gt_iff_lt, hpos, if_true]
    split
    · rename_i hf
      exact Or.inl ⟨hpc, (hhere hpos).mp hf⟩
    · rename_i sent hf
      refine Or.inr ⟨rfl, fun hd => ?_⟩
      have hnone := (hhere hpos).mpr hd
      exact absurd (hf.symm.trans hnone) (by simp)
  · simp only [gt_iff_lt, hpos, if_false]
    exact Or.inr ⟨trivial, fun hd => hpos hd.1⟩

/-- A pass of the loop that starts with the flag set executes `refresh_age` exactly once before the
next `recvfrom` if and only if it does not receive a datagram whose destination is recorded at the
UDP port it came from. -/
theorem refresh_reached_iff {s s' : Switch} {r : Recv} {sent : List Send} (hs : Reachable s)
    (hflag : s.refreshAgeFlag = true) (hstep : Step s (.recv r sent) s') :
    RefreshesNext s' ↔ ¬ DestinationIsHere s r := by
  obtain ⟨hpc, iter, hiter, -, rfl⟩ := step_recv_inv hstep
  have halarm : s.alarm = false := by rw [alarm_eq_not_flag hs, hflag]; rfl
  obtain ⟨hf, ha, -⟩ := body_frame s r iter
  rcases body_pc hpc r iter with ⟨hpc', hhere⟩ | ⟨hpc', hhere⟩
  · exact iff_of_false (not_refreshesNext_of_recvfrom hpc') (fun h => h hhere)
  · exact iff_of_true (refreshesNext_of_aging hpc' (hf.trans hflag) (ha.trans halarm)) hhere

theorem refresh_reached_station : ∃ s sent s', Reachable s ∧ s.refreshAgeFlag = true ∧
    Step s (.recv (.datagram ⟨5001, 1⟩ (ethFrame broadcastMac (station 1))) sent) s' ∧
    RefreshesNext s' := by
  set s := (Switch.init (fun _ => 0) ⟨0, 0⟩).handleAlarm with hs
  set data := ethFrame broadcastMac (station 1) with hdata
  have hreach : Reachable s := ⟨_, _, _, Run.single (Step.sigalrm _ rfl)⟩
  obtain ⟨iter, hiter⟩ := GHashTable.exists_enumerates (s.learned ⟨5001, 1⟩ data)
  have hstep := Step.recv s (.datagram ⟨5001, 1⟩ data) iter rfl hiter
  have hnot : ¬ DestinationIsHere s (.datagram ⟨5001, 1⟩ data) := by
    rw [destinationIsHere_iff s _ (by simp [hdata]), hdata, dstMac_ethFrame, srcMac_ethFrame]
    rintro (heq | ⟨rec, hrec, -⟩)
    · simp at heq
    · cases hrec
  exact ⟨s, _, _, hreach, rfl, hstep, (refresh_reached_iff hreach rfl hstep).mpr hnot⟩

/-- A station that talks to another one behind the same endpoint keeps the ageing from being
reached. -/
theorem refresh_reached_fails : ∃ tr s s',
    SwitchRun tr s ∧ WholeFrames tr ∧ history tr = [.learn (station 1) ⟨5001, 1⟩] ∧
    s.refreshAgeFlag = true ∧
    Step s (.recv (.datagram ⟨5001, 1⟩ (ethFrame (station 1) (station 2))) []) s' ∧
    s'.refreshAgeFlag = true ∧ s'.pc = .recvfrom ∧ ¬ RefreshesNext s' := by
  obtain ⟨tr, s, ⟨buf, addr, hrun⟩, hf, hh, hpc, hflag, halarm⟩ :=
    exists_switchRun_history [.learn (station 1) ⟨5001, 1⟩]
  obtain ⟨r, hr, he⟩ := lookup_of_after ⟨buf, addr, hrun⟩ hf (m := station 1) (by rw [hh]; rfl)
  set data := ethFrame (station 1) (station 2) with hdata
  have hlearn : (s.handleAlarm.learned ⟨5001, 1⟩ data).lookup (macStr (dstMac data)) = some r := by
    rw [dstMac_ethFrame, lookup_learned_of_ne _ _ (by simp [hdata]) (by simp [hdata])]
    exact hr
  obtain ⟨iter, hiter⟩ := GHashTable.exists_enumerates (s.handleAlarm.learned ⟨5001, 1⟩ data)
  have hsent := sent_known iter (by simp [hdata]) hlearn
  rw [he, if_pos rfl] at hsent
  have hstep := Step.recv s.handleAlarm (.datagram ⟨5001, 1⟩ data) iter hpc hiter
  rw [hsent] at hstep
  have hhere : DestinationIsHere s.handleAlarm (.datagram ⟨5001, 1⟩ data) := by
    rw [destinationIsHere_iff _ _ (by simp [hdata]), hdata, dstMac_ethFrame]
    exact Or.inr ⟨r, hr, by rw [he]⟩
  have hpc' : (s.handleAlarm.body (.datagram ⟨5001, 1⟩ data) iter).1.pc = .recvfrom := by
    rcases body_pc (s := s.handleAlarm) hpc (.datagram ⟨5001, 1⟩ data) iter with ⟨h, -⟩ | ⟨-, h⟩
    · exact h
    · exact absurd hhere h
  refine ⟨_, s.handleAlarm, _, ⟨buf, addr, hrun.tail (Step.sigalrm s halarm)⟩, ?_, ?_, rfl, hstep,
    (body_frame _ _ _).1, hpc', not_refreshesNext_of_recvfrom hpc'⟩
  · rw [wholeFrames_append]
    exact ⟨hf, by simp [WholeFrames]⟩
  · rw [history_append, hh]
    simp [history, Label.events]

end CDevHws.FinalProject
