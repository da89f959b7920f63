import CDevHws.FinalProject.VSwitch
import CDevHws.FinalProject.Proofs.EthernetProofs

/-!
# Proofs: `mac_table` is the table of the last sightings

`macLearning` and `refreshAge` are, address by address, the two reactions of a learning table with
ageing (`CDevHws.Lib.AgingTable`). Every run therefore leaves the table that its history determines.
-/

namespace CDevHws.FinalProject

open AgingTable (Seen)
open Transition (Run)

/-! ## Learning and ageing, key by key -/

/-- Whichever branch is taken, the source ends up with the sender's address and age 0. -/
theorem macLearning_eq (t : MacTable) (k : Text) (addr : SockaddrIn) :
    macLearning t k addr = t.insert k { cliAddr := addr, age := 0 } := by
  unfold macLearning
  cases t.lookup k with
  | none => rfl
  | some macRecord =>
    by_cases h : macRecord.cliAddr = addr
    · simp [h]
    · simp [h]

theorem lookup_macLearning (t : MacTable) (k : Text) (addr : SockaddrIn) (k' : Text) :
    (macLearning t k addr).lookup k' =
      if k' = k then some { cliAddr := addr, age := 0 } else t.lookup k' := by
  rw [macLearning_eq]
  by_cases h : k' = k
  · rw [if_pos h, h, Finmap.lookup_insert]
  · rw [if_neg h, Finmap.lookup_insert_of_ne _ h]

theorem lookup_refreshAge (s : Switch) (k : Text) :
    s.refreshAge.macTable.lookup k = (s.macTable.lookup k).bind fun r =>
      if 20 < r.age.toNat then none else some { r with age := r.age + 1 } := by
  have h : s.refreshAge.macTable = s.macTable.foreachRemove (processMacAge 20) := rfl
  rw [h, GHashTable.lookup_foreachRemove]
  cases s.macTable.lookup k with
  | none => rfl
  | some r =>
    by_cases hr : 20 < r.age.toNat
    · simp [processMacAge, hr]
    · simp [processMacAge, hr]

/-! ## The table as a learning table -/

/-- The table as a map from addresses to endpoint and age. -/
def tableView (t : MacTable) : AgingTable.Table Mac SockaddrIn :=
  fun m => (t.lookup (macStr m)).map fun r => (r.cliAddr, r.age.toNat)

theorem tableView_eq_some_iff {t : MacTable} {m : Mac} {e : SockaddrIn} {n : ℕ} :
    tableView t m = some (e, n) ↔
      ∃ r, t.lookup (macStr m) = some r ∧ r.cliAddr = e ∧ r.age.toNat = n := by
  simp [tableView]

theorem tableView_eq_none_iff {t : MacTable} {m : Mac} :
    tableView t m = none ↔ t.lookup (macStr m) = none := by
  simp [tableView]

theorem tableView_macLearning (t : MacTable) (m : Mac) (addr : SockaddrIn) :
    tableView (macLearning t (macStr m) addr) = AgingTable.learn (tableView t) m addr := by
  funext m'
  simp only [tableView, AgingTable.learn, lookup_macLearning, macStr_inj]
  by_cases h : m' = m
  · simp [h]
  · simp [h]

/-- An age that `process_mac_age` increments is at most 20, so the `unsigned short` does not wrap.
-/
theorem age_succ_toNat {a : UInt16} (h : ¬ 20 < a.toNat) : (a + 1).toNat = a.toNat + 1 := by
  rw [UInt16.toNat_add]
  simp only [UInt16.toNat_one]
  omega

theorem tableView_refreshAge (s : Switch) :
    tableView s.refreshAge.macTable = AgingTable.tick 20 (tableView s.macTable) := by
  funext m
  simp only [tableView, AgingTable.tick, lookup_refreshAge]
  cases s.macTable.lookup (macStr m) with
  | none => rfl
  | some r =>
    by_cases hr : 20 < r.age.toNat
    · simp [hr]
    · simp [hr, age_succ_toNat hr]

theorem macTable_ext {t t' : MacTable} (hk : ∀ k ∈ t, ∃ m, macStr m = k)
    (hk' : ∀ k ∈ t', ∃ m, macStr m = k) (h : tableView t = tableView t') : t = t' := by
  have hsome : ∀ m r, t.lookup (macStr m) = some r ↔ t'.lookup (macStr m) = some r := by
    intro m r
    have hm := congrFun h m
    unfold tableView at hm
    rcases ht : t.lookup (macStr m) with _ | r1 <;> rcases ht' : t'.lookup (macStr m) with _ | r2
    · simp
    · simp [ht, ht'] at hm
    · simp [ht, ht'] at hm
    · have hrr : r1 = r2 := by
        obtain ⟨a1, n1⟩ := r1
        obtain ⟨a2, n2⟩ := r2
        simp only [ht, ht', Option.map_some, Option.some.injEq, Prod.mk.injEq] at hm
        obtain ⟨rfl, hn⟩ := hm
        rw [UInt16.toNat_inj.mp hn]
      rw [hrr]
  apply Finmap.ext_lookup
  intro k
  by_cases hmac : ∃ m, macStr m = k
  · obtain ⟨m, rfl⟩ := hmac
    exact Option.ext fun r => hsome m r
  · have hn : k ∉ t := fun hh => hmac (hk k hh)
    have hn' : k ∉ t' := fun hh => hmac (hk' k hh)
    rw [Finmap.lookup_eq_none.mpr hn, Finmap.lookup_eq_none.mpr hn']

/-! ## One step -/

theorem learned_macTable (s : Switch) (sender : SockaddrIn) {data : List UInt8}
    (h : 12 ≤ data.length) :
    (s.receive (.datagram sender data)).2.learn.macTable =
      macLearning s.macTable (macStr (srcMac data)) sender := by
  have hsrc := etherShost_recvfrom s.switchAddr sender s.etherData h
  show macLearning s.macTable (macStr (etherShost (recvfrom s.switchAddr s.etherData
    (.datagram sender data)).2.2)) sender = _
  rw [hsrc]

/-- The body changes the table by learning only, and not at all without a datagram. -/
theorem body_macTable (s : Switch) (r : Recv) (iter : List MacEntry) :
    (s.body r iter).1.macTable =
      if 0 < (s.receive r).1 then (s.receive r).2.learn.macTable else s.macTable := by
  unfold Switch.body
  by_cases h : 0 < (s.receive r).1
  · simp only [h, if_true]
    split <;> rfl
  · simp only [h, if_false]
    rfl

theorem receive_datagram_pos (s : Switch) (sender : SockaddrIn) {data : List UInt8}
    (h : 0 < data.length) : 0 < (s.receive (.datagram sender data)).1 := by
  show (0 : ℤ) < (min data.length etherMaxLen : ℤ)
  unfold etherMaxLen
  omega

theorem history_append (tr tr' : List Label) :
    history (tr ++ tr') = history tr ++ history tr' := List.flatMap_append

theorem wholeFrames_append {tr tr' : List Label} :
    WholeFrames (tr ++ tr') ↔ WholeFrames tr ∧ WholeFrames tr' := by
  constructor
  · intro h
    exact ⟨fun a b c hm => h a b c (List.mem_append_left _ hm),
      fun a b c hm => h a b c (List.mem_append_right _ hm)⟩
  · rintro ⟨h1, h2⟩ a b c hm
    rcases List.mem_append.mp hm with hm | hm
    · exact h1 a b c hm
    · exact h2 a b c hm

theorem step_recv_inv {s s' : Switch} {r : Recv} {sent : List Send} (h : Step s (.recv r sent) s') :
    s.pc = .recvfrom ∧ ∃ iter, GHashTable.Enumerates iter (s.receive r).2.learn.macTable ∧
      sent = (s.body r iter).2 ∧ s' = (s.body r iter).1 := by
  cases h with
  | recv _ iter hpc hiter => exact ⟨hpc, iter, hiter, rfl, rfl⟩

theorem body_frame (s : Switch) (r : Recv) (iter : List MacEntry) :
    (s.body r iter).1.refreshAgeFlag = s.refreshAgeFlag ∧ (s.body r iter).1.alarm = s.alarm ∧
      (s.body r iter).1.etherData = (s.receive r).2.etherData := by
  unfold Switch.body
  by_cases h : 0 < (s.receive r).1
  · simp only [gt_iff_lt, h, if_true]
    split <;> exact ⟨rfl, rfl, rfl⟩
  · simp only [gt_iff_lt, h, if_false, and_true]
    exact ⟨rfl, rfl⟩

/-- One step changes the table as its events change a learning table with limit 20. -/
theorem tableView_step {s s' : Switch} {l : Label} (h : Step s l s') (hl : WholeFrames [l]) :
    tableView s'.macTable = l.events.foldl (AgingTable.step 20) (tableView s.macTable) := by
  cases h with
  | recv r iter hpc hiter =>
    rw [body_macTable]
    cases r with
    | error => rfl
    | datagram sender data =>
      have hlen : 14 ≤ data.length := hl sender data _ (List.mem_singleton.mpr rfl)
      rw [if_pos (receive_datagram_pos s sender (by omega)), learned_macTable s sender (by omega),
        tableView_macLearning]
      rfl
  | refresh hpc hflag =>
    show tableView s.refreshAge.macTable = _
    rw [tableView_refreshAge]
    rfl
  | skip hpc hflag => rfl
  | sigalrm halarm => rfl

/-! ## Whole runs -/

/-- After every run of whole frames the table is the learning table of the history. -/
theorem tableView_run {tr : List Label} {s : Switch} (h : SwitchRun tr s)
    (hf : WholeFrames tr) : tableView s.macTable = AgingTable.after 20 (history tr) := by
  obtain ⟨buf, addr, hrun⟩ := h
  refine hrun.history (R := fun tr s => WholeFrames tr →
    tableView s.macTable = AgingTable.after 20 (history tr)) ?_ ?_ hf
  · intro _
    funext m
    simp [tableView, Switch.init, history]
  · intro tr s1 l s2 ih hl hf
    obtain ⟨hf1, hf2⟩ := wholeFrames_append.mp hf
    rw [tableView_step hl hf2, ih hf1, history_append]
    simp [AgingTable.after, history]

/-- A record of the table is the last sighting of its address, if that is recent enough. -/
theorem lookup_iff_seen {tr : List Label} {s : Switch} (h : SwitchRun tr s) (hf : WholeFrames tr)
    (m : Mac) (e : SockaddrIn) (n : ℕ) :
    (∃ r, s.macTable.lookup (macStr m) = some r ∧ r.cliAddr = e ∧ r.age.toNat = n) ↔
      Seen (history tr) m e n ∧ n < 22 := by
  rw [← tableView_eq_some_iff, tableView_run h hf, AgingTable.after_eq_some_iff]
  constructor
  · rintro ⟨hs, hn⟩; exact ⟨hs, by omega⟩
  · rintro ⟨hs, hn⟩; exact ⟨hs, by omega⟩

theorem mem_macTable_iff {tr : List Label} {s : Switch} (h : SwitchRun tr s) (hf : WholeFrames tr)
    (m : Mac) : macStr m ∈ s.macTable ↔ ∃ e n, Seen (history tr) m e n ∧ n < 22 := by
  rw [Finmap.mem_iff]
  constructor
  · rintro ⟨r, hr⟩
    exact ⟨_, _, (lookup_iff_seen h hf m _ _).mp ⟨r, hr, rfl, rfl⟩⟩
  · rintro ⟨e, n, hsn⟩
    obtain ⟨r, hr, -⟩ := (lookup_iff_seen h hf m e n).mpr hsn
    exact ⟨r, hr⟩

theorem lookup_of_after {tr : List Label} {s : Switch} (h : SwitchRun tr s) (hf : WholeFrames tr)
    {m : Mac} {e : SockaddrIn} {n : ℕ} (hm : AgingTable.after 20 (history tr) m = some (e, n)) :
    ∃ r, s.macTable.lookup (macStr m) = some r ∧ r.cliAddr = e := by
  rw [← tableView_run h hf] at hm
  obtain ⟨r, hr, he, -⟩ := tableView_eq_some_iff.mp hm
  exact ⟨r, hr, he⟩

theorem keys_are_macs {tr : List Label} {s : Switch} (h : SwitchRun tr s) (k : Text)
    (hk : k ∈ s.macTable) : ∃ m, macStr m = k := by
  obtain ⟨buf, addr, hrun⟩ := h
  revert k
  refine hrun.invariant (I := fun s => ∀ k ∈ s.macTable, ∃ m, macStr m = k) ?_ ?_
  · intro k hk
    exact absurd hk Finmap.notMem_empty
  · intro s1 l s2 ih hl k hk
    cases hl with
    | recv r iter hpc hiter =>
      rw [body_macTable] at hk
      split_ifs at hk with hpos
      · have hk' : k ∈ macLearning s1.macTable
            (macStr (etherShost (s1.receive r).2.etherData)) (s1.receive r).2.switchAddr := hk
        rw [macLearning_eq, Finmap.mem_insert] at hk'
        rcases hk' with rfl | hk'
        · exact ⟨_, rfl⟩
        · exact ih k hk'
      · exact ih k hk
    | refresh hpc hflag =>
      have hk' : k ∈ s1.refreshAge.macTable := hk
      obtain ⟨r, hr⟩ := Finmap.mem_iff.mp hk'
      rw [lookup_refreshAge] at hr
      obtain ⟨r', hr', -⟩ := Option.bind_eq_some_iff.mp hr
      exact ih k (Finmap.mem_iff.mpr ⟨r', hr'⟩)
    | skip hpc hflag => exact ih k hk
    | sigalrm halarm => exact ih k hk

theorem after_of_lookup {tr : List Label} {s : Switch} (h : SwitchRun tr s) (hf : WholeFrames tr)
    {k : Text} {r : MacRecord} (hr : s.macTable.lookup k = some r) :
    ∃ m n, macStr m = k ∧ AgingTable.after 20 (history tr) m = some (r.cliAddr, n) := by
  obtain ⟨m, rfl⟩ := keys_are_macs h k (Finmap.mem_iff.mpr ⟨r, hr⟩)
  refine ⟨m, r.age.toNat, rfl, ?_⟩
  rw [← tableView_run h hf, tableView_eq_some_iff]
  exact ⟨r, hr, rfl, rfl⟩

/-- The switch waits at the top of its loop, with the alarm pending. -/
def AtRest (s : Switch) : Prop :=
  s.pc = .recvfrom ∧ s.refreshAgeFlag = false ∧ s.alarm = true

/-- A switch at rest can receive any datagram, and is at rest again after at most a test of the
flag. -/
theorem run_receive {s₀ s : Switch} {tr : List Label} (h : Run Step s₀ tr s) (hs : AtRest s)
    (r : Recv) : ∃ sent t s', Run Step s₀ (tr ++ .recv r sent :: t) s' ∧ AtRest s' ∧
      (t = [] ∨ t = [.skip]) ∧ s'.etherData = (s.receive r).2.etherData := by
  obtain ⟨hpc, hflag, halarm⟩ := hs
  obtain ⟨iter, hiter⟩ := GHashTable.exists_enumerates (s.receive r).2.learn.macTable
  have hrun1 := h.tail (Step.recv s r iter hpc hiter)
  obtain ⟨hb1, hb2, hb3⟩ := body_frame s r iter
  -- a discarded frame is back at the top already, any other one passes the flag test first
  cases hp : (s.body r iter).1.pc with
  | recvfrom =>
    exact ⟨_, [], _, hrun1, ⟨hp, hb1.trans hflag, hb2.trans halarm⟩, Or.inl rfl, hb3⟩
  | aging =>
    have hrun2 := hrun1.tail (Step.skip _ hp (hb1.trans hflag))
    rw [List.append_assoc] at hrun2
    exact ⟨_, [.skip], _, hrun2, ⟨rfl, hb1.trans hflag, hb2.trans halarm⟩, Or.inr rfl, hb3⟩

/-- A switch at rest can execute a refresh: the alarm goes off, and an idle pass reaches the flag
test. -/
theorem run_refresh {s₀ s : Switch} {tr : List Label} (h : Run Step s₀ tr s) (hs : AtRest s) :
    ∃ s', Run Step s₀ (tr ++ [.sigalrm, .recv .error [], .refresh]) s' ∧ AtRest s' := by
  obtain ⟨hpc, hflag, halarm⟩ := hs
  obtain ⟨iter, hiter⟩ := GHashTable.exists_enumerates
    (s.handleAlarm.receive .error).2.learn.macTable
  have hrun1 := h.tail (Step.sigalrm s halarm)
  have hrun2 := hrun1.tail (Step.recv s.handleAlarm .error iter hpc hiter)
  have hrun3 := hrun2.tail (Step.refresh (s.handleAlarm.body .error iter).1 rfl rfl)
  rw [List.append_assoc, List.append_assoc] at hrun3
  exact ⟨_, hrun3, rfl, rfl, rfl⟩

/-- Every history of sightings and refreshes is the history of some run, whatever the buffer holds
at first. A history that ends with a sighting leaves the frame's source address in the buffer. -/
theorem exists_run_history (buf : EtherBuf) (addr : SockaddrIn)
    (h : List (AgingTable.Event Mac SockaddrIn)) :
    ∃ tr s, Run Step (Switch.init buf addr) tr s ∧ WholeFrames tr ∧ history tr = h ∧ AtRest s ∧
      ∀ h' m e, h = h' ++ [.learn m e] → etherShost s.etherData = m := by
  induction h using List.reverseRecOn with
  | nil =>
    exact ⟨[], Switch.init buf addr, Run.refl, by simp [WholeFrames], rfl, ⟨rfl, rfl, rfl⟩,
      by simp⟩
  | append_singleton h e ih =>
    obtain ⟨tr, s, hrun, hf, hh, hrest, -⟩ := ih
    cases e with
    | learn m sender =>
      obtain ⟨sent, t, s', hrun', hrest', ht, hbuf⟩ :=
        run_receive hrun hrest (.datagram sender (ethFrame broadcastMac m))
      refine ⟨_, s', hrun', ?_, ?_, hrest', ?_⟩
      · rw [wholeFrames_append]
        refine ⟨hf, fun a b c hm => ?_⟩
        rcases List.mem_cons.mp hm with heq | hm
        · simp only [Label.recv.injEq, Recv.datagram.injEq] at heq
          rw [heq.1.2, length_ethFrame]
        · rcases ht with rfl | rfl <;> simp at hm
      · rw [history_append, hh]
        rcases ht with rfl | rfl <;> simp [history, Label.events]
      · intro h' m' e' heq
        obtain ⟨-, hlast⟩ := List.append_inj' heq rfl
        simp only [List.cons.injEq, AgingTable.Event.learn.injEq, and_true] at hlast
        rw [hbuf, ← hlast.1]
        have hsrc := etherShost_recvfrom s.switchAddr sender s.etherData
          (show 12 ≤ (ethFrame broadcastMac m).length by simp)
        rw [srcMac_ethFrame] at hsrc
        exact hsrc
    | tick =>
      obtain ⟨s', hrun', hrest'⟩ := run_refresh hrun hrest
      refine ⟨_, s', hrun', ?_, ?_, hrest', by simp⟩
      · rw [wholeFrames_append]
        exact ⟨hf, by simp [WholeFrames]⟩
      · rw [history_append, hh]
        simp [history, Label.events]

theorem exists_switchRun_history (h : List (AgingTable.Event Mac SockaddrIn)) :
    ∃ tr s, SwitchRun tr s ∧ WholeFrames tr ∧ history tr = h ∧ AtRest s := by
  obtain ⟨tr, s, hrun, hf, hh, hrest, -⟩ := exists_run_history (fun _ => 0) ⟨0, 0⟩ h
  exact ⟨tr, s, ⟨_, _, hrun⟩, hf, hh, hrest⟩

/-- The table after a run of whole frames is the one determined by the history: a MAC address has a
record if and only if it was seen with fewer than 22 refreshes since, the record holds the endpoint
of the last sighting and the number of refreshes since, and there is one entry for each address. -/
theorem mac_table_determined {tr : List Label} {s : Switch} (h : SwitchRun tr s)
    (hf : WholeFrames tr) :
    (∀ m, macStr m ∈ s.macTable ↔ ∃ e n, Seen (history tr) m e n ∧ n < 22) ∧
    (∀ m r, s.macTable.lookup (macStr m) = some r →
      Seen (history tr) m r.cliAddr r.age.toNat ∧ r.age.toNat ≤ 21) ∧
    (∀ k ∈ s.macTable, ∃! m, macStr m = k) ∧ s.macTable.entries.keys.Nodup := by
  refine ⟨mem_macTable_iff h hf, fun m r hr => ?_, fun k hk => ?_, ?_⟩
  · obtain ⟨hs, hn⟩ := (lookup_iff_seen h hf m _ _).mp ⟨r, hr, rfl, rfl⟩
    exact ⟨hs, by omega⟩
  · obtain ⟨m, hm⟩ := keys_are_macs h k hk
    exact ⟨m, hm, fun m' hm' => macStr_injective (hm'.trans hm.symm)⟩
  · exact Multiset.nodup_keys.mpr s.macTable.nodupKeys

/-- A station heard once is still known 21 refreshes later. -/
theorem mac_table_determined_station : ∃ tr s,
    history tr = .learn (station 1) ⟨5001, 1⟩ :: List.replicate 21 .tick ∧
    macStr (station 1) ∈ s.macTable ∧ SwitchRun tr s := by
  obtain ⟨tr, s, hrun, hf, hh, -⟩ := exists_switchRun_history
    (.learn (station 1) ⟨5001, 1⟩ :: List.replicate 21 .tick)
  have hseen : Seen (history tr) (station 1) ⟨5001, 1⟩ 21 := by
    rw [hh]
    exact ⟨[], List.replicate 21 .tick, rfl, by simp, rfl⟩
  exact ⟨tr, s, hh, ((mac_table_determined hrun hf).1 (station 1)).mpr ⟨_, 21, hseen, by omega⟩,
    hrun⟩

end CDevHws.FinalProject
