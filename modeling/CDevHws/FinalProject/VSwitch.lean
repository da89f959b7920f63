import CDevHws.FinalProject.Ethernet
import CDevHws.Lib.AgingTable
import CDevHws.Lib.GHashTable
import CDevHws.Lib.Transition

/-!
# The virtual switch (`v_switch.c`)

One pass of `main`'s loop receives a datagram, learns the source address, forwards the frame, and
then ages the table if the alarm has gone off. The model cuts the pass in two: the body down to the
end of the forwarding, and the ageing at the bottom of the loop. `SIGALRM` may arrive between any
two steps while an alarm is pending.

glib's hash table is a finite map whose iteration order is left open, and `malloc` succeeds. Logging
and the CLI thread only read and are left out.
-/

namespace CDevHws.FinalProject

/-- `mac_record_t`. -/
structure MacRecord where
  /-- The endpoint the address was last seen at. -/
  cliAddr : SockaddrIn
  /-- The number of refreshes since then. -/
  age : UInt16
deriving DecidableEq, Repr

/-- The type of `mac_table`: records under the text of the MAC address. -/
abbrev MacTable := GHashTable Text MacRecord

/-- One entry, as `g_hash_table_iter_next` delivers it. -/
abbrev MacEntry := Σ _ : Text, MacRecord

/-- Where `main` is in its loop. -/
inductive Pc where
  /-- About to call `recvfrom`. -/
  | recvfrom
  /-- At `if (refresh_age_flag)`. -/
  | aging
deriving DecidableEq, Repr

/-- The state of `v_switch` between two steps of `main`. -/
structure Switch where
  /-- `v_switch.switch_addr`, overwritten by every `recvfrom`. -/
  switchAddr : SockaddrIn
  /-- `ether_data`. -/
  etherData : EtherBuf
  /-- `mac_table`. -/
  macTable : MacTable
  /-- `refresh_age_flag`. -/
  refreshAgeFlag : Bool
  /-- Whether an `alarm(1)` is pending. -/
  alarm : Bool
  /-- The next step of `main`. -/
  pc : Pc

/-- The state in which the loop is entered. The buffer is an uninitialised local variable. -/
def Switch.init (buf : EtherBuf) (addr : SockaddrIn) : Switch where
  switchAddr := addr
  etherData := buf
  macTable := ∅
  refreshAgeFlag := false
  alarm := true
  pc := .recvfrom

/-! ## One datagram -/

/-- MAC learning: the record of the source address is refreshed in place, or inserted. -/
def macLearning (t : MacTable) (ethSrc : Text) (addr : SockaddrIn) : MacTable :=
  match t.lookup ethSrc with
  | some macRecord =>
    let macRecord := { macRecord with age := 0 }
    t.insert ethSrc
      (if macRecord.cliAddr ≠ addr then { macRecord with cliAddr := addr } else macRecord)
  | none => t.insert ethSrc { cliAddr := addr, age := 0 }

/-- The loop over the table in the two flooding branches. -/
def flood (iter : List MacEntry) (ethSrc : Text) (frame : List UInt8) : List Send :=
  iter.filterMap fun e => if e.1 = ethSrc then none else some ⟨e.2.cliAddr, frame⟩

/-- Frame forwarding: the datagrams sent, or `none` where the code says `continue`. -/
def frameForwarding (t : MacTable) (iter : List MacEntry) (ethSrc ethDst : Text) (addr : SockaddrIn)
    (frame : List UInt8) : Option (List Send) :=
  match t.lookup ethDst with
  | some macRecord =>
    -- the destination is known to be where the frame came from
    if macRecord.cliAddr.sinPort = addr.sinPort then none
    else some [⟨macRecord.cliAddr, frame⟩]
  | none =>
    if ethDst = broadcastStr then some (flood iter ethSrc frame)
    else some (flood iter ethSrc frame)

/-- The call of `recvfrom` at the top of the loop, with its result. -/
def Switch.receive (s : Switch) (r : Recv) : ℤ × Switch :=
  let res := recvfrom s.switchAddr s.etherData r
  (res.1, { s with switchAddr := res.2.1, etherData := res.2.2 })

/-- The source address learned from the frame in the buffer. -/
def Switch.learn (s : Switch) : Switch :=
  { s with macTable := macLearning s.macTable (macStr (etherShost s.etherData)) s.switchAddr }

/-- The body of the loop down to the end of the forwarding: the next state and the datagrams sent.
`iter` is the order in which glib walks the table, should the frame be flooded. -/
def Switch.body (s : Switch) (r : Recv) (iter : List MacEntry) : Switch × List Send :=
  let etherDatasz := (s.receive r).1
  let s := (s.receive r).2
  if etherDatasz > 0 then
    let s := s.learn
    match frameForwarding s.macTable iter (macStr (etherShost s.etherData))
        (macStr (etherDhost s.etherData)) s.switchAddr (s.etherData.bytes etherDatasz.toNat) with
    | none => (s, [])
    | some sent => ({ s with pc := .aging }, sent)
  else ({ s with pc := .aging }, [])

/-! ## Ageing -/

/-- `handle_alarm`. -/
def Switch.handleAlarm (s : Switch) : Switch := { s with refreshAgeFlag := true, alarm := false }

/-- `process_mac_age`: whether the entry is to go, and the record it leaves. -/
def processMacAge (maxAge : ℤ) (_key : Text) (macRecord : MacRecord) : Bool × MacRecord :=
  if (macRecord.age.toNat : ℤ) > maxAge then (true, macRecord)
  else (false, { macRecord with age := macRecord.age + 1 })

/-- `refresh_age`. -/
def Switch.refreshAge (s : Switch) : Switch :=
  let maxAge := 20
  { s with
    macTable := s.macTable.foreachRemove (processMacAge maxAge)
    refreshAgeFlag := false
    alarm := true }

/-! ## The switch as a transition system -/

/-- What happens in one step. -/
inductive Label where
  /-- `recvfrom` yields `r`, and the body sends `sent`. -/
  | recv (r : Recv) (sent : List Send)
  /-- The flag is set and `refresh_age` is executed. -/
  | refresh
  /-- The flag is not set. -/
  | skip
  /-- `SIGALRM` is delivered. -/
  | sigalrm

/-- One step of the switch. -/
inductive Step : Switch → Label → Switch → Prop where
  /-- The body of the loop; a flooded frame meets the entries in an arbitrary order. -/
  | recv (s : Switch) (r : Recv) (iter : List MacEntry) (hpc : s.pc = .recvfrom)
      (hiter : GHashTable.Enumerates iter (s.receive r).2.learn.macTable) :
      Step s (.recv r (s.body r iter).2) (s.body r iter).1
  /-- `if (refresh_age_flag)`, taken. -/
  | refresh (s : Switch) (hpc : s.pc = .aging) (hflag : s.refreshAgeFlag = true) :
      Step s .refresh { s.refreshAge with pc := .recvfrom }
  /-- `if (refresh_age_flag)`, not taken. -/
  | skip (s : Switch) (hpc : s.pc = .aging) (hflag : s.refreshAgeFlag = false) :
      Step s .skip { s with pc := .recvfrom }
  /-- The pending alarm goes off. -/
  | sigalrm (s : Switch) (halarm : s.alarm = true) : Step s .sigalrm s.handleAlarm

/-- A run of the switch from the start of its loop. -/
def SwitchRun (tr : List Label) (s : Switch) : Prop :=
  ∃ buf addr, Transition.Run Step (Switch.init buf addr) tr s

/-- A state that some run reaches. -/
def Reachable (s : Switch) : Prop := ∃ tr, SwitchRun tr s

/-- In some run the switch, in state `s`, receives the datagram and sends `sent`. -/
def Handles (s : Switch) (sender : SockaddrIn) (data : List UInt8) (sent : List Send) : Prop :=
  Reachable s ∧ ∃ s', Step s (.recv (.datagram sender data) sent) s'

/-- Every datagram received in the trace is a frame with a whole Ethernet header. -/
def WholeFrames (tr : List Label) : Prop :=
  ∀ sender data sent, Label.recv (.datagram sender data) sent ∈ tr → 14 ≤ data.length

/-- What a step of whole frames means for the table: who was seen where, or that time passed. -/
def Label.events : Label → List (AgingTable.Event Mac SockaddrIn)
  | .recv (.datagram sender data) _ => [.learn (srcMac data) sender]
  | .refresh => [.tick]
  | _ => []

/-- The history of the table, for a trace of whole frames. -/
def history (tr : List Label) : List (AgingTable.Event Mac SockaddrIn) := tr.flatMap Label.events

end CDevHws.FinalProject
