import CDevHws.FinalProject.Ethernet
import CDevHws.Lib.Transition

/-!
# The virtual port (`vs_port.c`)

Two tasks share one `vs_port_t`: one carries frames from the TAP device to the switch, the other
datagrams from the socket to the TAP device. An iteration of either is one step here. The receiving
task hands the address of the switch to `recvfrom` as the place for the sender's address.
-/

namespace CDevHws.FinalProject

/-- `vs_port_t`, without the name of the interface. -/
structure VsPort where
  tapfd : ℤ
  sockfd : ℤ
  switchAddr : SockaddrIn
deriving DecidableEq, Repr

/-- `htons` on a little-endian machine. -/
def htons (port : ℕ) : UInt16 := UInt16.ofNat (port % 256 * 256 + port / 256 % 256)

/-- `vs_port_init`, given what `tap_alloc`, `socket` and `inet_pton` yield; `none` is the exit of
the program. -/
def vsPortInit (tapfd sockfd : ℤ) (sinAddr : Option UInt32) (serverPort : ℕ) : Option VsPort :=
  if tapfd < 0 then none
  else if sockfd < 0 then none
  else match sinAddr with
    | none => none
    | some sinAddr => some { tapfd, sockfd, switchAddr := ⟨htons serverPort, sinAddr⟩ }

/-- A system call by which a task passes data on. -/
inductive PortCall where
  /-- `sendto(fd, data, .., dest, ..)`. -/
  | sendto (fd : ℤ) (data : List UInt8) (dest : SockaddrIn)
  /-- `write(fd, data, ..)`. -/
  | write (fd : ℤ) (data : List UInt8)
deriving DecidableEq, Repr

/-- The shared port and the buffer of the receiving task. -/
structure PortState where
  port : VsPort
  etherData : EtherBuf

/-- One iteration of `send_task_func`, given what `read` finds on the TAP device. -/
def VsPort.sendTask (p : VsPort) (frame : Option (List UInt8)) : List PortCall :=
  match frame with
  | none => []
  | some frame =>
    let etherData := frame.take etherMaxLen
    if etherData.length > 0 then [.sendto p.sockfd etherData p.switchAddr] else []

/-- One iteration of `receive_task_func`. -/
def PortState.receiveTask (s : PortState) (r : Recv) : PortState × List PortCall :=
  let res := recvfrom s.port.switchAddr s.etherData r
  let s' : PortState :=
    { port := { s.port with switchAddr := res.2.1 }, etherData := res.2.2 }
  (s', if res.1 > 0 then [.write s.port.tapfd (res.2.2.bytes res.1.toNat)] else [])

/-- An iteration of one of the tasks, with the calls it makes. -/
inductive PortLabel where
  /-- The sending task, and what `read` found. -/
  | send (frame : Option (List UInt8)) (calls : List PortCall)
  /-- The receiving task, and what `recvfrom` found. -/
  | receive (r : Recv) (calls : List PortCall)

/-- The two tasks, interleaved. -/
inductive PortStep : PortState → PortLabel → PortState → Prop where
  | send (s : PortState) (frame : Option (List UInt8)) :
      PortStep s (.send frame (s.port.sendTask frame)) s
  | receive (s : PortState) (r : Recv) :
      PortStep s (.receive r (s.receiveTask r).2) (s.receiveTask r).1

/-- The sender of the last datagram in a trace. -/
def lastSender (tr : List PortLabel) : Option SockaddrIn :=
  tr.foldl (fun last l => match l with
    | .receive (.datagram sender _) _ => some sender
    | _ => last) none

end CDevHws.FinalProject
