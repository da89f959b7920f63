import CDevHws.FinalProject.VSwitch
import CDevHws.FinalProject.VsPort
import Mathlib.Logic.Function.Basic

/-!
# The virtual network

One switch and any number of ports, each with a TAP device and a UDP socket of its own. UDP promises
little: a datagram that has been sent may arrive at any time, out of order, more than once or never.
The sockets hear nothing but the switch and the ports of this network.
-/

namespace CDevHws.FinalProject

variable {ι : Type}

/-- The addresses of the sockets. -/
structure Addresses (ι : Type) where
  /-- The arguments that `v_switch` and every `vs_port` are started with. -/
  serverPort : ℕ
  serverIp : UInt32
  /-- The address that the kernel has given to the socket of each port. -/
  port : ι → SockaddrIn
  port_injective : Function.Injective port
  port_ne_server : ∀ i, port i ≠ ⟨htons serverPort, serverIp⟩

/-- The address of the switch. -/
def Addresses.server (a : Addresses ι) : SockaddrIn := ⟨htons a.serverPort, a.serverIp⟩

/-- A datagram that has been sent. -/
structure Datagram where
  source : SockaddrIn
  dest : SockaddrIn
  data : List UInt8

/-- The state of the network. -/
structure Network (ι : Type) where
  switch : Switch
  port : ι → PortState
  /-- All datagrams sent so far. Each of them may still arrive. -/
  sent : List Datagram

/-- `recvfrom` on the socket with address `dest` can have this result. -/
def Available (sent : List Datagram) (dest : SockaddrIn) : Recv → Prop
  | .error => True
  | .datagram sender data => ⟨sender, dest, data⟩ ∈ sent

/-- The datagram that a call of a port sends. -/
def PortCall.datagram (source : SockaddrIn) : PortCall → Option Datagram
  | .sendto _ data dest => some ⟨source, dest, data⟩
  | .write .. => none

/-- The datagrams that a step of the switch sends. -/
def Label.datagrams (source : SockaddrIn) : Label → List Datagram
  | .recv _ sent => sent.map fun x => ⟨source, x.dest, x.data⟩
  | _ => []

/-- The result of `recvfrom` in a step of the switch. -/
def Label.received : Label → Recv
  | .recv r _ => r
  | _ => .error

/-- What happens in one step. -/
inductive NetLabel (ι : Type) where
  /-- The sending task of a port, what it read from the TAP device, and its calls. -/
  | send (i : ι) (frame : Option (List UInt8)) (calls : List PortCall)
  /-- The receiving task of a port, what it received, and its calls. -/
  | receive (i : ι) (r : Recv) (calls : List PortCall)
  /-- A step of the switch. -/
  | switch (l : Label)

/-- One step of the network: the programs take turns in any order. -/
inductive NetStep [DecidableEq ι] (a : Addresses ι) :
    Network ι → NetLabel ι → Network ι → Prop where
  | send {n : Network ι} {i : ι} {frame : Option (List UInt8)} {calls : List PortCall}
      {s' : PortState} (h : PortStep (n.port i) (.send frame calls) s') :
      NetStep a n (.send i frame calls) { n with
        port := Function.update n.port i s'
        sent := n.sent ++ calls.filterMap (PortCall.datagram (a.port i)) }
  | receive {n : Network ι} {i : ι} {r : Recv} {calls : List PortCall} {s' : PortState}
      (h : PortStep (n.port i) (.receive r calls) s') (hr : Available n.sent (a.port i) r) :
      NetStep a n (.receive i r calls) { n with
        port := Function.update n.port i s'
        sent := n.sent ++ calls.filterMap (PortCall.datagram (a.port i)) }
  | switch {n : Network ι} {l : Label} {s' : Switch} (h : Step n.switch l s')
      (hr : Available n.sent a.server l.received) :
      NetStep a n (.switch l) { n with
        switch := s'
        sent := n.sent ++ l.datagrams a.server }

/-- The network when the switch and the ports have been started and nothing has been sent. -/
structure Network.Start (a : Addresses ι) (n : Network ι) : Prop where
  switch : ∃ buf, n.switch = Switch.init buf a.server
  port : ∀ i, ∃ tapfd sockfd,
    vsPortInit tapfd sockfd (some a.serverIp) a.serverPort = some (n.port i).port
  sent : n.sent = []

/-- A run of the network from its start. -/
def NetRun [DecidableEq ι] (a : Addresses ι) (tr : List (NetLabel ι)) (n : Network ι) : Prop :=
  ∃ n₀ : Network ι, n₀.Start a ∧ Transition.Run (NetStep a) n₀ tr n

/-- The steps of the switch in a trace of the network. -/
def switchTrace (tr : List (NetLabel ι)) : List Label :=
  tr.filterMap fun l => match l with
    | .switch l => some l
    | _ => none

/-- A port has read the frame from its TAP device. -/
def Entered (tr : List (NetLabel ι)) (i : ι) (frame : List UInt8) : Prop :=
  ∃ calls, .send i (some frame) calls ∈ tr

/-- The kernel delivers no frames without a whole Ethernet header. -/
def WholeEntered (tr : List (NetLabel ι)) : Prop :=
  ∀ i frame, Entered tr i frame → 14 ≤ frame.length

end CDevHws.FinalProject
