import Mathlib.Data.Int.Notation
import Mathlib.Data.List.Basic

/-!
# Frames, MAC addresses and UDP endpoints

The data that `v_switch.c` and `vs_port.c` share: the socket address a datagram comes from or goes
to, the receive buffer, the two addresses of the Ethernet header, and the text form of a MAC address
that `v_switch` uses as the key of its table.
-/

namespace CDevHws.FinalProject

/-- `struct sockaddr_in`, as far as two addresses can differ on an `AF_INET` socket: `recvfrom`
always writes the family `AF_INET` and zeroes the padding. -/
structure SockaddrIn where
  /-- The UDP port, in network byte order. -/
  sinPort : UInt16
  /-- The IPv4 address, in network byte order. -/
  sinAddr : UInt32
deriving DecidableEq, Repr

/-- `ETHER_MAX_LEN`, the size of the receive buffers. -/
abbrev etherMaxLen : ℕ := 1518

/-- `char ether_data[ETHER_MAX_LEN]`. -/
abbrev EtherBuf := Fin etherMaxLen → UInt8

/-- The first `n` bytes of a buffer. -/
def EtherBuf.bytes (b : EtherBuf) (n : ℕ) : List UInt8 :=
  List.ofFn fun i : Fin (min n etherMaxLen) => b ⟨i, by omega⟩

/-- What a call of `recvfrom` finds on the socket. -/
inductive Recv where
  /-- Nothing to read, or an error. -/
  | error
  /-- A datagram, with the address of its sender. -/
  | datagram (sender : SockaddrIn) (data : List UInt8)

/-- `recvfrom(sockfd, ether_data, sizeof(ether_data), 0, &addr, &len)`: the result, and what is left
in the address and in the buffer. Bytes beyond the buffer are dropped; bytes of the buffer beyond
the datagram stay as they were. -/
def recvfrom (addr : SockaddrIn) (buf : EtherBuf) : Recv → ℤ × SockaddrIn × EtherBuf
  | .error => (-1, addr, buf)
  | .datagram sender data =>
    (min data.length etherMaxLen, sender,
      fun i => if h : i.val < data.length then data[i.val] else buf i)

/-- A datagram handed to `sendto`. -/
structure Send where
  /-- The destination. -/
  dest : SockaddrIn
  /-- The bytes sent. -/
  data : List UInt8
deriving DecidableEq, Repr

/-! ## MAC addresses -/

/-- The six bytes of a MAC address. -/
abbrev Mac := Vector UInt8 6

/-- The header field `ether_dhost` of the frame in the buffer. -/
def etherDhost (b : EtherBuf) : Mac := Vector.ofFn fun i => b ⟨i, by unfold etherMaxLen; omega⟩

/-- The header field `ether_shost` of the frame in the buffer. -/
def etherShost (b : EtherBuf) : Mac := Vector.ofFn fun i => b ⟨6 + i, by unfold etherMaxLen; omega⟩

/-- The destination address of a frame of at least 6 bytes. -/
def dstMac (data : List UInt8) : Mac := Vector.ofFn fun i => data.getD i 0

/-- The source address of a frame of at least 12 bytes. -/
def srcMac (data : List UInt8) : Mac := Vector.ofFn fun i => data.getD (6 + i) 0

/-- A text, the NUL that ends it left out. -/
abbrev Text := List Char

/-- One byte under `%02x`. -/
def fmt02x (b : UInt8) : Text := [Nat.digitChar (b.toNat / 16), Nat.digitChar (b.toNat % 16)]

/-- `snprintf(.., MAC_STR_LEN, "%02x:%02x:%02x:%02x:%02x:%02x", ..)`: 17 characters and a NUL, which
is what `MAC_STR_LEN` leaves room for. -/
def macStr (m : Mac) : Text :=
  fmt02x m[0] ++ ':' :: (fmt02x m[1] ++ ':' :: (fmt02x m[2] ++ ':' ::
    (fmt02x m[3] ++ ':' :: (fmt02x m[4] ++ ':' :: fmt02x m[5]))))

/-- The text `"ff:ff:ff:ff:ff:ff"`. -/
def broadcastStr : Text :=
  ['f', 'f', ':', 'f', 'f', ':', 'f', 'f', ':', 'f', 'f', ':', 'f', 'f', ':', 'f', 'f']

/-- The broadcast address. -/
def broadcastMac : Mac := Vector.replicate 6 0xff

end CDevHws.FinalProject
