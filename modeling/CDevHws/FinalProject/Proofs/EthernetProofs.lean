import CDevHws.FinalProject.Ethernet
import Mathlib.Tactic.IntervalCases

/-!
# Proofs: MAC texts and the receive buffer

The text of a MAC address determines the address, and after `recvfrom` the header fields of a whole
frame are those of the datagram, whatever the buffer held before.
-/

namespace CDevHws.FinalProject

/-! ## MAC texts -/

theorem digitChar_injective {m n : ℕ} (hm : m < 16) (hn : n < 16)
    (h : Nat.digitChar m = Nat.digitChar n) : m = n := by
  have hall : ∀ i j : Fin 16, Nat.digitChar i = Nat.digitChar j → i = j := by decide
  have hij := hall ⟨m, hm⟩ ⟨n, hn⟩ h
  exact congrArg Fin.val hij

theorem fmt02x_injective {a b : UInt8} (h : fmt02x a = fmt02x b) : a = b := by
  have ha := a.toNat_lt
  have hb := b.toNat_lt
  simp only [fmt02x, List.cons.injEq, and_true] at h
  have hq : a.toNat / 16 = b.toNat / 16 := digitChar_injective (by omega) (by omega) h.1
  have hr : a.toNat % 16 = b.toNat % 16 := digitChar_injective (by omega) (by omega) h.2
  exact UInt8.toNat_inj.mp (by omega)

theorem fmt02x_append_injective {a b : UInt8} {s t : Text} (h : fmt02x a ++ s = fmt02x b ++ t) :
    a = b ∧ s = t := by
  obtain ⟨h1, h2⟩ := List.append_inj h (by simp [fmt02x])
  exact ⟨fmt02x_injective h1, h2⟩

/-- The text keys of the table are injective: two addresses with the same text are the same. -/
theorem macStr_injective : Function.Injective macStr := by
  intro m n h
  unfold macStr at h
  obtain ⟨h0, h⟩ := fmt02x_append_injective h
  obtain ⟨h1, h⟩ := fmt02x_append_injective (List.cons.inj h).2
  obtain ⟨h2, h⟩ := fmt02x_append_injective (List.cons.inj h).2
  obtain ⟨h3, h⟩ := fmt02x_append_injective (List.cons.inj h).2
  obtain ⟨h4, h⟩ := fmt02x_append_injective (List.cons.inj h).2
  have h5 := fmt02x_injective (List.cons.inj h).2
  apply Vector.ext
  intro i hi
  interval_cases i
  · exact h0
  · exact h1
  · exact h2
  · exact h3
  · exact h4
  · exact h5

theorem macStr_inj {m n : Mac} : macStr m = macStr n ↔ m = n :=
  macStr_injective.eq_iff

/-! ## The receive buffer -/

theorem recvfrom_getD (addr sender : SockaddrIn) (buf : EtherBuf) {data : List UInt8}
    (i : Fin etherMaxLen) (h : i.val < data.length) :
    (recvfrom addr buf (.datagram sender data)).2.2 i = data.getD i 0 := by
  simp [recvfrom, h]

theorem recvfrom_stale (addr sender : SockaddrIn) (buf : EtherBuf) {data : List UInt8}
    (i : Fin etherMaxLen) (h : data.length ≤ i.val) :
    (recvfrom addr buf (.datagram sender data)).2.2 i = buf i := by
  have hn : ¬ i.val < data.length := by omega
  simp [recvfrom, hn]

theorem etherDhost_recvfrom (addr sender : SockaddrIn) (buf : EtherBuf) {data : List UInt8}
    (h : 6 ≤ data.length) :
    etherDhost (recvfrom addr buf (.datagram sender data)).2.2 = dstMac data := by
  apply Vector.ext
  intro i hi
  simp only [etherDhost, dstMac, Vector.getElem_ofFn]
  rw [recvfrom_getD _ _ _ _ (by simp only; omega)]

theorem etherShost_recvfrom (addr sender : SockaddrIn) (buf : EtherBuf) {data : List UInt8}
    (h : 12 ≤ data.length) :
    etherShost (recvfrom addr buf (.datagram sender data)).2.2 = srcMac data := by
  apply Vector.ext
  intro i hi
  simp only [etherShost, srcMac, Vector.getElem_ofFn]
  rw [recvfrom_getD _ _ _ _ (by simp only; omega)]

/-- The received bytes are those of the datagram, cut to the size of the buffer. -/
theorem bytes_recvfrom (addr sender : SockaddrIn) (buf : EtherBuf) (data : List UInt8) :
    ((recvfrom addr buf (.datagram sender data)).2.2).bytes (min data.length etherMaxLen) =
      data.take etherMaxLen := by
  apply List.ext_getElem
  · simp only [EtherBuf.bytes, List.length_ofFn, List.length_take]
    omega
  · intro i h1 h2
    have hi : i < data.length := by
      simp only [List.length_take] at h2
      omega
    simp only [EtherBuf.bytes, List.getElem_ofFn, List.getElem_take]
    simp [recvfrom, hi]

/-! ## Frames with given addresses -/

/-- A frame of header only, with the EtherType of IPv4. -/
def ethFrame (dst src : Mac) : List UInt8 := dst.toList ++ src.toList ++ [0x08, 0x00]

@[simp] theorem length_ethFrame (dst src : Mac) : (ethFrame dst src).length = 14 := by
  simp [ethFrame]

@[simp] theorem dstMac_ethFrame (dst src : Mac) : dstMac (ethFrame dst src) = dst := by
  apply Vector.ext
  intro i hi
  simp [dstMac, ethFrame, List.getElem?_append]

@[simp] theorem srcMac_ethFrame (dst src : Mac) : srcMac (ethFrame dst src) = src := by
  apply Vector.ext
  intro i hi
  simp [srcMac, ethFrame, List.getElem?_append]

/-- A locally administered address, for examples. -/
def station (i : UInt8) : Mac := #v[2, 0, 0, 0, 0, i]

@[simp] theorem station_inj {i j : UInt8} : station i = station j ↔ i = j := by
  simp [station]

@[simp] theorem station_ne_broadcastMac (i : UInt8) : station i ≠ broadcastMac := by
  intro h
  have h0 : (station i)[0] = broadcastMac[0] := by rw [h]
  cases h0

@[simp] theorem broadcastMac_ne_station (i : UInt8) : broadcastMac ≠ station i :=
  (station_ne_broadcastMac i).symm

end CDevHws.FinalProject
