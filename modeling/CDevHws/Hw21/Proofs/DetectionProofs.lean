import CDevHws.Hw21.Proofs.Crc32Proofs
import CDevHws.Lib.CrcDetection

/-!
# Proofs: what the program detects

Files of the same length that differ within four consecutive bytes have different checksums. A file
with four bytes at its end has the checksum 0 if and only if they are the checksum of the rest.
-/

namespace CDevHws.Hw21

open Crc

theorem castagnoli_highest : 2 ^ 31 ≤ castagnoli.toNat := by
  decide

/-- What is printed for a file whose size is an `unsigned int`. -/
theorem crcMmap_register (address : ℕ) {file : List UInt8} (hlt : file.length < 2 ^ 32) :
    crcMmap (calculateCrc32c address) file true = .crc32 (register castagnoli 0 file) := by
  rw [crcMmap_eq (calculateCrc32c_computes address)]
  unfold headRegister
  rw [Nat.mod_eq_of_lt hlt, singletableCrc32c_eq, List.take_length]

/-- A change within four consecutive bytes changes the checksum, wherever they are and wherever the
files are mapped. -/
theorem crc_mmap_detects_change (address address' : ℕ) {head change change' tail : List UInt8}
    (hlen : change'.length = change.length) (hfour : change.length ≤ 4)
    (hlt : (head ++ change ++ tail).length < 2 ^ 32) (hne : change ≠ change') :
    crcMmap (calculateCrc32c address) (head ++ change ++ tail) true ≠
      crcMmap (calculateCrc32c address') (head ++ change' ++ tail) true := by
  have hlt' : (head ++ change' ++ tail).length < 2 ^ 32 := by
    rw [List.length_append, List.length_append] at hlt ⊢
    omega
  rw [crcMmap_register address hlt, crcMmap_register address' hlt', Ne, Output.crc32.injEq,
    register_append, register_append, register_append, register_append]
  intro heq
  exact register_ne castagnoli_highest _ hlen hfour hne
    (register_injective castagnoli_highest tail heq)

theorem crc_mmap_detects_change_middle :
    crcMmap (calculateCrc32c 0) [97, 98, 100] true ≠
      crcMmap (calculateCrc32c 3) [97, 99, 100] true :=
  @crc_mmap_detects_change 0 3 [97] [98] [99] [100] rfl (by decide) (by decide) (by decide)

/-- The four bytes at the end of a file bring its checksum to 0 if and only if they are the checksum
of the bytes before them, the lowest byte first. -/
theorem crc_mmap_zero_iff (address : ℕ) {head tail : List UInt8} (htail : tail.length = 4)
    (hlt : (head ++ tail).length < 2 ^ 32) :
    crcMmap (calculateCrc32c address) (head ++ tail) true = .crc32 0 ↔
      ∃ value, crcMmap (calculateCrc32c address) head true = .crc32 value ∧
        tail = bytes 4 value := by
  have hhead : head.length < 2 ^ 32 := by
    rw [List.length_append] at hlt
    omega
  rw [crcMmap_register address hlt, crcMmap_register address hhead, Output.crc32.injEq,
    register_append, register_eq_zero_iff castagnoli_highest _ htail]
  constructor
  · intro heq
    exact ⟨_, rfl, heq⟩
  · rintro ⟨value, hvalue, heq⟩
    rw [heq, Output.crc32.inj hvalue]

theorem crc_mmap_zero_iff_one :
    crcMmap (calculateCrc32c 0) [97, 98, 99, 100, 101] true = .crc32 0 ↔
      ∃ value, crcMmap (calculateCrc32c 0) [97] true = .crc32 value ∧
        [98, 99, 100, 101] = bytes 4 value :=
  @crc_mmap_zero_iff 0 [97] [98, 99, 100, 101] rfl (by decide)

end CDevHws.Hw21
