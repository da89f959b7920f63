import CDevHws.Hw21.Proofs.Crc32Proofs

/-!
# Proofs: the checksum that is announced

The program prints a checksum with another polynomial, another preset and no final complement. Of
all files with the same bytes before the last four, exactly one has the same checksum either way.
-/

namespace CDevHws.Hw21

open Crc

/-- The columns of the map that finds the last four bytes. -/
def lastFourColumns : List UInt32 :=
  [
    0xDA7163D4, 0x93A42B19, 0x000EBA83, 0x275B99B7, 0x69F1DFDF, 0xF4A5530F, 0xE94AA61E, 0xF5D3A08D,
    0xCCE1ADAB, 0xBE85B7E7, 0x5A4D837F, 0xB49B06FE, 0x69360DFC, 0xD26C1BF8, 0x839EDB41, 0x073DB682,
    0x0E7B6D04, 0x3BB036B9, 0x77606D72, 0xEEC0DAE4, 0xDD81B5C8, 0x9C458721, 0x1FCDE2F3, 0x18DD2957,
    0x31BA52AE, 0x443249ED, 0xAF227F6B, 0x5E44FED6, 0x9BCF111D, 0x10D8CE8B, 0x06F771A7, 0x0DEEE34E
  ]

theorem isInverse_lastFourColumns : IsInverse castagnoli announced lastFourColumns where
  left := by decide +kernel
  right := by decide +kernel

/-- The four bytes that have to follow these ones. -/
def lastFour (head : List UInt8) : List UInt8 :=
  ending castagnoli announced lastFourColumns (register castagnoli 0 head)
    (register announced 0xFFFFFFFF head) 0xFFFFFFFF

theorem length_lastFour (head : List UInt8) : (lastFour head).length = 4 := length_bytes 4 _

/-- The checksum that is announced is printed. -/
def PrintsCrc32 (address : ℕ) (file : List UInt8) : Prop :=
  crcMmap (calculateCrc32c address) file true = .crc32 (crc32 file file.length)

/-- The two checksums of a file agree. -/
def Agree (file : List UInt8) : Prop :=
  register castagnoli 0 file = register announced 0xFFFFFFFF file ^^^ 0xFFFFFFFF

theorem printsCrc32_iff (address : ℕ) {file : List UInt8} (hlt : file.length < 2 ^ 32) :
    PrintsCrc32 address file ↔ Agree file := by
  unfold PrintsCrc32 Agree
  rw [crcMmap_eq (calculateCrc32c_computes address), crc32_eq, Output.crc32.injEq]
  unfold headRegister
  rw [Nat.mod_eq_of_lt hlt, singletableCrc32c_eq, List.take_length]

/-! ## Files of at least four bytes -/

theorem agree_append_iff (head : List UInt8) {tail : List UInt8} (h : tail.length = 4) :
    Agree (head ++ tail) ↔ tail = lastFour head := by
  unfold Agree
  rw [register_append, register_append]
  exact register_eq_iff isInverse_lastFourColumns h _ _ _

/-! ## Shorter files -/

/-- A short file can be filled up with `k` zeros in front: they leave one register at 0, and lead
the other one from some value to its preset. But the four bytes that belong to these values do not
begin with 0. -/
theorem exists_preset {k : ℕ} (hpos : 1 ≤ k) (hle : k ≤ 3) : ∃ preset,
    register announced preset (List.replicate k 0) = 0xFFFFFFFF ∧
      (ending castagnoli announced lastFourColumns 0 preset 0xFFFFFFFF).head? ≠ some 0 := by
  obtain rfl | rfl | rfl : k = 1 ∨ k = 2 ∨ k = 3 := by omega
  · exact ⟨0xF0958FD9, by decide +kernel, by decide +kernel⟩
  · exact ⟨0x9A1C9D90, by decide +kernel, by decide +kernel⟩
  · exact ⟨0xA32E2681, by decide +kernel, by decide +kernel⟩

/-- Nothing agrees on less than four bytes. -/
theorem not_agree_of_short {file : List UInt8} (hpos : 1 ≤ file.length) (hlt : file.length < 4) :
    ¬ Agree file := by
  intro hagree
  obtain ⟨preset, hpreset, hhead⟩ := exists_preset (k := 4 - file.length) (by omega) (by omega)
  have hlen : (List.replicate (4 - file.length) 0 ++ file).length = 4 := by
    rw [List.length_append, List.length_replicate]
    omega
  have hending : List.replicate (4 - file.length) 0 ++ file =
      ending castagnoli announced lastFourColumns 0 preset 0xFFFFFFFF := by
    rw [← register_eq_iff isInverse_lastFourColumns hlen, register_append, register_append,
      register_zeros, hpreset]
    exact hagree
  have hsucc : 4 - file.length = (3 - file.length) + 1 := by omega
  rw [← hending, hsucc, List.replicate_succ] at hhead
  exact hhead rfl

/-- The program prints the checksum that it announces if and only if the last four bytes of the file
are the ones that belong to the bytes before them. -/
theorem crc_mmap_announced_iff (address : ℕ) {file : List UInt8} (hne : file ≠ [])
    (hlt : file.length < 2 ^ 32) :
    PrintsCrc32 address file ↔ ∃ head, file = head ++ lastFour head := by
  rw [printsCrc32_iff address hlt]
  constructor
  · intro hagree
    have hlong : 4 ≤ file.length := by
      refine Nat.le_of_not_lt fun hshort => not_agree_of_short ?_ hshort hagree
      exact List.length_pos_iff.mpr hne
    have htail : (file.drop (file.length - 4)).length = 4 := by
      rw [List.length_drop]
      omega
    rw [← List.take_append_drop (file.length - 4) file, agree_append_iff _ htail] at hagree
    refine ⟨file.take (file.length - 4), ?_⟩
    rw [← hagree, List.take_append_drop]
  · rintro ⟨head, rfl⟩
    exact (agree_append_iff head (length_lastFour head)).mpr rfl

theorem crc_mmap_announced_four :
    ([189, 16, 76, 118] : List UInt8).length < 2 ^ 32 ∧ PrintsCrc32 0 [189, 16, 76, 118] := by
  have hlt : ([189, 16, 76, 118] : List UInt8).length < 2 ^ 32 := by decide
  exact ⟨hlt, (crc_mmap_announced_iff 0 (List.cons_ne_nil _ _) hlt).mpr ⟨[], by decide +kernel⟩⟩

/-- The checksum of the letter a is 0xe8b7be43. -/
theorem announced_missed : crc32 [97] 1 = 0xE8B7BE43 ∧
    crcMmap (calculateCrc32c 0) [97] true = .crc32 0x93AD1061 ∧ ¬ PrintsCrc32 0 [97] := by
  have hcrc32 : crc32 [97] 1 = 0xE8B7BE43 := by decide
  have hprinted : crcMmap (calculateCrc32c 0) [97] true = .crc32 0x93AD1061 := by decide
  refine ⟨hcrc32, hprinted, fun hprints => ?_⟩
  unfold PrintsCrc32 at hprints
  rw [hprinted, List.length_singleton, hcrc32] at hprints
  revert hprints
  decide

end CDevHws.Hw21
