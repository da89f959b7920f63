import CDevHws.Hw21.CrcMmap

/-!
# Proofs: how much of the file is checked

The size of the file is reduced to 32 bits on its way to `calculate_crc32c`, so the bytes after the
first `size % 2 ^ 32` ones are not looked at. The checksum is that of the whole file if and only if
they would lead the register back to where it is.
-/

namespace CDevHws.Hw21

/-- What `calculate_crc32c` computes: the register after the first `length` bytes of the buffer. -/
def Computes (calculateCrc32c : UInt32 → List UInt8 → UInt32 → UInt32) : Prop :=
  ∀ crc buffer (length : UInt32), length.toNat ≤ buffer.length →
    calculateCrc32c crc buffer length = singletableCrc32c crc buffer length.toNat

/-- The checksum of the whole file is printed. -/
def PrintsWhole (calculateCrc32c : UInt32 → List UInt8 → UInt32 → UInt32) (file : List UInt8) :
    Prop :=
  crcMmap calculateCrc32c file true = .crc32 (singletableCrc32c 0 file file.length)

/-- The register after the part of the file that is looked at. -/
def headRegister (file : List UInt8) : UInt32 := singletableCrc32c 0 file (file.length % 2 ^ 32)

section computes

variable {calculateCrc32c : UInt32 → List UInt8 → UInt32 → UInt32}
  (hcalc : Computes calculateCrc32c)
include hcalc

theorem crcMmap_eq (file : List UInt8) :
    crcMmap calculateCrc32c file true = .crc32 (headRegister file) := by
  have hlen : (UInt32.ofNat file.length).toNat = file.length % 2 ^ 32 := UInt32.toNat_ofNat'
  have hle : (UInt32.ofNat file.length).toNat ≤ file.length := by
    rw [hlen]
    exact Nat.mod_le _ _
  unfold crcMmap
  rw [if_pos rfl, hcalc 0 file _ hle, hlen]
  rfl

theorem printsWhole_iff (file : List UInt8) : PrintsWhole calculateCrc32c file ↔
    (file.drop (file.length % 2 ^ 32)).foldl tableStep (headRegister file) = headRegister file := by
  have hwhole : singletableCrc32c 0 file file.length =
      (file.drop (file.length % 2 ^ 32)).foldl tableStep (headRegister file) := by
    unfold headRegister singletableCrc32c
    rw [← List.foldl_append, List.take_append_drop, List.take_length]
  unfold PrintsWhole
  rw [crcMmap_eq hcalc, hwhole, Output.crc32.injEq, eq_comm]

end computes

/-! ## A byte that is not looked at -/

theorem foldl_tableStep_zeros (n : ℕ) : (List.replicate n 0).foldl tableStep 0 = 0 := by
  induction n with
  | zero => rfl
  | succ n ih =>
    rw [List.replicate_succ, List.foldl_cons]
    exact ih

/-- Zeros and a one at the end. -/
def lastOne (n : ℕ) : List UInt8 := List.replicate (n - 1) 0 ++ [1]

theorem length_lastOne {n : ℕ} (hn : 1 ≤ n) : (lastOne n).length = n := by
  unfold lastOne
  rw [List.length_append, List.length_replicate, List.length_singleton]
  omega

theorem singletable_lastOne (n : ℕ) :
    singletableCrc32c 0 (lastOne n) (lastOne n).length = 0xF26B8303 := by
  unfold singletableCrc32c lastOne
  rw [List.take_length, List.foldl_append, foldl_tableStep_zeros]
  rfl

/-- From `2 ^ 32` bytes on, the last byte is not looked at. -/
theorem headRegister_lastOne {n : ℕ} (hn : 2 ^ 32 ≤ n) : headRegister (lastOne n) = 0 := by
  have hlen := length_lastOne (n := n) (by omega)
  have hmod : n % 2 ^ 32 ≤ n - 1 := by
    have hlt := Nat.mod_lt n (Nat.two_pow_pos 32)
    omega
  unfold headRegister singletableCrc32c
  rw [hlen]
  unfold lastOne
  rw [List.take_append_of_le_length (by rw [List.length_replicate]; exact hmod),
    List.take_replicate]
  exact foldl_tableStep_zeros _

/-- For every file, the checksum of the whole file is printed if and only if the file is shorter
than `2 ^ 32` bytes or the bytes after the first `size % 2 ^ 32` ones lead the register back to
where it is. For every size, this is so for all files of the size if and only if it is less than
`2 ^ 32`. -/
theorem whole_checksum_iff {calculateCrc32c : UInt32 → List UInt8 → UInt32 → UInt32}
    (hcalc : Computes calculateCrc32c) :
    (∀ file : List UInt8, PrintsWhole calculateCrc32c file ↔
      file.length < 2 ^ 32 ∨
        (file.drop (file.length % 2 ^ 32)).foldl tableStep (headRegister file) =
          headRegister file) ∧
    ∀ size ≥ 1, (∀ file : List UInt8, file.length = size → PrintsWhole calculateCrc32c file) ↔
      size < 2 ^ 32 := by
  have hshort : ∀ file : List UInt8, file.length < 2 ^ 32 → PrintsWhole calculateCrc32c file := by
    intro file hlt
    rw [printsWhole_iff hcalc, Nat.mod_eq_of_lt hlt, List.drop_length]
    rfl
  constructor
  · intro file
    constructor
    · intro hwhole
      exact Or.inr ((printsWhole_iff hcalc file).mp hwhole)
    · rintro (hlt | hback)
      · exact hshort file hlt
      · exact (printsWhole_iff hcalc file).mpr hback
  · intro size hsize
    constructor
    · intro hall
      apply Nat.lt_of_not_le
      intro hlarge
      have hprints := hall (lastOne size) (length_lastOne hsize)
      unfold PrintsWhole at hprints
      rw [crcMmap_eq hcalc, headRegister_lastOne hlarge, singletable_lastOne] at hprints
      cases hprints
    · intro hlt file hlen
      exact hshort file (hlen ▸ hlt)

/-- `calculate_crc32c` by one table. -/
def oneTable (crc : UInt32) (buffer : List UInt8) (length : UInt32) : UInt32 :=
  singletableCrc32c crc buffer length.toNat

theorem oneTable_computes : Computes oneTable := fun _ _ _ _ => rfl

theorem whole_checksum_a : PrintsWhole oneTable [97] ∧
    ∀ file : List UInt8, file.length = 1 → PrintsWhole oneTable file := by
  obtain ⟨hfile, hsize⟩ := whole_checksum_iff oneTable_computes
  exact ⟨(hfile [97]).mpr (Or.inl (by decide)), (hsize 1 (Nat.le_refl 1)).mpr (by decide)⟩

/-- A file of 4 GiB, all zeros but for the last byte: the checksum of nothing is printed. -/
theorem whole_checksum_missed : (lastOne (2 ^ 32)).length = 2 ^ 32 ∧
    crcMmap oneTable (lastOne (2 ^ 32)) true = .crc32 0 ∧
    ¬ PrintsWhole oneTable (lastOne (2 ^ 32)) := by
  have hprinted : crcMmap oneTable (lastOne (2 ^ 32)) true = .crc32 0 := by
    rw [crcMmap_eq oneTable_computes, headRegister_lastOne (Nat.le_refl _)]
  refine ⟨length_lastOne Nat.one_le_two_pow, hprinted, fun hwhole => ?_⟩
  unfold PrintsWhole at hwhole
  rw [hprinted, singletable_lastOne] at hwhole
  cases hwhole

end CDevHws.Hw21
