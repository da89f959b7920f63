import CDevHws.Hw21.Crc32
import CDevHws.Hw21.Proofs.CrcMmapProofs
import CDevHws.Lib.Crc

/-!
# Proofs: eight bytes at once

The tables hold the bytes shifted 8, 16, ..., 64 times. So the function with eight tables computes
what the loop with one table does, wherever the buffer is.
-/

namespace CDevHws.Hw21

open Crc

/-- The polynomial of `crc32Table` and of the eight tables. -/
abbrev castagnoli : UInt32 := 0x82F63B78

/-- The polynomial of `crc32_tab`. -/
abbrev announced : UInt32 := 0xEDB88320

/-! ## The tables -/

/-- The tables for eight bytes, the one for the last byte first. -/
def eightTables : List (List UInt32) :=
  [sctpCrcTableil8O32, sctpCrcTableil8O40, sctpCrcTableil8O48, sctpCrcTableil8O56,
    sctpCrcTableil8O64, sctpCrcTableil8O72, sctpCrcTableil8O80, sctpCrcTableil8O88]

/-- The first tables hold the bytes shifted eight times, and each other table is the one before it
shifted eight times more. -/
theorem tables_shifted :
    IsTable announced 8 crc32Tab ∧ IsTable castagnoli 8 crc32Table ∧
      IsTable castagnoli 8 sctpCrcTableil8O32 ∧
      eightTables.tail = eightTables.dropLast.map (List.map (shifts castagnoli 8)) := by
  unfold IsTable
  decide +kernel

theorem isTable_crc32Tab : IsTable announced 8 crc32Tab := tables_shifted.1

theorem isTable_crc32Table : IsTable castagnoli 8 crc32Table := tables_shifted.2.1

theorem isTable_eight {i : ℕ} {table : List UInt32} (h : eightTables[i]? = some table) :
    IsTable castagnoli (8 * (i + 1)) table := by
  obtain ⟨-, -, hfirst, hnext⟩ := tables_shifted
  induction i generalizing table with
  | zero => exact Option.some.inj h ▸ hfirst
  | succ i ih =>
    rw [← List.getElem?_tail, hnext, List.getElem?_map] at h
    obtain ⟨before, hbefore, rfl⟩ := Option.map_eq_some_iff.mp h
    rw [List.getElem?_dropLast] at hbefore
    split at hbefore
    · exact (ih hbefore).next rfl
    · cases hbefore

/-! ## One byte -/

theorem crc32Step_eq : crc32Step = feed announced := lookup_eq_feed isTable_crc32Tab

theorem tableStep_eq : tableStep = feed castagnoli := lookup_eq_feed isTable_crc32Table

theorem sb8Byte_eq : sb8Byte = feed castagnoli := lookup_eq_feed (@isTable_eight 0 _ rfl)

theorem singletableCrc32c_eq (crc : UInt32) (buf : List UInt8) (size : ℕ) :
    singletableCrc32c crc buf size = register castagnoli crc (buf.take size) := by
  unfold singletableCrc32c
  rw [tableStep_eq]
  rfl

theorem crc32_eq (buf : List UInt8) (size : ℕ) :
    crc32 buf size = register announced 0xFFFFFFFF (buf.take size) ^^^ 0xFFFFFFFF := by
  unfold crc32
  rw [crc32Step_eq]
  rfl

/-! ## Eight bytes -/

/-- The first four bytes are added at their places in the register. -/
theorem xor_word (crc : UInt32) (p0 p1 p2 p3 : UInt8) :
    crc ^^^ p0.toUInt32 ^^^ (p1.toUInt32 <<< 8) ^^^ (p2.toUInt32 <<< 16) ^^^ (p3.toUInt32 <<< 24) =
      crc ^^^ word [p0, p1, p2, p3] := by
  have htwice : ∀ x : UInt32, (x <<< 8) <<< 8 = x <<< 16 := by
    intro x
    rw [← UInt32.shiftLeft_add_of_toNat_lt (by decide)]
    rfl
  have hthrice : ∀ x : UInt32, (x <<< 16) <<< 8 = x <<< 24 := by
    intro x
    rw [← UInt32.shiftLeft_add_of_toNat_lt (by decide)]
    rfl
  have hword : word [p0, p1, p2, p3] = p0.toUInt32 ^^^
      ((p1.toUInt32 ^^^ ((p2.toUInt32 ^^^ (p3.toUInt32 <<< 8)) <<< 8)) <<< 8) := by
    simp only [word, UInt32.zero_shiftLeft, UInt32.xor_zero]
  rw [hword]
  simp only [UInt32.shiftLeft_xor, htwice, hthrice, UInt32.xor_assoc]

/-- The last four bytes have tables of their own. -/
theorem shifts_word (p4 p5 p6 p7 : UInt8) :
    shifts castagnoli 32 (word [p4, p5, p6, p7]) =
      shifts castagnoli 32 p4.toUInt32 ^^^ shifts castagnoli 24 p5.toUInt32 ^^^
      shifts castagnoli 16 p6.toUInt32 ^^^ shifts castagnoli 8 p7.toUInt32 := by
  have h3 : [p5, p6, p7].length ≤ 3 := Nat.le_refl 3
  have h2 : [p6, p7].length ≤ 3 := Nat.le_succ 2
  have h1 : [p7].length ≤ 3 := Nat.le_add_left 1 2
  have h0 : ([] : List UInt8).length ≤ 3 := Nat.zero_le 3
  rw [shifts_word_cons castagnoli 24 p4 h3, shifts_word_cons castagnoli 16 p5 h2,
    shifts_word_cons castagnoli 8 p6 h1, shifts_word_cons castagnoli 0 p7 h0]
  change _ ^^^ (_ ^^^ (_ ^^^ (_ ^^^ 0))) = _
  rw [UInt32.xor_zero, UInt32.xor_assoc, UInt32.xor_assoc]

theorem sb8Word_eq (crc : UInt32) (p0 p1 p2 p3 p4 p5 p6 p7 : UInt8) :
    sb8Word crc p0 p1 p2 p3 p4 p5 p6 p7 =
      register castagnoli crc [p0, p1, p2, p3, p4, p5, p6, p7] := by
  have hfirst : register castagnoli crc [p0, p1, p2, p3] =
      shifts castagnoli 32 (crc ^^^ word [p0, p1, p2, p3]) :=
    register_eq_shifts castagnoli crc (Nat.le_refl 4)
  have hlast : ∀ x, register castagnoli x [p4, p5, p6, p7] =
      shifts castagnoli 32 (x ^^^ word [p4, p5, p6, p7]) :=
    fun x => register_eq_shifts castagnoli x (Nat.le_refl 4)
  have hall : register castagnoli crc [p0, p1, p2, p3, p4, p5, p6, p7] =
      shifts castagnoli (32 + 32) (crc ^^^ word [p0, p1, p2, p3]) ^^^
        shifts castagnoli 32 (word [p4, p5, p6, p7]) := by
    change register castagnoli crc ([p0, p1, p2, p3] ++ [p4, p5, p6, p7]) = _
    rw [register_append, hfirst, hlast, linear_shifts, shifts_add]
  have h32 : IsTable castagnoli 8 sctpCrcTableil8O32 := @isTable_eight 0 _ rfl
  have h40 : IsTable castagnoli 16 sctpCrcTableil8O40 := @isTable_eight 1 _ rfl
  have h48 : IsTable castagnoli 24 sctpCrcTableil8O48 := @isTable_eight 2 _ rfl
  have h56 : IsTable castagnoli 32 sctpCrcTableil8O56 := @isTable_eight 3 _ rfl
  have h64 : IsTable castagnoli 40 sctpCrcTableil8O64 := @isTable_eight 4 _ rfl
  have h72 : IsTable castagnoli 48 sctpCrcTableil8O72 := @isTable_eight 5 _ rfl
  have h80 : IsTable castagnoli 56 sctpCrcTableil8O80 := @isTable_eight 6 _ rfl
  have h88 : IsTable castagnoli 64 sctpCrcTableil8O88 := @isTable_eight 7 _ rfl
  rw [hall, shifts_bytes, shifts_word, ← xor_word]
  unfold sb8Word
  dsimp only
  rw [h88.get, h80.get, h72.get, h64.get, h56.get_byte, h48.get_byte, h40.get_byte, h32.get_byte]
  simp only [UInt32.xor_assoc]

theorem sb8Loop_eq (n : ℕ) (crc : UInt32) {buf : List UInt8} (h : 8 * n ≤ buf.length) :
    sb8Loop n crc buf = register castagnoli crc (buf.take (8 * n)) := by
  induction n generalizing crc buf with
  | zero => rfl
  | succ n ih =>
    match buf, h with
    | p0 :: p1 :: p2 :: p3 :: p4 :: p5 :: p6 :: p7 :: rest, h =>
      simp only [List.length_cons] at h
      have hsplit : (p0 :: p1 :: p2 :: p3 :: p4 :: p5 :: p6 :: p7 :: rest).take (8 * (n + 1)) =
          [p0, p1, p2, p3, p4, p5, p6, p7] ++ rest.take (8 * n) := by
        rw [Nat.mul_succ]
        rfl
      rw [hsplit, register_append, ← sb8Word_eq]
      exact ih _ (by omega)

/-! ## The whole buffer -/

theorem crc32cSb864Bit_eq (crc : UInt32) {pBuf : List UInt8} {length initBytes : UInt32}
    (hinit : initBytes.toNat ≤ length.toNat) (hlen : length.toNat ≤ pBuf.length) :
    crc32cSb864Bit crc pBuf length initBytes =
      register castagnoli crc (pBuf.take length.toNat) := by
  have hrest : (length - initBytes).toNat = length.toNat - initBytes.toNat :=
    UInt32.toNat_sub_of_le length initBytes hinit
  have hlt := length.toNat_lt
  generalize hn : (length.toNat - initBytes.toNat) / 8 = n
  have hrunning : ((length - initBytes) / 8 * 8).toNat = 8 * n := by
    rw [UInt32.toNat_mul, UInt32.toNat_div, hrest]
    change (length.toNat - initBytes.toNat) / 8 * 8 % 2 ^ 32 = _
    omega
  have hrounds : ((length - initBytes) / 8 * 8 / 8).toNat = n := by
    rw [UInt32.toNat_div, hrunning]
    exact Nat.mul_div_cancel_left n (by omega)
  have hend : (length - initBytes - (length - initBytes) / 8 * 8).toNat =
      length.toNat - initBytes.toNat - 8 * n := by
    rw [UInt32.toNat_sub_of_le, hrest, hrunning]
    rw [UInt32.le_iff_toNat_le, hrest, hrunning]
    omega
  have hsplit : pBuf.take length.toNat = pBuf.take initBytes.toNat ++
      ((pBuf.drop initBytes.toNat).take (8 * n) ++
        ((pBuf.drop initBytes.toNat).drop (8 * n)).take
          (length.toNat - initBytes.toNat - 8 * n)) := by
    rw [← List.take_add, ← List.take_add]
    congr 1
    omega
  unfold crc32cSb864Bit
  dsimp only
  rw [hrounds, hrunning, hend, sb8Byte_eq, hsplit, register_append, register_append, sb8Loop_eq]
  · rfl
  · rw [List.length_drop]
    omega

/-- Whatever the address of the buffer is, the function with eight tables computes what the loop
with one table does. -/
theorem calculateCrc32c_computes (address : ℕ) : Computes (calculateCrc32c address) := by
  intro crc buffer length hlen
  unfold calculateCrc32c
  split
  · rfl
  · next hge =>
    rw [UInt32.lt_iff_toNat_lt] at hge
    have hfour : 4 ≤ length.toNat := Nat.le_of_not_lt hge
    have hne : length ≠ 0 := by
      rintro rfl
      exact absurd hfour (by decide)
    unfold multitableCrc32c
    rw [if_neg hne, singletableCrc32c_eq]
    refine crc32cSb864Bit_eq crc ?_ hlen
    rw [UInt32.toNat_ofNat_of_lt']
    · omega
    · change 4 - address % 4 < 2 ^ 32
      omega

end CDevHws.Hw21
