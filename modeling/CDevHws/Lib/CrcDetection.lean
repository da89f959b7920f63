import CDevHws.Lib.Crc

/-!
# What a checksum detects

If the polynomial has its highest bit, a shift can be undone, so that different registers stay
different. A change within four bytes makes the registers different.
-/

namespace Crc

variable {poly : UInt32}

/-- The bit that falls out can be told from the highest bit of the register. -/
theorem shift_eq_zero (hpoly : 2 ^ 31 ≤ poly.toNat) {x : UInt32} (h : shift poly x = 0) :
    x = 0 := by
  have hlt := x.toNat_lt
  have hhalf : (x >>> 1).toNat = x.toNat / 2 := by
    rw [UInt32.toNat_shiftRight]
    exact Nat.shiftRight_eq_div_pow x.toNat 1
  unfold shift at h
  split_ifs at h with hodd
  · have heq : x >>> 1 = poly := by
      rw [← UInt32.xor_zero (a := x >>> 1), ← UInt32.xor_self (a := poly), ← UInt32.xor_assoc, h,
        UInt32.zero_xor]
    rw [heq] at hhalf
    omega
  · have hzero : x.toNat / 2 = 0 := by
      rw [← hhalf, h]
      rfl
    apply UInt32.toNat_inj.mp
    show x.toNat = 0
    omega

theorem shifts_eq_zero (hpoly : 2 ^ 31 ≤ poly.toNat) (n : ℕ) {x : UInt32}
    (h : shifts poly n x = 0) : x = 0 := by
  induction n generalizing x with
  | zero => exact h
  | succ n ih => exact shift_eq_zero hpoly (ih h)

theorem shifts_injective (hpoly : 2 ^ 31 ≤ poly.toNat) (n : ℕ) {x y : UInt32}
    (h : shifts poly n x = shifts poly n y) : x = y := by
  have hxor : shifts poly n (x ^^^ y) = 0 := by
    rw [linear_shifts poly n x y, h, UInt32.xor_self]
  exact UInt32.xor_eq_zero_iff.mp (shifts_eq_zero hpoly n hxor)

/-- The same bytes keep different registers different. -/
theorem register_injective (hpoly : 2 ^ 31 ≤ poly.toNat) (l : List UInt8) {x y : UInt32}
    (h : register poly x l = register poly y l) : x = y := by
  induction l generalizing x y with
  | nil => exact h
  | cons c l ih =>
    have hfeed : x ^^^ c.toUInt32 = y ^^^ c.toUInt32 := shifts_injective hpoly 8 (ih h)
    exact (UInt32.xor_left_inj _).mp hfeed

/-- Different bytes, up to four of them, make a register different. -/
theorem register_ne (hpoly : 2 ^ 31 ≤ poly.toNat) (x : UInt32) {l l' : List UInt8}
    (hlen : l'.length = l.length) (hfour : l.length ≤ 4) (hne : l ≠ l') :
    register poly x l ≠ register poly x l' := by
  have hfour' : l'.length ≤ 4 := by
    rw [hlen]
    exact hfour
  intro heq
  rw [register_eq_shifts poly x hfour, register_eq_shifts poly x hfour', hlen] at heq
  have hword : word l = word l' := (UInt32.xor_right_inj x).mp (shifts_injective hpoly _ heq)
  refine hne ?_
  rw [← bytes_word hfour, ← bytes_word hfour', hlen, hword]

/-- The bytes of a register, and no others, lead it to 0. -/
theorem register_eq_zero_iff (hpoly : 2 ^ 31 ≤ poly.toNat) (x : UInt32) {l : List UInt8}
    (h : l.length = 4) : register poly x l = 0 ↔ l = bytes 4 x := by
  rw [register_eq_shifts poly x (Nat.le_of_eq h), ← word_eq_iff h]
  constructor
  · intro hzero
    exact (UInt32.xor_eq_zero_iff.mp (shifts_eq_zero hpoly _ hzero)).symm
  · intro hword
    rw [hword, UInt32.xor_self]
    exact (linear_shifts poly _).zero

end Crc
