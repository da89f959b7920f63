import Mathlib.Algebra.Group.Nat.Defs
import Mathlib.Data.List.Basic

/-!
# Cyclic redundancy checks

The register has 32 bits and is shifted to the right, so the polynomial and the bytes are taken with
the lowest bit first. All operations are linear over exclusive or: a table of shifted bytes can
stand for the shifts, and several bytes can be taken together.
-/

namespace Crc

/-- One shift. If the bit that falls out is 1, the polynomial is added. -/
def shift (poly x : UInt32) : UInt32 :=
  if x.toNat % 2 = 1 then (x >>> 1) ^^^ poly else x >>> 1

/-- As many shifts. -/
def shifts (poly : UInt32) : ℕ → UInt32 → UInt32
  | 0, x => x
  | n + 1, x => shifts poly n (shift poly x)

/-- The register after a byte. -/
def feed (poly x : UInt32) (c : UInt8) : UInt32 := shifts poly 8 (x ^^^ c.toUInt32)

/-- The register after some bytes. -/
def register (poly x : UInt32) (bytes : List UInt8) : UInt32 := bytes.foldl (feed poly) x

/-! ## Linear maps -/

/-- A map that keeps exclusive or. -/
def Linear (f : UInt32 → UInt32) : Prop := ∀ x y, f (x ^^^ y) = f x ^^^ f y

theorem Linear.zero {f : UInt32 → UInt32} (h : Linear f) : f 0 = 0 := by
  have hsum := h 0 0
  rw [UInt32.xor_self, UInt32.xor_self] at hsum
  exact hsum

theorem linear_id : Linear fun x => x := fun _ _ => rfl

theorem Linear.comp {f g : UInt32 → UInt32} (hf : Linear f) (hg : Linear g) :
    Linear fun x => f (g x) := by
  intro x y
  simp only [hg x y, hf (g x) (g y)]

theorem xor_xor_xor_comm (a b c d : UInt32) : a ^^^ b ^^^ (c ^^^ d) = a ^^^ c ^^^ (b ^^^ d) := by
  ac_rfl

theorem Linear.xor {f g : UInt32 → UInt32} (hf : Linear f) (hg : Linear g) :
    Linear fun x => f x ^^^ g x := by
  intro x y
  simp only [hf x y, hg x y]
  exact xor_xor_xor_comm (f x) (f y) (g x) (g y)

theorem linear_shiftRight (n : UInt32) : Linear fun x => x >>> n := fun _ _ => UInt32.shiftRight_xor

theorem linear_shiftLeft (n : UInt32) : Linear fun x => x <<< n := fun _ _ => UInt32.shiftLeft_xor

/-- Choosing a word by the lowest bit. -/
theorem linear_lowest (c : UInt32) : Linear fun x => if x.toNat % 2 = 1 then c else 0 := by
  intro x y
  simp only [UInt32.toNat_xor, Nat.xor_mod_two_eq_one]
  by_cases hx : x.toNat % 2 = 1 <;> by_cases hy : y.toNat % 2 = 1 <;> simp [hx, hy]

theorem shift_eq (poly x : UInt32) :
    shift poly x = (x >>> 1) ^^^ if x.toNat % 2 = 1 then poly else 0 := by
  unfold shift
  split
  · rfl
  · rw [UInt32.xor_zero]

theorem linear_shift (poly : UInt32) : Linear (shift poly) := by
  have h := (linear_shiftRight 1).xor (linear_lowest poly)
  intro x y
  rw [shift_eq, shift_eq, shift_eq]
  exact h x y

theorem linear_shifts (poly : UInt32) (n : ℕ) : Linear (shifts poly n) := by
  induction n with
  | zero => exact linear_id
  | succ n ih => exact ih.comp (linear_shift poly)

theorem shifts_add (poly : UInt32) (m n : ℕ) (x : UInt32) :
    shifts poly (m + n) x = shifts poly m (shifts poly n x) := by
  induction n generalizing x with
  | zero => rfl
  | succ n ih => exact ih (shift poly x)

/-- Zeros that are shifted out do not matter. -/
theorem shifts_of_mul (poly : UInt32) (n : ℕ) {x y : UInt32} (h : x.toNat = 2 ^ n * y.toNat) :
    shifts poly n x = y := by
  induction n generalizing x with
  | zero =>
    rw [Nat.pow_zero, Nat.one_mul] at h
    exact UInt32.toNat_inj.mp h
  | succ n ih =>
    rw [Nat.pow_succ', Nat.mul_assoc] at h
    refine ih ?_
    unfold shift
    rw [if_neg (by omega), UInt32.toNat_shiftRight]
    change x.toNat >>> 1 = _
    rw [Nat.shiftRight_eq_div_pow]
    omega

/-! ## The lowest byte -/

theorem toNat_lowest (x : UInt32) : (x &&& 0xff).toNat = x.toNat % 2 ^ 8 := by
  rw [UInt32.toNat_and]
  exact Nat.and_two_pow_sub_one_eq_mod x.toNat 8

theorem toNat_shiftRight_eight (x : UInt32) : (x >>> 8).toNat = x.toNat / 2 ^ 8 := by
  rw [UInt32.toNat_shiftRight]
  exact Nat.shiftRight_eq_div_pow x.toNat 8

theorem toNat_shiftLeft_eight {x : UInt32} (h : x.toNat < 2 ^ 24) :
    (x <<< 8).toNat = 2 ^ 8 * x.toNat := by
  rw [UInt32.toNat_shiftLeft]
  change x.toNat <<< 8 % 2 ^ 32 = _
  rw [Nat.shiftLeft_eq, Nat.mod_eq_of_lt (by omega), Nat.mul_comm]

theorem shiftRight_eight_lt (x : UInt32) : (x >>> 8).toNat < 2 ^ 24 := by
  have h := x.toNat_lt
  rw [toNat_shiftRight_eight]
  omega

theorem shiftRight_eight_byte (c : UInt8) : c.toUInt32 >>> 8 = 0 := by
  have h := c.toNat_lt
  apply UInt32.toNat_inj.mp
  rw [toNat_shiftRight_eight, UInt8.toNat_toUInt32]
  exact Nat.div_eq_of_lt h

theorem lowest_byte (c : UInt8) : c.toUInt32 &&& 0xff = c.toUInt32 := by
  have h := c.toNat_lt
  apply UInt32.toNat_inj.mp
  rw [toNat_lowest, UInt8.toNat_toUInt32]
  exact Nat.mod_eq_of_lt h

/-- Bits that do not overlap. -/
theorem xor_mul_eq_add {k a : ℕ} (h : a < 2 ^ k) (b : ℕ) : a ^^^ (2 ^ k * b) = 2 ^ k * b + a := by
  apply Nat.eq_of_testBit_eq
  intro i
  rw [Nat.testBit_xor, Nat.testBit_two_pow_mul_add b h, Nat.testBit_two_pow_mul]
  by_cases hi : i < k
  · simp [hi, Nat.not_le.mpr hi]
  · have hhigh : a.testBit i = false :=
      Nat.testBit_lt_two_pow (Nat.lt_of_lt_of_le h (Nat.pow_le_pow_right (by omega) (by omega)))
    simp [hi, hhigh, Nat.le_of_not_lt hi]

/-- A register is its lowest byte and the others. -/
theorem lowest_xor (x : UInt32) : (x &&& (0xff : UInt32)) ^^^ ((x >>> 8) <<< 8) = x := by
  apply UInt32.toNat_inj.mp
  rw [UInt32.toNat_xor, toNat_lowest, toNat_shiftLeft_eight (shiftRight_eight_lt x),
    toNat_shiftRight_eight, xor_mul_eq_add (Nat.mod_lt _ (Nat.two_pow_pos 8)), Nat.div_add_mod]

/-- Eight shifts of a register without a lowest byte. -/
theorem shifts_shiftLeft (poly : UInt32) (n : ℕ) {x : UInt32} (h : x.toNat < 2 ^ 24) :
    shifts poly (n + 8) (x <<< 8) = shifts poly n x := by
  rw [shifts_add, shifts_of_mul poly 8 (toNat_shiftLeft_eight h)]

/-- The lowest byte is shifted on its own. -/
theorem shifts_lowest (poly : UInt32) (n : ℕ) (x : UInt32) :
    shifts poly (n + 8) x = shifts poly (n + 8) (x &&& 0xff) ^^^ shifts poly n (x >>> 8) := by
  have hsum := linear_shifts poly (n + 8) (x &&& 0xff) ((x >>> 8) <<< 8)
  rw [lowest_xor, shifts_shiftLeft poly n (shiftRight_eight_lt x)] at hsum
  exact hsum

/-- All bytes are shifted on their own. -/
theorem shifts_bytes (poly : UInt32) (n : ℕ) (x : UInt32) :
    shifts poly (n + 32) x =
      shifts poly (n + 32) (x &&& 0xff) ^^^ shifts poly (n + 24) ((x >>> 8) &&& 0xff) ^^^
      shifts poly (n + 16) ((x >>> 16) &&& 0xff) ^^^
      shifts poly (n + 8) (((x >>> 16) >>> 8) &&& 0xff) := by
  have htwice : (x >>> 8) >>> 8 = x >>> 16 := by
    apply UInt32.toNat_inj.mp
    rw [toNat_shiftRight_eight, toNat_shiftRight_eight, UInt32.toNat_shiftRight]
    change _ = x.toNat >>> 16
    rw [Nat.shiftRight_eq_div_pow]
    omega
  have hlast : ((x >>> 16) >>> 8) >>> 8 = 0 := by
    have hx := x.toNat_lt
    apply UInt32.toNat_inj.mp
    rw [← htwice]
    simp only [toNat_shiftRight_eight]
    change _ = 0
    omega
  rw [shifts_lowest poly (n + 24), shifts_lowest poly (n + 16) (x >>> 8), htwice,
    shifts_lowest poly (n + 8) (x >>> 16), shifts_lowest poly n ((x >>> 16) >>> 8), hlast,
    (linear_shifts poly n).zero, UInt32.xor_zero, UInt32.xor_assoc, UInt32.xor_assoc]

/-! ## Tables -/

/-- The table of the bytes, each shifted `n` times. -/
def IsTable (poly : UInt32) (n : ℕ) (table : List UInt32) : Prop :=
  table = (List.range 256).map fun i => shifts poly n (UInt32.ofNat i)

theorem IsTable.get {poly : UInt32} {n : ℕ} {table : List UInt32} (h : IsTable poly n table)
    (x : UInt32) : table.getD (x &&& 0xff).toNat 0 = shifts poly n (x &&& 0xff) := by
  have hlt : (x &&& 0xff).toNat < 256 := by
    rw [toNat_lowest]
    exact Nat.mod_lt _ (Nat.two_pow_pos 8)
  unfold IsTable at h
  rw [h, List.getD_eq_getElem?_getD, List.getElem?_map, List.getElem?_range hlt]
  change shifts poly n (UInt32.ofNat (x &&& 0xff).toNat) = _
  rw [UInt32.ofNat_toNat]

theorem IsTable.get_byte {poly : UInt32} {n : ℕ} {table : List UInt32} (h : IsTable poly n table)
    (c : UInt8) : table.getD c.toNat 0 = shifts poly n c.toUInt32 := by
  have hget := h.get c.toUInt32
  rw [lowest_byte, UInt8.toNat_toUInt32] at hget
  exact hget

/-- A table from the one before it. -/
theorem IsTable.next {poly : UInt32} {n : ℕ} {table table' : List UInt32} (h : IsTable poly n table)
    (hmap : table' = table.map (shifts poly 8)) : IsTable poly (n + 8) table' := by
  unfold IsTable at *
  rw [hmap, h, List.map_map, Nat.add_comm]
  refine List.map_congr_left fun i _ => ?_
  exact (shifts_add poly 8 n _).symm

/-- The register after a byte, by a table. -/
def lookup (table : List UInt32) (x : UInt32) (c : UInt8) : UInt32 :=
  table.getD ((x ^^^ c.toUInt32) &&& 0xff).toNat 0 ^^^ (x >>> 8)

theorem lookup_eq_feed {poly : UInt32} {table : List UInt32} (h : IsTable poly 8 table) :
    lookup table = feed poly := by
  funext x c
  have hsplit := shifts_lowest poly 0 (x ^^^ c.toUInt32)
  rw [UInt32.shiftRight_xor, shiftRight_eight_byte, UInt32.xor_zero] at hsplit
  unfold lookup feed
  rw [h.get]
  exact hsplit.symm

/-! ## Words -/

/-- The word with these bytes, the lowest first. -/
def word : List UInt8 → UInt32
  | [] => 0
  | c :: rest => c.toUInt32 ^^^ (word rest <<< 8)

/-- The lowest bytes of a word. -/
def bytes : ℕ → UInt32 → List UInt8
  | 0, _ => []
  | n + 1, x => x.toUInt8 :: bytes n (x >>> 8)

theorem length_bytes (n : ℕ) (x : UInt32) : (bytes n x).length = n := by
  induction n generalizing x with
  | zero => rfl
  | succ n ih => exact congrArg Nat.succ (ih (x >>> 8))

theorem toNat_word_cons (c : UInt8) {rest : List UInt8} (h : (word rest).toNat < 2 ^ 24) :
    (word (c :: rest)).toNat = 2 ^ 8 * (word rest).toNat + c.toNat := by
  rw [word, UInt32.toNat_xor, toNat_shiftLeft_eight h, UInt8.toNat_toUInt32,
    xor_mul_eq_add c.toNat_lt]

theorem toNat_word_lt {l : List UInt8} (h : l.length ≤ 3) :
    (word l).toNat < 2 ^ (8 * l.length) := by
  induction l with
  | nil => exact Nat.one_pos
  | cons c rest ih =>
    rw [List.length_cons] at h
    have hrest := ih (by omega)
    have hc := c.toNat_lt
    have hpow : 2 ^ (8 * rest.length) ≤ 2 ^ 24 := Nat.pow_le_pow_right (by omega) (by omega)
    rw [toNat_word_cons c (by omega), List.length_cons, Nat.mul_succ, Nat.pow_add]
    omega

theorem word_lt {l : List UInt8} (h : l.length ≤ 3) : (word l).toNat < 2 ^ 24 :=
  Nat.lt_of_lt_of_le (toNat_word_lt h) (Nat.pow_le_pow_right (by omega) (by omega))

theorem word_lowest (c : UInt8) {rest : List UInt8} (h : rest.length ≤ 3) :
    word (c :: rest) &&& 0xff = c.toUInt32 := by
  have hc := c.toNat_lt
  apply UInt32.toNat_inj.mp
  rw [toNat_lowest, toNat_word_cons c (word_lt h), UInt8.toNat_toUInt32]
  omega

theorem word_shiftRight (c : UInt8) {rest : List UInt8} (h : rest.length ≤ 3) :
    word (c :: rest) >>> 8 = word rest := by
  have hc := c.toNat_lt
  apply UInt32.toNat_inj.mp
  rw [toNat_shiftRight_eight, toNat_word_cons c (word_lt h)]
  omega

theorem word_toUInt8 (c : UInt8) {rest : List UInt8} (h : rest.length ≤ 3) :
    (word (c :: rest)).toUInt8 = c := by
  have hc := c.toNat_lt
  apply UInt8.toNat_inj.mp
  rw [UInt32.toNat_toUInt8, toNat_word_cons c (word_lt h)]
  omega

theorem bytes_word {l : List UInt8} (h : l.length ≤ 4) : bytes l.length (word l) = l := by
  induction l with
  | nil => rfl
  | cons c rest ih =>
    rw [List.length_cons] at h
    rw [List.length_cons, bytes, word_toUInt8 c (by omega), word_shiftRight c (by omega),
      ih (by omega)]

theorem word_bytes (n : ℕ) {x : UInt32} (hx : x.toNat < 2 ^ (8 * n)) (hn : n ≤ 4) :
    word (bytes n x) = x := by
  induction n generalizing x with
  | zero =>
    apply UInt32.toNat_inj.mp
    exact (Nat.lt_one_iff.mp hx).symm
  | succ n ih =>
    have hrest : word (bytes n (x >>> 8)) = x >>> 8 := by
      refine ih ?_ (by omega)
      rw [toNat_shiftRight_eight]
      rw [Nat.mul_succ, Nat.pow_add] at hx
      omega
    have hlowest : x.toUInt8.toUInt32 = x &&& 0xff := by
      apply UInt32.toNat_inj.mp
      rw [toNat_lowest, UInt8.toNat_toUInt32, UInt32.toNat_toUInt8]
    unfold bytes word
    rw [hrest, hlowest, lowest_xor]

/-- The bytes of a word are the only ones that make it up. -/
theorem word_eq_iff {l : List UInt8} (h : l.length = 4) (x : UInt32) :
    word l = x ↔ l = bytes 4 x := by
  constructor
  · intro heq
    rw [← heq, ← h, bytes_word (Nat.le_of_eq h)]
  · intro heq
    rw [heq, word_bytes 4 x.toNat_lt (Nat.le_refl 4)]

/-- Up to four bytes are taken together. -/
theorem register_eq_shifts (poly x : UInt32) {l : List UInt8} (h : l.length ≤ 4) :
    register poly x l = shifts poly (8 * l.length) (x ^^^ word l) := by
  induction l generalizing x with
  | nil => exact (congrArg (shifts poly 0) UInt32.xor_zero).symm
  | cons c rest ih =>
    rw [List.length_cons] at h
    have hword : x ^^^ word (c :: rest) = (x ^^^ c.toUInt32) ^^^ (word rest <<< 8) :=
      (UInt32.xor_assoc x c.toUInt32 (word rest <<< 8)).symm
    have hrest : shifts poly 8 (word rest <<< 8) = word rest :=
      shifts_shiftLeft poly 0 (word_lt (by omega))
    calc register poly x (c :: rest)
        = register poly (shifts poly 8 (x ^^^ c.toUInt32)) rest := rfl
      _ = shifts poly (8 * rest.length) (shifts poly 8 (x ^^^ c.toUInt32) ^^^ word rest) :=
          ih _ (by omega)
      _ = shifts poly (8 * rest.length) (shifts poly 8 (x ^^^ word (c :: rest))) := by
          rw [hword, linear_shifts poly 8 (x ^^^ c.toUInt32), hrest]
      _ = shifts poly (8 * (c :: rest).length) (x ^^^ word (c :: rest)) :=
          (shifts_add poly _ 8 _).symm

/-- The bytes of a word are shifted on their own. -/
theorem shifts_word_cons (poly : UInt32) (n : ℕ) (c : UInt8) {rest : List UInt8}
    (h : rest.length ≤ 3) : shifts poly (n + 8) (word (c :: rest)) =
      shifts poly (n + 8) c.toUInt32 ^^^ shifts poly n (word rest) := by
  rw [shifts_lowest, word_lowest c h, word_shiftRight c h]

theorem register_append (poly x : UInt32) (l l' : List UInt8) :
    register poly x (l ++ l') = register poly (register poly x l) l' := List.foldl_append

theorem register_zeros (poly : UInt32) (k : ℕ) : register poly 0 (List.replicate k 0) = 0 := by
  have hzero : feed poly 0 0 = 0 := (linear_shifts poly 8).zero
  induction k with
  | zero => rfl
  | succ k ih =>
    rw [List.replicate_succ]
    change register poly (feed poly 0 0) (List.replicate k 0) = 0
    rw [hzero, ih]

/-! ## Columns -/

/-- The linear map with these values at the bits, from the lowest bit on. -/
def combine : List UInt32 → UInt32 → UInt32
  | [], _ => 0
  | c :: rest, x => (if x.toNat % 2 = 1 then c else 0) ^^^ combine rest (x >>> 1)

/-- The values of a map at the `n` lowest bits. -/
def columns : ℕ → (UInt32 → UInt32) → List UInt32
  | 0, _ => []
  | n + 1, f => f 1 :: columns n fun x => f (x <<< 1)

theorem linear_combine (columns : List UInt32) : Linear (combine columns) := by
  induction columns with
  | nil => exact fun _ _ => UInt32.xor_self.symm
  | cons c rest ih => exact (linear_lowest c).xor (ih.comp (linear_shiftRight 1))

/-- A register is its lowest bit and the others. -/
theorem lowest_bit_xor (x : UInt32) :
    (if x.toNat % 2 = 1 then 1 else 0 : UInt32) ^^^ ((x >>> 1) <<< 1) = x := by
  have hx := x.toNat_lt
  have hright : (x >>> 1).toNat = x.toNat / 2 ^ 1 := by
    rw [UInt32.toNat_shiftRight]
    exact Nat.shiftRight_eq_div_pow x.toNat 1
  have hleft : ((x >>> 1) <<< 1).toNat = 2 ^ 1 * (x.toNat / 2 ^ 1) := by
    rw [UInt32.toNat_shiftLeft, hright]
    change (x.toNat / 2 ^ 1) <<< 1 % 2 ^ 32 = _
    rw [Nat.shiftLeft_eq]
    omega
  have hbit : (if x.toNat % 2 = 1 then 1 else 0 : UInt32).toNat = x.toNat % 2 ^ 1 := by
    split
    · next hodd => exact hodd.symm
    · next heven => exact (Nat.mod_two_ne_one.mp heven).symm
  apply UInt32.toNat_inj.mp
  rw [UInt32.toNat_xor, hbit, hleft, xor_mul_eq_add (Nat.mod_lt _ (Nat.two_pow_pos 1)),
    Nat.div_add_mod]

/-- A linear map is given by its columns. -/
theorem Linear.eq_combine {f : UInt32 → UInt32} (hf : Linear f) (n : ℕ) {x : UInt32}
    (hx : x.toNat < 2 ^ n) : f x = combine (columns n f) x := by
  induction n generalizing f x with
  | zero =>
    have hzero : x = 0 := UInt32.toNat_inj.mp (Nat.lt_one_iff.mp hx)
    rw [hzero]
    exact hf.zero
  | succ n ih =>
    have hsum := hf (if x.toNat % 2 = 1 then 1 else 0) ((x >>> 1) <<< 1)
    have hbit : f (if x.toNat % 2 = 1 then 1 else 0) = if x.toNat % 2 = 1 then f 1 else 0 := by
      split
      · rfl
      · exact hf.zero
    have hrest : f ((x >>> 1) <<< 1) = combine (columns n fun y => f (y <<< 1)) (x >>> 1) := by
      refine ih (hf.comp (linear_shiftLeft 1)) ?_
      rw [UInt32.toNat_shiftRight]
      change x.toNat >>> 1 < _
      rw [Nat.shiftRight_eq_div_pow]
      rw [Nat.pow_succ] at hx
      omega
    rw [lowest_bit_xor, hbit, hrest] at hsum
    exact hsum

theorem Linear.eq_of_columns {f g : UInt32 → UInt32} (hf : Linear f) (hg : Linear g)
    (h : columns 32 f = columns 32 g) (x : UInt32) : f x = g x := by
  rw [hf.eq_combine 32 x.toNat_lt, hg.eq_combine 32 x.toNat_lt, h]

/-! ## Two polynomials -/

/-- What the difference of two registers becomes with a word that both are fed. -/
def difference (p q x : UInt32) : UInt32 := shifts p 32 x ^^^ shifts q 32 x

theorem linear_difference (p q : UInt32) : Linear (difference p q) :=
  (linear_shifts p 32).xor (linear_shifts q 32)

/-- The columns of the inverse of `difference`. -/
structure IsInverse (p q : UInt32) (inverse : List UInt32) : Prop where
  left : columns 32 (fun x => combine inverse (difference p q x)) = columns 32 fun x => x
  right : columns 32 (fun x => difference p q (combine inverse x)) = columns 32 fun x => x

variable {p q : UInt32} {inverse : List UInt32}

theorem IsInverse.eq_iff (h : IsInverse p q inverse) (x y : UInt32) :
    difference p q x = y ↔ x = combine inverse y := by
  have hdifference := linear_difference p q
  have hinverse := linear_combine inverse
  constructor
  · intro heq
    rw [← heq]
    exact ((hinverse.comp hdifference).eq_of_columns linear_id h.left x).symm
  · intro heq
    rw [heq]
    exact (hdifference.comp hinverse).eq_of_columns linear_id h.right y

/-- The four bytes that lead two registers to values that differ by `d`. -/
def ending (p q : UInt32) (inverse : List UInt32) (x y d : UInt32) : List UInt8 :=
  bytes 4 (combine inverse (shifts p 32 x ^^^ shifts q 32 y ^^^ d))

theorem xor_eq_xor_iff (a b c d e : UInt32) :
    a ^^^ b = c ^^^ d ^^^ e ↔ b ^^^ d = a ^^^ c ^^^ e := by
  have hsum : a ^^^ b ^^^ (c ^^^ d ^^^ e) = b ^^^ d ^^^ (a ^^^ c ^^^ e) := by ac_rfl
  rw [← UInt32.xor_eq_zero_iff, hsum, UInt32.xor_eq_zero_iff]

/-- There is exactly one sequence of four bytes that leads two registers to values that differ by
`d`. -/
theorem register_eq_iff (h : IsInverse p q inverse) {l : List UInt8} (hl : l.length = 4)
    (x y d : UInt32) :
    register p x l = register q y l ^^^ d ↔ l = ending p q inverse x y d := by
  have hle : l.length ≤ 4 := Nat.le_of_eq hl
  unfold ending
  rw [register_eq_shifts p x hle, register_eq_shifts q y hle, hl, linear_shifts p, linear_shifts q,
    ← word_eq_iff hl, ← h.eq_iff]
  exact xor_eq_xor_iff (shifts p 32 x) (shifts p 32 (word l)) (shifts q 32 y)
    (shifts q 32 (word l)) d

end Crc
