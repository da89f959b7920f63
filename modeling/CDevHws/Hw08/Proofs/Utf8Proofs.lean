import CDevHws.Hw08.Utf8
import CDevHws.Lib.Utf8
import Mathlib.Algebra.Group.Nat.Defs

/-!
# Proofs: the check of strings

`is_valid_utf8` accepts exactly the texts that are the UTF-8 encoding of some characters, of which
the last one may go on behind the end of the string.
-/

namespace CDevHws.Hw08

open Utf8 (Valid)

/-! ## Bits as numbers -/

theorem forall_byte {p : UInt8 → Prop} (h : ∀ n < 256, p (UInt8.ofNat n)) (b : UInt8) : p b := by
  have hb := h b.toNat b.toNat_lt
  rwa [UInt8.ofNat_toNat] at hb

/-- A continuation byte. -/
def Cont (b : ℕ) : Prop := 0x80 ≤ b ∧ b < 0xC0

instance : DecidablePred Cont := fun _ => inferInstanceAs (Decidable (_ ∧ _))

theorem isCont_iff (b : UInt8) : isCont b = true ↔ Cont b.toNat := by
  revert b
  refine forall_byte ?_
  decide +kernel

/-- The lengths of sequences by their first byte. -/
theorem numBytes_eq (c : UInt8) : numBytesInUtf8Sequence c =
    if c.toNat < 0x80 then 1
    else if c.toNat < 0xC2 then 0
    else if c.toNat < 0xE0 then 2
    else if c.toNat < 0xF0 then 3
    else if c.toNat < 0xF5 then 4
    else 0 := by
  revert c
  refine forall_byte ?_
  decide +kernel

theorem addBits_eq (cp : ℕ) (b : UInt8) : addBits cp b = cp * 64 + b.toNat % 64 := by
  have hmask : b.toNat &&& 0x3F = b.toNat % 64 := Nat.and_two_pow_sub_one_eq_mod b.toNat 6
  unfold addBits
  rw [hmask, ← Nat.shiftLeft_add_eq_or_of_lt (Nat.mod_lt _ (by decide)), Nat.shiftLeft_eq]

theorem and_mask (n : ℕ) : n &&& 0x1F = n % 32 ∧ n &&& 0xF = n % 16 ∧ n &&& 0x7 = n % 8 :=
  ⟨Nat.and_two_pow_sub_one_eq_mod n 5, Nat.and_two_pow_sub_one_eq_mod n 4,
    Nat.and_two_pow_sub_one_eq_mod n 3⟩

/-! ## Sequences -/

/-- The code point of three bytes. -/
def threeBits (b0 b1 b2 : ℕ) : ℕ := (b0 % 16 * 64 + b1 % 64) * 64 + b2 % 64

/-- The code point of four bytes. -/
def fourBits (b0 b1 b2 b3 : ℕ) : ℕ := ((b0 % 8 * 64 + b1 % 64) * 64 + b2 % 64) * 64 + b3 % 64

/-- `verify_utf8_sequence` on the numbers of the bytes. -/
def verifyBytes (b0 b1 b2 b3 : ℕ) : Option ℕ :=
  if b0 < 0x80 then some 1
  else if b0 < 0xC2 then none
  else if b0 < 0xE0 then if Cont b1 then some 2 else none
  else if b0 < 0xF0 then
    if (Cont b1 ∧ Cont b2) ∧ 0x800 ≤ threeBits b0 b1 b2 ∧
        (threeBits b0 b1 b2 < 0xD800 ∨ 0xDFFF < threeBits b0 b1 b2) then some 3
    else none
  else if b0 < 0xF5 then
    if (Cont b1 ∧ Cont b2 ∧ Cont b3) ∧ 0x10000 ≤ fourBits b0 b1 b2 b3 ∧
        fourBits b0 b1 b2 b3 ≤ 0x10FFFF then some 4
    else none
  else none

/-- What is left to check of a code point in a sequence of `len` bytes. -/
def checkBits (len cp : ℕ) : Option ℕ :=
  if cp < 0x80 ∧ len > 1 ∨ cp < 0x800 ∧ len > 2 ∨ cp < 0x10000 ∧ len > 3 then none
  else if cp > 0x10FFFF then none
  else if cp ≥ 0xD800 ∧ cp ≤ 0xDFFF then none
  else some len

theorem verify_of_len {string : ℕ → UInt8} {len : ℕ}
    (h : numBytesInUtf8Sequence (string 0) = len) :
    verifyUtf8Sequence string = (sequenceBits string len).bind (checkBits len) := by
  unfold verifyUtf8Sequence
  rw [h]
  rfl

theorem sequenceBits_two (string : ℕ → UInt8) : sequenceBits string 2 =
    if Cont (string 1).toNat then
      some ((string 0).toNat % 32 * 64 + (string 1).toNat % 64)
    else none := by
  unfold sequenceBits
  simp [isCont_iff, addBits_eq, (and_mask _).1]

theorem sequenceBits_three (string : ℕ → UInt8) : sequenceBits string 3 =
    if Cont (string 1).toNat ∧ Cont (string 2).toNat then
      some (threeBits (string 0).toNat (string 1).toNat (string 2).toNat)
    else none := by
  unfold sequenceBits threeBits
  simp [isCont_iff, addBits_eq, (and_mask _).2.1]

theorem sequenceBits_four (string : ℕ → UInt8) : sequenceBits string 4 =
    if Cont (string 1).toNat ∧ Cont (string 2).toNat ∧
        Cont (string 3).toNat then
      some (fourBits (string 0).toNat (string 1).toNat (string 2).toNat
        (string 3).toNat)
    else none := by
  unfold sequenceBits fourBits
  simp [isCont_iff, addBits_eq, (and_mask _).2.2]

theorem checkBits_pos {len cp : ℕ} (h1 : 1 < len → 0x80 ≤ cp) (h2 : 2 < len → 0x800 ≤ cp)
    (h3 : 3 < len → 0x10000 ≤ cp) (hmax : cp ≤ 0x10FFFF) (hsurrogate : cp < 0xD800 ∨ 0xDFFF < cp) :
    checkBits len cp = some len := by
  unfold checkBits
  rw [if_neg (by omega), if_neg (by omega), if_neg (by omega)]

theorem checkBits_neg {len cp : ℕ} (h : ¬ ((1 < len → 0x80 ≤ cp) ∧ (2 < len → 0x800 ≤ cp) ∧
    (3 < len → 0x10000 ≤ cp) ∧ cp ≤ 0x10FFFF ∧ (cp < 0xD800 ∨ 0xDFFF < cp))) :
    checkBits len cp = none := by
  unfold checkBits
  split_ifs
  · rfl
  · rfl
  · rfl
  · exact absurd ⟨by omega, by omega, by omega, by omega, by omega⟩ h

theorem verifyUtf8Sequence_eq (string : ℕ → UInt8) : verifyUtf8Sequence string =
    verifyBytes (string 0).toNat (string 1).toNat (string 2).toNat
      (string 3).toNat := by
  have hlen := numBytes_eq (string 0)
  unfold verifyBytes
  split_ifs at hlen ⊢ with h0 h1 h2 hc1 h3 hc2 h4 hc3
  · rw [verify_of_len hlen]
    exact checkBits_pos (by omega) (by omega) (by omega) (by omega) (by omega)
  · rw [verify_of_len hlen]
    rfl
  · rw [verify_of_len hlen, sequenceBits_two, if_pos hc1]
    exact checkBits_pos (by omega) (by omega) (by omega) (by omega) (by omega)
  · rw [verify_of_len hlen, sequenceBits_two, if_neg hc1]
    rfl
  · rw [verify_of_len hlen, sequenceBits_three, if_pos hc2.1]
    unfold threeBits at hc2 ⊢
    exact checkBits_pos (by omega) (by omega) (by omega) (by omega) (by omega)
  · rw [verify_of_len hlen, sequenceBits_three]
    split_ifs with hcont
    · exact checkBits_neg fun h => hc2 ⟨hcont, h.2.1 (by decide), h.2.2.2.2⟩
    · rfl
  · rw [verify_of_len hlen, sequenceBits_four, if_pos hc3.1]
    exact checkBits_pos (by omega) (by omega) (by omega) (by omega) (by omega)
  · rw [verify_of_len hlen, sequenceBits_four]
    split_ifs with hcont
    · exact checkBits_neg fun h => hc3 ⟨hcont, h.2.2.1 (by decide), h.2.2.2.1⟩
    · rfl
  · rw [verify_of_len hlen]
    rfl

/-! ## Characters -/

theorem length_firstBytes (string : ℕ → UInt8) (n : ℕ) : (firstBytes string n).length = n := by
  rw [firstBytes, List.length_map, List.length_range]

theorem firstBytes_add (string : ℕ → UInt8) (m n : ℕ) : firstBytes string (m + n) =
    firstBytes string m ++ firstBytes (fun i => string (m + i)) n := by
  unfold firstBytes
  rw [List.range_add, List.map_append, List.map_map]
  rfl

/-- The first bytes begin with a shorter text, which then are the first bytes too. -/
theorem firstBytes_split {string : ℕ → UInt8} {n : ℕ} {s t : List UInt8}
    (h : firstBytes string n = s ++ t) : ∃ m, n = s.length + m ∧
      s = firstBytes string s.length ∧ t = firstBytes (fun i => string (s.length + i)) m := by
  have hlen := congrArg List.length h
  rw [length_firstBytes, List.length_append] at hlen
  rw [hlen, firstBytes_add] at h
  obtain ⟨hs, ht⟩ := List.append_inj h (length_firstBytes _ _)
  exact ⟨t.length, hlen, hs.symm, ht.symm⟩

theorem length_pos_of_encode {c : Char} {string : ℕ → UInt8} {n : ℕ}
    (h : String.utf8EncodeChar c = firstBytes string n) : 0 < n := by
  rw [← length_firstBytes string n, ← h]
  exact List.length_pos_of_ne_nil String.utf8EncodeChar_ne_nil

theorem toNat_ofNat {n : ℕ} (h : n < 256) : (UInt8.ofNat n).toNat = n := by
  rw [UInt8.toNat_ofNat', Nat.mod_eq_of_lt h]

theorem eq_ofNat {b : UInt8} {n : ℕ} (h : b.toNat = n) : b = UInt8.ofNat n := by
  rw [← h, UInt8.ofNat_toNat]

theorem verifyBytes_two {b0 b1 b2 b3 : ℕ} (hlow : 0xC2 ≤ b0) (hhigh : b0 < 0xE0) (hc : Cont b1) :
    verifyBytes b0 b1 b2 b3 = some 2 := by
  unfold verifyBytes
  rw [if_neg (by omega), if_neg (by omega), if_pos hhigh, if_pos hc]

theorem verifyBytes_three {b0 b1 b2 b3 : ℕ} (hlow : 0xE0 ≤ b0) (hhigh : b0 < 0xF0)
    (hc : Cont b1 ∧ Cont b2) (hcp : 0x800 ≤ threeBits b0 b1 b2 ∧
      (threeBits b0 b1 b2 < 0xD800 ∨ 0xDFFF < threeBits b0 b1 b2)) :
    verifyBytes b0 b1 b2 b3 = some 3 := by
  unfold verifyBytes
  rw [if_neg (by omega), if_neg (by omega), if_neg (by omega), if_pos hhigh, if_pos ⟨hc, hcp⟩]

theorem verifyBytes_four {b0 b1 b2 b3 : ℕ} (hlow : 0xF0 ≤ b0) (hhigh : b0 < 0xF5)
    (hc : Cont b1 ∧ Cont b2 ∧ Cont b3) (hcp : 0x10000 ≤ fourBits b0 b1 b2 b3 ∧
      fourBits b0 b1 b2 b3 ≤ 0x10FFFF) : verifyBytes b0 b1 b2 b3 = some 4 := by
  unfold verifyBytes
  rw [if_neg (by omega), if_neg (by omega), if_neg (by omega), if_neg (by omega), if_pos hhigh,
    if_pos ⟨hc, hcp⟩]

theorem cont_tail (n : ℕ) : Cont (UInt8.ofNat (n % 0x40 + 0x80)).toNat := by
  rw [toNat_ofNat (by omega)]
  exact ⟨by omega, by omega⟩

/-- A character is accepted, whatever follows it. -/
theorem verify_encode {c : Char} {string : ℕ → UInt8} {n : ℕ}
    (h : String.utf8EncodeChar c = firstBytes string n) : verifyUtf8Sequence string = some n := by
  have hvalid : c.val.toNat < 0xD800 ∨ 0xDFFF < c.val.toNat ∧ c.val.toNat < 0x110000 := c.valid
  have hlen := congrArg List.length h
  rw [length_firstBytes] at hlen
  rw [verifyUtf8Sequence_eq]
  unfold String.utf8EncodeChar at h hlen
  simp only at h hlen
  generalize c.val.toNat = v at hvalid h hlen
  split_ifs at h hlen with h1 h2 h3
  · obtain rfl : n = 1 := hlen.symm
    have h : _ = [string 0] := h
    obtain ⟨hb0, -⟩ := List.cons.inj h
    rw [← hb0, toNat_ofNat (by omega)]
    exact if_pos (by omega)
  · obtain rfl : n = 2 := hlen.symm
    have h : _ = [string 0, string 1] := h
    obtain ⟨hb0, h⟩ := List.cons.inj h
    obtain ⟨hb1, -⟩ := List.cons.inj h
    rw [← hb0, ← hb1]
    refine verifyBytes_two ?_ ?_ (cont_tail v)
    · rw [toNat_ofNat (by omega)]
      omega
    · rw [toNat_ofNat (by omega)]
      omega
  · obtain rfl : n = 3 := hlen.symm
    have h : _ = [string 0, string 1, string 2] := h
    obtain ⟨hb0, h⟩ := List.cons.inj h
    obtain ⟨hb1, h⟩ := List.cons.inj h
    obtain ⟨hb2, -⟩ := List.cons.inj h
    have hcp : threeBits (UInt8.ofNat (v / 4096 % 0x10 + 0xe0)).toNat
        (UInt8.ofNat (v / 64 % 0x40 + 0x80)).toNat (UInt8.ofNat (v % 0x40 + 0x80)).toNat = v := by
      unfold threeBits
      rw [toNat_ofNat (by omega), toNat_ofNat (by omega), toNat_ofNat (by omega)]
      omega
    rw [← hb0, ← hb1, ← hb2]
    refine verifyBytes_three ?_ ?_ ⟨cont_tail _, cont_tail _⟩ ?_
    · rw [toNat_ofNat (by omega)]
      omega
    · rw [toNat_ofNat (by omega)]
      omega
    · rw [hcp]
      omega
  · obtain rfl : n = 4 := hlen.symm
    have h : _ = [string 0, string 1, string 2, string 3] := h
    obtain ⟨hb0, h⟩ := List.cons.inj h
    obtain ⟨hb1, h⟩ := List.cons.inj h
    obtain ⟨hb2, h⟩ := List.cons.inj h
    obtain ⟨hb3, -⟩ := List.cons.inj h
    have hcp : fourBits (UInt8.ofNat (v / 262144 % 0x08 + 0xf0)).toNat
        (UInt8.ofNat (v / 4096 % 0x40 + 0x80)).toNat (UInt8.ofNat (v / 64 % 0x40 + 0x80)).toNat
        (UInt8.ofNat (v % 0x40 + 0x80)).toNat = v := by
      unfold fourBits
      rw [toNat_ofNat (by omega), toNat_ofNat (by omega), toNat_ofNat (by omega),
        toNat_ofNat (by omega)]
      omega
    rw [← hb0, ← hb1, ← hb2, ← hb3]
    refine verifyBytes_four ?_ ?_ ⟨cont_tail _, cont_tail _, cont_tail _⟩ ?_
    · rw [toNat_ofNat (by omega)]
      omega
    · rw [toNat_ofNat (by omega)]
      omega
    · rw [hcp]
      omega

/-- What is accepted is a character. -/
theorem encode_of_verify {string : ℕ → UInt8} {len : ℕ} (h : verifyUtf8Sequence string = some len) :
    ∃ c, String.utf8EncodeChar c = firstBytes string len := by
  rw [verifyUtf8Sequence_eq] at h
  unfold verifyBytes at h
  split_ifs at h with h0 h1 h2 hc1 h3 hc2 h4 hc3 <;> cases h
  · obtain ⟨c, hc⟩ := Utf8.exists_char (v := (string 0).toNat) (Or.inl (by omega))
    rw [if_pos (by omega), UInt8.ofNat_toNat] at hc
    exact ⟨c, hc⟩
  · obtain ⟨hlow, hhigh⟩ := hc1
    obtain ⟨c, hc⟩ := Utf8.exists_char (v := (string 0).toNat % 32 * 64 + (string 1).toNat % 64)
      (Or.inl (by omega))
    rw [if_neg (by omega), if_pos (by omega), ← eq_ofNat (b := string 0) (by omega),
      ← eq_ofNat (b := string 1) (by omega)] at hc
    exact ⟨c, hc⟩
  · obtain ⟨⟨⟨hlow1, hhigh1⟩, hlow2, hhigh2⟩, hcp, hsurrogate⟩ := hc2
    unfold threeBits at hcp hsurrogate
    obtain ⟨c, hc⟩ := Utf8.exists_char
      (v := ((string 0).toNat % 16 * 64 + (string 1).toNat % 64) * 64 + (string 2).toNat % 64)
      (hsurrogate.imp_right fun h => ⟨h, by omega⟩)
    rw [if_neg (by omega), if_neg (by omega), if_pos (by omega),
      ← eq_ofNat (b := string 0) (by omega), ← eq_ofNat (b := string 1) (by omega),
      ← eq_ofNat (b := string 2) (by omega)] at hc
    exact ⟨c, hc⟩
  · obtain ⟨⟨⟨hlow1, hhigh1⟩, ⟨hlow2, hhigh2⟩, hlow3, hhigh3⟩, hcp, hmax⟩ := hc3
    unfold fourBits at hcp hmax
    obtain ⟨c, hc⟩ := Utf8.exists_char
      (v := (((string 0).toNat % 8 * 64 + (string 1).toNat % 64) * 64 + (string 2).toNat % 64) *
        64 + (string 3).toNat % 64) (Or.inr ⟨by omega, by omega⟩)
    rw [if_neg (by omega), if_neg (by omega), if_neg (by omega),
      ← eq_ofNat (b := string 0) (by omega), ← eq_ofNat (b := string 1) (by omega),
      ← eq_ofNat (b := string 2) (by omega), ← eq_ofNat (b := string 3) (by omega)] at hc
    exact ⟨c, hc⟩

/-- All bytes of a character but the first one are continuation bytes. -/
theorem cont_of_encode {c : Char} {string : ℕ → UInt8} {n : ℕ}
    (h : String.utf8EncodeChar c = firstBytes string n) {k : ℕ} (hpos : 0 < k) (hk : k < n) :
    Cont (string k).toNat := by
  have hall : ∀ b ∈ (String.utf8EncodeChar c).tail, Cont b.toNat := by
    unfold String.utf8EncodeChar
    simp only
    split_ifs
    · exact fun b hb => by cases hb
    · simp only [List.tail_cons, List.forall_mem_cons]
      exact ⟨cont_tail _, fun b hb => by cases hb⟩
    · simp only [List.tail_cons, List.forall_mem_cons]
      exact ⟨cont_tail _, cont_tail _, fun b hb => by cases hb⟩
    · simp only [List.tail_cons, List.forall_mem_cons]
      exact ⟨cont_tail _, cont_tail _, cont_tail _, fun b hb => by cases hb⟩
  obtain ⟨m, rfl⟩ := Nat.exists_eq_succ_of_ne_zero (Nat.ne_zero_of_lt hpos)
  refine hall _ (List.mem_of_getElem? (i := m) ?_)
  rw [h, List.getElem?_tail, firstBytes, List.getElem?_map, List.getElem?_range hk]
  rfl

/-! ## Strings -/

/-- The loop accepts what begins with characters up to the end of the string or behind it; what is
behind it belongs to the last character. -/
theorem validLoop_iff : ∀ (rounds : ℕ) (string : ℕ → UInt8) (left : ℕ), left ≤ rounds →
    (validLoop rounds string left = true ↔ ∃ n ≥ left, Valid (firstBytes string n) ∧
      ∀ k, left ≤ k → k < n → Cont (string k).toNat) := by
  intro rounds
  induction rounds with
  | zero =>
    intro string left hle
    rw [Nat.le_zero.mp hle]
    exact iff_of_true rfl ⟨0, Nat.le_refl 0, Utf8.valid_nil, fun k _ hk => by omega⟩
  | succ rounds ih =>
    intro string left hle
    cases left with
    | zero =>
      exact iff_of_true rfl ⟨0, Nat.le_refl 0, Utf8.valid_nil, fun k _ hk => by omega⟩
    | succ left =>
      rw [validLoop]
      constructor
      · intro h
        cases hverify : verifyUtf8Sequence string with
        | none =>
          rw [hverify] at h
          cases h
        | some len =>
          rw [hverify] at h
          obtain ⟨c, hc⟩ := encode_of_verify hverify
          have hpos := length_pos_of_encode hc
          obtain ⟨n, hn, hvalid, hcont⟩ := (ih _ _ (by omega)).mp h
          refine ⟨len + n, by omega, ?_, fun k hk hkn => ?_⟩
          · rw [firstBytes_add, ← hc]
            exact (Utf8.valid_char c).append hvalid
          · by_cases hlen : k < len
            · exact cont_of_encode hc (by omega) hlen
            · have hk' := hcont (k - len) (by omega) (by omega)
              rwa [Nat.add_sub_cancel' (by omega)] at hk'
      · rintro ⟨n, hn, hvalid, hcont⟩
        rcases Utf8.valid_cases hvalid with hnil | ⟨c, t, hsplit, ht⟩
        · have hlen := congrArg List.length hnil
          rw [length_firstBytes, List.length_nil] at hlen
          omega
        · obtain ⟨m, rfl, hc, hrest⟩ := firstBytes_split hsplit
          have hpos := length_pos_of_encode hc
          rw [verify_encode hc]
          refine (ih _ _ (by omega)).mpr ⟨_, by omega, hrest ▸ ht, fun k hk hkm => ?_⟩
          exact hcont _ (by omega) (by omega)

/-- `is_valid_utf8` accepts exactly what is valid UTF-8 up to the end of the string or up to
continuation bytes that follow it in memory. If no such byte follows, as with the NUL of every
string, it accepts exactly what is valid UTF-8. -/
theorem is_valid_utf8_iff (string : ℕ → UInt8) (stringLen : ℕ) :
    (isValidUtf8 string stringLen = true ↔
      ∃ n ≥ stringLen, (firstBytes string n).toByteArray.IsValidUTF8 ∧
        ∀ k, stringLen ≤ k → k < n → isCont (string k) = true) ∧
    (isCont (string stringLen) = false → (isValidUtf8 string stringLen = true ↔
      (firstBytes string stringLen).toByteArray.IsValidUTF8)) := by
  have hiff := validLoop_iff stringLen string stringLen (Nat.le_refl _)
  simp only [← isCont_iff, Utf8.valid_iff] at hiff
  refine ⟨hiff, fun hbehind => hiff.trans ⟨?_, fun h => ⟨stringLen, Nat.le_refl _, h, ?_⟩⟩⟩
  · rintro ⟨n, hn, hvalid, hcont⟩
    have hend : n = stringLen := by
      by_contra hne
      rw [hcont stringLen (Nat.le_refl _) (by omega)] at hbehind
      cases hbehind
    rwa [← hend]
  · exact fun k hk hkn => absurd hkn (Nat.not_lt_of_le hk)

theorem firstBytes_memoryOf (s : List UInt8) : firstBytes (memoryOf s) s.length = s := by
  refine List.ext_getElem (length_firstBytes _ _) fun i hi hi' => ?_
  have hget : (firstBytes (memoryOf s) s.length)[i] = memoryOf s i := by
    simp only [firstBytes, List.getElem_map, List.getElem_range]
  rw [hget, memoryOf, List.getD_eq_getElem?_getD, List.getElem?_eq_getElem hi']
  rfl

theorem isValidString_iff (s : List UInt8) : isValidString s = true ↔ Valid s := by
  have hbehind : isCont (memoryOf s s.length) = false := by
    unfold memoryOf
    rw [List.getD_eq_getElem?_getD, List.getElem?_eq_none (Nat.le_refl _)]
    rfl
  have hiff := (is_valid_utf8_iff (memoryOf s) s.length).2 hbehind
  rwa [firstBytes_memoryOf, ← Utf8.valid_iff] at hiff

end CDevHws.Hw08
