import CDevHws.Hw04.Proofs.RecodeProofs

/-!
# Proofs: the encoder on its whole range

Four octets begin with the bits of three ones, E0, as three octets do; UTF-8 has four ones there,
F0. So the encoding is right up to FFFF only, which is more than the tables use.
-/

namespace CDevHws.Hw04

/-- A decoder reads the character from the octets and uses up all of them. -/
def Decodes (output : List UInt8) (c : Char) : Prop :=
  output.toByteArray.utf8DecodeChar? 0 = some c ∧ output.length = c.utf8Size

/-- The only octets with this property are the UTF-8 encoding. -/
theorem decodes_iff {output : List UInt8} {c : Char} :
    Decodes output c ↔ output = String.utf8EncodeChar c := by
  constructor
  · rintro ⟨hdecode, hlen⟩
    obtain ⟨⟨⟨rest⟩⟩, hrest⟩ := ByteArray.exists_of_utf8DecodeChar?_eq_some hdecode
    have hsplit : output = String.utf8EncodeChar c ++ rest := by
      rw [← List.toByteArray_inj, List.toByteArray_append, hrest]
      refine congrArg _ ?_
      ext1
      rw [List.data_toByteArray]
    have hrestLen := congrArg List.length hsplit
    rw [List.length_append, String.length_utf8EncodeChar, hlen] at hrestLen
    rw [hsplit, List.eq_nil_of_length_eq_zero (by omega : rest.length = 0), List.append_nil]
  · rintro rfl
    refine ⟨?_, String.length_utf8EncodeChar c⟩
    have hdecode := ByteArray.utf8DecodeChar?_utf8EncodeChar_append (b := ByteArray.empty) (c := c)
    rwa [ByteArray.append_empty] at hdecode

/-- The first octet of four is not the one that UTF-8 has. -/
theorem octets_ne {c : Char} (h : ¬ c.val ≤ 0xFFFF) : octets c.val ≠ String.utf8EncodeChar c := by
  have h1 : ¬ c.val ≤ 0x7F := fun hle => h (UInt32.le_trans hle (by decide))
  have h2 : ¬ c.val ≤ 0x7FF := fun hle => h (UInt32.le_trans hle (by decide))
  rw [String.utf8EncodeChar_eq_utf8EncodeCharFast]
  unfold octets String.utf8EncodeCharFast
  rw [if_neg h1, if_neg h1, if_neg h2, if_neg h2, if_neg h, if_neg h]
  intro heq
  obtain ⟨hlead, -⟩ := List.cons.inj heq
  rw [octet_and] at hlead
  -- the bit of the fourth one
  have hbit := congrArg (fun lead => lead.toBitVec[4]) hlead
  simp at hbit

/-- For every character, and whatever was in the buffer before: the higher and the lower bits are
set, and the octets are the UTF-8 encoding, which a decoder reads back, if and only if the character
is not beyond FFFF. -/
theorem encoder_utf8_iff (c : Char) (utf8 : Octets) : ∃ utf8₁ utf8₂,
    setHigherBits utf8 (countOctets c.val) = some utf8₁ ∧
    setLowerBits utf8₁ (countOctets c.val) c.val = some utf8₂ ∧
    (utf8₂.toList.take (countOctets c.val) = String.utf8EncodeChar c ↔ c.val ≤ 0xFFFF) ∧
    (Decodes (utf8₂.toList.take (countOctets c.val)) c ↔ c.val ≤ 0xFFFF) := by
  obtain ⟨utf8₁, utf8₂, hhigher, hlower, htake⟩ := setBits_spec c.val utf8
  have hiff : utf8₂.toList.take (countOctets c.val) = String.utf8EncodeChar c ↔
      c.val ≤ 0xFFFF := by
    rw [htake]
    constructor
    · intro heq
      by_contra h
      exact octets_ne h heq
    · exact octets_eq_utf8EncodeChar
  exact ⟨utf8₁, utf8₂, hhigher, hlower, hiff, decodes_iff.trans hiff⟩

/-- The character 1F600. -/
def smiley : Char := Char.ofNat 0x1F600

/-- Its first octet is E0, and not F0. -/
theorem encoder_fails : ∃ utf8₁ utf8₂,
    setHigherBits (Vector.replicate 4 0) (countOctets smiley.val) = some utf8₁ ∧
    setLowerBits utf8₁ (countOctets smiley.val) smiley.val = some utf8₂ ∧
    utf8₂.toList.take (countOctets smiley.val) = [0xE0, 0x9F, 0x98, 0x80] ∧
    ¬ Decodes [0xE0, 0x9F, 0x98, 0x80] smiley := by
  refine ⟨_, _, rfl, rfl, by decide, fun h => ?_⟩
  exact absurd (decodes_iff.mp h) (by decide)

end CDevHws.Hw04
