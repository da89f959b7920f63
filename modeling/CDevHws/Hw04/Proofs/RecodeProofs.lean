import CDevHws.Hw04.Recode
import CDevHws.Lib.PrefixCode
import Mathlib.Data.List.Nodup

/-!
# Proofs: the output is UTF-8, and nothing is lost

Up to FFFF the octets of a code point are its UTF-8 encoding. The tables hold nothing else, but for
the -1 of the byte that CP-1251 does not assign; its four octets are no UTF-8, yet they differ from
those of all other bytes.
-/

namespace CDevHws.Hw04

/-! ## The octets of a symbol -/

/-- An octet with these higher and lower bits. -/
def octet (higher : UInt8) (lower : UInt32) : UInt8 := higher ||| lower.toUInt8

/-- The octets that are written for a code point. -/
def octets (uniSymbol : UInt32) : List UInt8 :=
  if uniSymbol ≤ 0x7F then [octet 0 (uniSymbol &&& 0x7F)]
  else if uniSymbol ≤ 0x7FF then
    [octet 0xC0 (uniSymbol >>> 6 &&& 0x1F), octet 0x80 (uniSymbol &&& 0x3F)]
  else if uniSymbol ≤ 0xFFFF then
    [octet 0xE0 (uniSymbol >>> 12 &&& 0xF), octet 0x80 (uniSymbol >>> 6 &&& 0x3F),
      octet 0x80 (uniSymbol &&& 0x3F)]
  else
    [octet 0xE0 (uniSymbol >>> 18 &&& 0x7), octet 0x80 (uniSymbol >>> 12 &&& 0x3F),
      octet 0x80 (uniSymbol >>> 6 &&& 0x3F), octet 0x80 (uniSymbol &&& 0x3F)]

/-- What was in the buffer before does not matter. -/
theorem setBits_spec (uniSymbol : UInt32) (utf8 : Octets) :
    ∃ utf8₁ utf8₂, setHigherBits utf8 (countOctets uniSymbol) = some utf8₁ ∧
      setLowerBits utf8₁ (countOctets uniSymbol) uniSymbol = some utf8₂ ∧
      utf8₂.toList.take (countOctets uniSymbol) = octets uniSymbol := by
  obtain ⟨⟨l⟩, hl⟩ := utf8
  obtain ⟨a, b, c, d, rfl⟩ : ∃ a b c d, l = [a, b, c, d] := by
    rcases l with _ | ⟨a, _ | ⟨b, _ | ⟨c, _ | ⟨d, _ | ⟨e, l⟩⟩⟩⟩⟩
    all_goals simp at hl
    exact ⟨a, b, c, d, rfl⟩
  unfold octets countOctets
  by_cases h1 : uniSymbol ≤ 0x7F
  · simp only [if_pos h1]
    exact ⟨_, _, rfl, rfl, rfl⟩
  by_cases h2 : uniSymbol ≤ 0x7FF
  · simp only [if_neg h1, if_pos h2]
    exact ⟨_, _, rfl, rfl, rfl⟩
  by_cases h3 : uniSymbol ≤ 0xFFFF
  · simp only [if_neg h1, if_neg h2, if_pos h3]
    exact ⟨_, _, rfl, rfl, rfl⟩
  · simp only [if_neg h1, if_neg h2, if_neg h3]
    exact ⟨_, _, rfl, rfl, rfl⟩

theorem encodeSymbol_spec (encoding : Encoding) (symbol : UInt8) (utf8 : Octets) :
    ∃ nOctets utf8', encodeSymbol encoding symbol utf8 = some (nOctets, utf8') ∧
      utf8'.toList.take nOctets = octets (getUniSymbol encoding symbol) := by
  obtain ⟨utf8₁, utf8₂, hhigher, hlower, htake⟩ :=
    setBits_spec (getUniSymbol encoding symbol) utf8
  refine ⟨_, utf8₂, ?_, htake⟩
  unfold encodeSymbol
  simp only [hhigher, hlower, Option.bind_eq_bind, Option.bind_some]
  rfl

/-- The output is the octets of all symbols, one after the other. -/
theorem recode_eq (encoding : Encoding) (input : List UInt8) : recode encoding input =
    some (input.flatMap fun c => octets (getUniSymbol encoding c)) := by
  have hloop : ∀ (input : List UInt8) (utf8 : Octets), recodeLoop encoding utf8 input =
      some (input.flatMap fun c => octets (getUniSymbol encoding c)) := by
    intro input
    induction input with
    | nil => exact fun utf8 => rfl
    | cons c input ih =>
      intro utf8
      obtain ⟨nOctets, utf8', henc, htake⟩ := encodeSymbol_spec encoding c utf8
      unfold recodeLoop
      rw [henc, List.flatMap_cons, ← htake]
      simp only [Option.bind_eq_bind, Option.bind_some, ih utf8']
      rfl
  exact hloop input _

theorem octet_and (higher : UInt8) (bits mask : UInt32) :
    octet higher (bits &&& mask) = bits.toUInt8 &&& mask.toUInt8 ||| higher := by
  unfold octet
  rw [UInt32.toUInt8_and, UInt8.or_comm]

/-- Up to FFFF the octets are the UTF-8 encoding. -/
theorem octets_eq_utf8EncodeChar {c : Char} (h : c.val ≤ 0xFFFF) :
    octets c.val = String.utf8EncodeChar c := by
  rw [String.utf8EncodeChar_eq_utf8EncodeCharFast]
  unfold octets String.utf8EncodeCharFast
  by_cases h1 : c.val ≤ 0x7F
  · have hmask : c.val &&& 0x7F = c.val := by
      rw [UInt32.le_iff_toNat_le] at h1
      apply UInt32.toNat_inj.mp
      rw [UInt32.toNat_and]
      have hmod := Nat.and_two_pow_sub_one_eq_mod c.val.toNat 7
      exact hmod.trans (Nat.mod_eq_of_lt (Nat.lt_succ_of_le h1))
    rw [if_pos h1, if_pos h1, hmask]
    unfold octet
    rw [UInt8.zero_or]
  by_cases h2 : c.val ≤ 0x7FF
  · rw [if_neg h1, if_neg h1, if_pos h2, if_pos h2, octet_and, octet_and]
    rfl
  · rw [if_neg h1, if_neg h1, if_neg h2, if_neg h2, if_pos h, if_pos h, octet_and, octet_and,
      octet_and]
    rfl

/-! ## The tables -/

/-- What is in the tables: -1 for the byte 98 of CP-1251, and else code points in the range of three
octets. -/
theorem codepage_cases (encoding : Encoding) (i : Fin 128) :
    encoding = .cp1251 ∧ i = 24 ∨
      0x80 ≤ (codepageTable encoding).get i ∧ (codepageTable encoding).get i < 0x7FFF := by
  revert i
  cases encoding
  all_goals decide +kernel

theorem codepage_nodup (encoding : Encoding) : (codepageTable encoding).toList.Nodup := by
  -- numbers are compared faster than words
  refine List.Nodup.of_map UInt32.toNat ?_
  cases encoding
  all_goals decide +kernel

theorem codepage_injective (encoding : Encoding) :
    Function.Injective (codepageTable encoding).get := by
  intro i j heq
  have hlen : (codepageTable encoding).toList.length = 128 := Vector.length_toList
  have hget := List.nodup_iff_injective_get.mp (codepage_nodup encoding)
  have hij : (⟨i, by omega⟩ : Fin (codepageTable encoding).toList.length) = ⟨j, by omega⟩ :=
    hget heq
  exact Fin.ext (Fin.mk.inj hij)

theorem getUniSymbol_of_ge (encoding : Encoding) {symbol : UInt8} (h : 128 ≤ symbol.toNat) :
    ∃ i : Fin 128, symbol.toNat = i + 128 ∧
      getUniSymbol encoding symbol = (codepageTable encoding).get i := by
  have hlt := symbol.toNat_lt
  refine ⟨⟨symbol.toNat - 128, by omega⟩, by simp only; omega, ?_⟩
  unfold getUniSymbol
  rw [dif_pos h]

theorem getUniSymbol_of_lt (encoding : Encoding) {symbol : UInt8} (h : symbol.toNat < 128) :
    getUniSymbol encoding symbol = symbol.toUInt32 := by
  unfold getUniSymbol
  rw [dif_neg (by omega)]

/-- The byte 98 is not assigned. -/
theorem getUniSymbol_unassigned : getUniSymbol .cp1251 0x98 = -1 := rfl

/-- All others are. -/
theorem getUniSymbol_lt {encoding : Encoding} {symbol : UInt8}
    (h : ¬ (encoding = .cp1251 ∧ symbol = 0x98)) : getUniSymbol encoding symbol < 0x7FFF := by
  rcases Nat.lt_or_ge symbol.toNat 128 with hlow | hhigh
  · have hbound : (0x7FFF : UInt32).toNat = 0x7FFF := rfl
    rw [getUniSymbol_of_lt encoding hlow, UInt32.lt_iff_toNat_lt, UInt8.toNat_toUInt32]
    omega
  · obtain ⟨i, hi, hsymbol⟩ := getUniSymbol_of_ge encoding hhigh
    rw [hsymbol]
    rcases codepage_cases encoding i with ⟨henc, rfl⟩ | ⟨-, hlt⟩
    · exact absurd ⟨henc, UInt8.toNat_inj.mp hi⟩ h
    · exact hlt

theorem getUniSymbol_injective (encoding : Encoding) :
    Function.Injective (getUniSymbol encoding) := by
  -- a table has no value of a byte below 80
  have hmixed : ∀ a b : UInt8, a.toNat < 128 → 128 ≤ b.toNat →
      getUniSymbol encoding a ≠ getUniSymbol encoding b := by
    intro a b ha hb heq
    obtain ⟨i, hi, hsymbol⟩ := getUniSymbol_of_ge encoding hb
    have hge : 0x80 ≤ ((codepageTable encoding).get i).toNat := by
      rcases codepage_cases encoding i with ⟨rfl, rfl⟩ | ⟨hge, -⟩
      · decide
      · exact UInt32.le_iff_toNat_le.mp hge
    rw [getUniSymbol_of_lt encoding ha, hsymbol] at heq
    rw [← heq, UInt8.toNat_toUInt32] at hge
    omega
  intro a b heq
  rcases Nat.lt_or_ge a.toNat 128 with ha | ha
  · rcases Nat.lt_or_ge b.toNat 128 with hb | hb
    · rw [getUniSymbol_of_lt encoding ha, getUniSymbol_of_lt encoding hb] at heq
      have hnat := congrArg UInt32.toNat heq
      rw [UInt8.toNat_toUInt32, UInt8.toNat_toUInt32] at hnat
      exact UInt8.toNat_inj.mp hnat
    · exact absurd heq (hmixed a b ha hb)
  · rcases Nat.lt_or_ge b.toNat 128 with hb | hb
    · exact absurd heq.symm (hmixed b a hb ha)
    · obtain ⟨i, hi, hsymbol⟩ := getUniSymbol_of_ge encoding ha
      obtain ⟨j, hj, hsymbol'⟩ := getUniSymbol_of_ge encoding hb
      rw [hsymbol, hsymbol'] at heq
      obtain rfl := codepage_injective encoding heq
      exact UInt8.toNat_inj.mp (hi.trans hj.symm)

/-! ## UTF-8 -/

theorem exists_char {u : UInt32} (h : u < 0x7FFF) : ∃ c : Char, c.val = u := by
  have hbound : (0x7FFF : UInt32).toNat = 0x7FFF := rfl
  rw [UInt32.lt_iff_toNat_lt] at h
  have hvalid : u.toNat < 0xD800 := by omega
  exact ⟨⟨u, Or.inl hvalid⟩, rfl⟩

/-- The octets of an assigned byte are the encoding of its code point. -/
theorem octets_of_assigned {encoding : Encoding} {symbol : UInt8}
    (h : ¬ (encoding = .cp1251 ∧ symbol = 0x98)) :
    ∃ c : Char, c.val = getUniSymbol encoding symbol ∧
      octets (getUniSymbol encoding symbol) = String.utf8EncodeChar c := by
  have hlt := getUniSymbol_lt h
  obtain ⟨c, hc⟩ := exists_char hlt
  refine ⟨c, hc, ?_⟩
  have hbound : (0x7FFF : UInt32).toNat = 0x7FFF := rfl
  have hbound' : (0xFFFF : UInt32).toNat = 0xFFFF := rfl
  rw [← hc]
  rw [← hc, UInt32.lt_iff_toNat_lt] at hlt
  apply octets_eq_utf8EncodeChar
  rw [UInt32.le_iff_toNat_le]
  omega

/-- For every input the program writes an output. It is well-formed UTF-8 for the code points that
the table assigns to the bytes, one for each byte, if and only if no byte is the one that CP-1251
does not assign. -/
theorem recode_utf8_iff (encoding : Encoding) (input : List UInt8) :
    ∃ output, recode encoding input = some output ∧
      ((∃ text : List Char, output.toByteArray.utf8Decode? = some text.toArray ∧
        text.map Char.val = input.map (getUniSymbol encoding)) ↔
        ¬ (encoding = .cp1251 ∧ 0x98 ∈ input)) := by
  refine ⟨_, recode_eq encoding input, ?_, ?_⟩
  · rintro ⟨text, -, hvals⟩ ⟨rfl, hmem⟩
    -- no code point has the value -1
    have hvalue : (-1 : UInt32) ∈ text.map Char.val := by
      rw [hvals, ← getUniSymbol_unassigned]
      exact List.mem_map_of_mem hmem
    obtain ⟨c, -, hc⟩ := List.mem_map.mp hvalue
    have hle := c.valid
    rw [hc] at hle
    exact absurd hle (by decide)
  · intro hassigned
    have htext : ∃ text : List Char,
        (input.flatMap fun c => octets (getUniSymbol encoding c)) =
          text.flatMap String.utf8EncodeChar ∧
        text.map Char.val = input.map (getUniSymbol encoding) := by
      induction input with
      | nil => exact ⟨[], rfl, rfl⟩
      | cons symbol input ih =>
        obtain ⟨text, hout, hvals⟩ :=
          ih fun h => hassigned ⟨h.1, List.mem_cons_of_mem _ h.2⟩
        obtain ⟨c, hc, hoctets⟩ := octets_of_assigned fun h =>
          hassigned ⟨h.1, h.2 ▸ List.mem_cons_self⟩
        refine ⟨c :: text, ?_, ?_⟩
        · rw [List.flatMap_cons, List.flatMap_cons, hout, hoctets]
        · rw [List.map_cons, List.map_cons, hvals, hc]
    obtain ⟨text, hout, hvals⟩ := htext
    refine ⟨text, ?_, hvals⟩
    rw [hout]
    exact List.utf8Decode?_utf8Encode

/-- The byte 98 in CP-1251 gives four octets that are not UTF-8. -/
theorem recode_unassigned : recode .cp1251 [0x98] = some [0xE7, 0xBF, 0xBF, 0xBF] ∧
    [0xE7, 0xBF, 0xBF, 0xBF].toByteArray.utf8Decode? = none := by
  refine ⟨rfl, ?_⟩
  have hsplit : [0xE7, 0xBF, 0xBF, 0xBF].toByteArray =
      ['\u7FFF'].utf8Encode ++ [0xBF].toByteArray := rfl
  rw [hsplit, ByteArray.utf8Decode?_utf8Encode_singleton_append, Option.map_eq_none_iff,
    ← Option.not_isSome_iff_eq_none, ByteArray.isSome_utf8Decode?_iff]
  intro hvalid
  have hfirst := hvalid.isUTF8FirstByte_getElem_zero Nat.one_pos
  revert hfirst
  decide

/-! ## Nothing is lost -/

/-- The octets of every byte begin with the encoding of a character, which tells the byte. -/
theorem octets_begin (encoding : Encoding) (symbol : UInt8) : ∃ (c : Char) (tail : List UInt8),
    octets (getUniSymbol encoding symbol) = String.utf8EncodeChar c ++ tail ∧
      (c.val = getUniSymbol encoding symbol ∧ c.val < 0x7FFF ∨
        c.val = 0x7FFF ∧ getUniSymbol encoding symbol = -1) := by
  by_cases h : encoding = .cp1251 ∧ symbol = 0x98
  · obtain ⟨rfl, rfl⟩ := h
    exact ⟨'\u7FFF', [0xBF], rfl, Or.inr ⟨rfl, rfl⟩⟩
  · obtain ⟨c, hc, hoctets⟩ := octets_of_assigned h
    refine ⟨c, [], ?_, Or.inl ⟨hc, hc ▸ getUniSymbol_lt h⟩⟩
    rw [hoctets, List.append_nil]

theorem octets_isPrefixCode (encoding : Encoding) :
    PrefixCode.IsPrefixCode fun symbol => octets (getUniSymbol encoding symbol) where
  ne_nil := by
    intro symbol hnil
    obtain ⟨c, tail, hoctets, -⟩ := octets_begin encoding symbol
    rw [hoctets] at hnil
    exact String.utf8EncodeChar_ne_nil (List.append_eq_nil_iff.mp hnil).1
  eq_of_append := by
    intro a b rest rest' heq
    obtain ⟨c, tail, hoctets, hc⟩ := octets_begin encoding a
    obtain ⟨c', tail', hoctets', hc'⟩ := octets_begin encoding b
    have hdecode : ∀ (c : Char) (tail rest : List UInt8),
        (String.utf8EncodeChar c ++ tail ++ rest).toByteArray.utf8DecodeChar? 0 = some c := by
      intro c tail rest
      rw [List.append_assoc, List.toByteArray_append]
      exact ByteArray.utf8DecodeChar?_utf8EncodeChar_append
    have hsame : c = c' := by
      rw [hoctets, hoctets'] at heq
      have hfirst := hdecode c tail rest
      rw [heq, hdecode] at hfirst
      exact (Option.some.inj hfirst).symm
    subst hsame
    apply getUniSymbol_injective encoding
    rcases hc with ⟨hc, hlt⟩ | ⟨hc, ha⟩
    · rcases hc' with ⟨hc', -⟩ | ⟨hc', -⟩
      · exact hc.symm.trans hc'
      · rw [hc'] at hlt
        exact absurd hlt (UInt32.lt_irrefl _)
    · rcases hc' with ⟨-, hlt⟩ | ⟨-, hb⟩
      · rw [hc] at hlt
        exact absurd hlt (UInt32.lt_irrefl _)
      · exact ha.trans hb.symm

/-- Every input has an output, and different inputs have different ones. -/
theorem recode_injective (encoding : Encoding) : ∃ output : List UInt8 → List UInt8,
    (∀ input, recode encoding input = some (output input)) ∧ Function.Injective output :=
  ⟨_, recode_eq encoding, (octets_isPrefixCode encoding).flatMap_injective⟩

end CDevHws.Hw04
