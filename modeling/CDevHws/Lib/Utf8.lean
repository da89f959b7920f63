import Mathlib.Data.List.Basic

/-!
# UTF-8 texts

The bytes of a text are the encodings of its characters, one after the other. A byte below 80 is
always a character of its own, so that a text may be cut at such a byte.
-/

namespace Utf8

/-- The bytes are the UTF-8 encoding of some text. -/
def Valid (s : List UInt8) : Prop := ∃ text : List Char, s = text.flatMap String.utf8EncodeChar

theorem valid_iff (s : List UInt8) : Valid s ↔ s.toByteArray.IsValidUTF8 := by
  constructor
  · rintro ⟨text, rfl⟩
    exact ⟨text, rfl⟩
  · rintro ⟨text, htext⟩
    exact ⟨text, List.toByteArray_inj.mp htext⟩

theorem valid_nil : Valid [] := ⟨[], rfl⟩

theorem valid_char (c : Char) : Valid (String.utf8EncodeChar c) :=
  ⟨[c], (List.append_nil _).symm⟩

theorem Valid.append {s t : List UInt8} (hs : Valid s) (ht : Valid t) : Valid (s ++ t) := by
  obtain ⟨text, rfl⟩ := hs
  obtain ⟨text', rfl⟩ := ht
  exact ⟨text ++ text', List.flatMap_append.symm⟩

/-- A text is empty or begins with a character. -/
theorem valid_cases {s : List UInt8} (h : Valid s) :
    s = [] ∨ ∃ c t, s = String.utf8EncodeChar c ++ t ∧ Valid t := by
  obtain ⟨text, rfl⟩ := h
  cases text with
  | nil => exact Or.inl rfl
  | cons c text => exact Or.inr ⟨c, _, List.flatMap_cons, text, rfl⟩

theorem le_ofNat {n : ℕ} (h : 0x80 ≤ n) (h' : n < 0x100) : (0x80 : UInt8) ≤ UInt8.ofNat n := by
  rw [UInt8.le_iff_toNat_le, UInt8.toNat_ofNat', Nat.mod_eq_of_lt h']
  exact h

/-- A character is one byte below 80, or all its bytes are at least 80. -/
theorem encode_cases (c : Char) : (∃ b < 0x80, String.utf8EncodeChar c = [b]) ∨
    (String.utf8EncodeChar c ≠ [] ∧ ∀ b ∈ String.utf8EncodeChar c, 0x80 ≤ b) := by
  have htail (n : ℕ) : (0x80 : UInt8) ≤ UInt8.ofNat (n % 0x40 + 0x80) :=
    le_ofNat (Nat.le_add_left _ _) (by omega)
  unfold String.utf8EncodeChar
  simp only
  split_ifs with h1 h2 h3
  · refine Or.inl ⟨_, ?_, rfl⟩
    rw [UInt8.lt_iff_toNat_lt, UInt8.toNat_ofNat', Nat.mod_eq_of_lt (by omega)]
    exact Nat.lt_succ_of_le h1
  · refine Or.inr ⟨List.cons_ne_nil _ _, ?_⟩
    simp only [List.forall_mem_cons]
    exact ⟨le_ofNat (by omega) (by omega), htail _, fun b hb => by cases hb⟩
  · refine Or.inr ⟨List.cons_ne_nil _ _, ?_⟩
    simp only [List.forall_mem_cons]
    exact ⟨le_ofNat (by omega) (by omega), htail _, htail _, fun b hb => by cases hb⟩
  · refine Or.inr ⟨List.cons_ne_nil _ _, ?_⟩
    simp only [List.forall_mem_cons]
    exact ⟨le_ofNat (by omega) (by omega), htail _, htail _, htail _, fun b hb => by cases hb⟩

/-- The encoding of the character with this number. -/
theorem exists_char {v : ℕ} (h : v.isValidChar) : ∃ c : Char, String.utf8EncodeChar c =
    if v ≤ 0x7f then [UInt8.ofNat v]
    else if v ≤ 0x7ff then [UInt8.ofNat (v / 64 % 0x20 + 0xc0), UInt8.ofNat (v % 0x40 + 0x80)]
    else if v ≤ 0xffff then
      [UInt8.ofNat (v / 4096 % 0x10 + 0xe0), UInt8.ofNat (v / 64 % 0x40 + 0x80),
        UInt8.ofNat (v % 0x40 + 0x80)]
    else
      [UInt8.ofNat (v / 262144 % 0x08 + 0xf0), UInt8.ofNat (v / 4096 % 0x40 + 0x80),
        UInt8.ofNat (v / 64 % 0x40 + 0x80), UInt8.ofNat (v % 0x40 + 0x80)] :=
  ⟨Char.ofNatAux v h, rfl⟩

theorem valid_singleton {b : UInt8} (hb : b < 0x80) : Valid [b] := by
  rw [UInt8.lt_iff_toNat_lt] at hb
  have hle : b.toNat ≤ 0x7f := Nat.le_of_lt_succ hb
  obtain ⟨c, hc⟩ := exists_char (v := b.toNat) (Or.inl (by omega))
  rw [if_pos hle, UInt8.ofNat_toNat] at hc
  rw [← hc]
  exact valid_char c

/-- A text can be cut at every byte below 80. -/
theorem valid_cut {a s : List UInt8} {b : UInt8} (hb : b < 0x80) :
    Valid (a ++ b :: s) ↔ Valid a ∧ Valid s := by
  constructor
  · rintro ⟨text, htext⟩
    induction text generalizing a with
    | nil => exact absurd htext (List.append_ne_nil_of_right_ne_nil a (List.cons_ne_nil b s))
    | cons c text ih =>
      rw [List.flatMap_cons] at htext
      rcases List.append_eq_append_iff.mp htext with ⟨a', hchar, hrest⟩ | ⟨a', ha, hrest⟩
      · cases a' with
        | nil =>
          obtain ⟨-, hs⟩ := ih (a := []) hrest
          rw [List.append_nil] at hchar
          rw [← hchar]
          exact ⟨valid_char c, hs⟩
        | cons b' a' =>
          -- the byte is in the character, which then is this byte
          obtain ⟨rfl, hs⟩ := List.cons.inj hrest
          have hmem : b ∈ String.utf8EncodeChar c := by
            rw [hchar]
            exact List.mem_append_right a List.mem_cons_self
          rcases encode_cases c with ⟨b', -, hone⟩ | ⟨-, hhigh⟩
          · rw [hone] at hchar
            have hlength := congrArg List.length hchar
            rw [List.length_singleton, List.length_append, List.length_cons] at hlength
            have ha : a = [] := List.length_eq_zero_iff.mp (by omega)
            have ha' : a' = [] := List.length_eq_zero_iff.mp (by omega)
            rw [ha, hs, ha']
            exact ⟨valid_nil, text, rfl⟩
          · exact absurd hb (UInt8.not_lt.mpr (hhigh b hmem))
      · obtain ⟨hvalid, hs⟩ := ih hrest.symm
        rw [ha]
        exact ⟨(valid_char c).append hvalid, hs⟩
  · rintro ⟨ha, hs⟩
    exact ha.append ((valid_singleton hb).append hs)

theorem valid_cons {s : List UInt8} {b : UInt8} (hb : b < 0x80) : Valid (b :: s) ↔ Valid s :=
  (valid_cut (a := []) hb).trans (and_iff_right valid_nil)

end Utf8
