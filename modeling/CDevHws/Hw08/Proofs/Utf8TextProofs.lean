import CDevHws.Hw08.Proofs.JsonRoundTripProofs
import CDevHws.Hw08.Proofs.Utf8Proofs

/-!
# Proofs: texts in UTF-8

What `json_parse_string` takes out of a valid UTF-8 text is valid UTF-8 again, and so is what the
values are written as. Quotes and backslashes are characters of their own, so that no character is
cut in two; and an escape stands for a character, also if it is written as two surrogates.
-/

namespace CDevHws.Hw08

open Utf8 (Valid)

variable {N : Type}

/-! ## Escapes -/

theorem hexCharToInt_bounds {c : UInt8} {x : ℕ} (h : hexCharToInt c = some x) :
    c < 0x80 ∧ x < 16 := by
  have hall : ∀ c, (hexCharToInt c).all fun x => decide (c < 0x80 ∧ x < 16) :=
    forall_byte (by decide +kernel)
  have hc := hall c
  rw [h] at hc
  exact of_decide_eq_true hc

theorem unescape_bounds {c d : UInt8} (h : unescape c = some d) : c < 0x80 ∧ d < 0x80 := by
  have hall : ∀ c, (unescape c).all fun d => decide (c < 0x80 ∧ d < 0x80) :=
    forall_byte (by decide +kernel)
  have hc := hall c
  rw [h] at hc
  exact of_decide_eq_true hc

/-- Four hexadecimal digits are four characters, and their number is less than 10000. -/
theorem parseUtf16Hex_valid {s : List UInt8} {cp : ℕ} (hs : Valid s)
    (h : parseUtf16Hex s = some cp) : Valid (s.drop 4) ∧ cp < 0x10000 := by
  rcases s with _ | ⟨c1, _ | ⟨c2, _ | ⟨c3, _ | ⟨c4, s⟩⟩⟩⟩
  · cases h
  · cases h
  · cases h
  · cases h
  obtain ⟨x1, h1, h⟩ := Option.bind_eq_some_iff.mp h
  obtain ⟨x2, h2, h⟩ := Option.bind_eq_some_iff.mp h
  obtain ⟨x3, h3, h⟩ := Option.bind_eq_some_iff.mp h
  obtain ⟨x4, h4, h⟩ := Option.bind_eq_some_iff.mp h
  cases h
  obtain ⟨hc1, hx1⟩ := hexCharToInt_bounds h1
  obtain ⟨hc2, hx2⟩ := hexCharToInt_bounds h2
  obtain ⟨hc3, hx3⟩ := hexCharToInt_bounds h3
  obtain ⟨hc4, hx4⟩ := hexCharToInt_bounds h4
  rw [Utf8.valid_cons hc1, Utf8.valid_cons hc2, Utf8.valid_cons hc3, Utf8.valid_cons hc4] at hs
  refine ⟨hs, ?_⟩
  have hshift1 : x1 <<< 12 < 2 ^ 16 := by rw [Nat.shiftLeft_eq]; omega
  have hshift2 : x2 <<< 8 < 2 ^ 16 := by rw [Nat.shiftLeft_eq]; omega
  have hshift3 : x3 <<< 4 < 2 ^ 16 := by rw [Nat.shiftLeft_eq]; omega
  have hshift4 : x4 < 2 ^ 16 := by omega
  exact Nat.or_lt_two_pow (Nat.or_lt_two_pow (Nat.or_lt_two_pow hshift1 hshift2) hshift3) hshift4

/-- The bits of a code point as a number. -/
theorem utf8Byte_eq (cp shift k tag : ℕ) : utf8Byte cp shift (2 ^ k - 1) (tag <<< k) =
    UInt8.ofNat (cp / 2 ^ shift % 2 ^ k + tag <<< k) := by
  unfold utf8Byte
  rw [Nat.and_two_pow_sub_one_eq_mod, Nat.or_comm,
    ← Nat.shiftLeft_add_eq_or_of_lt (Nat.mod_lt _ (Nat.two_pow_pos k)),
    Nat.shiftRight_eq_div_pow, Nat.add_comm]

/-- The four bytes of a lead and a trail surrogate are a character. -/
theorem parseTrail_valid {s written : List UInt8} {lead : ℕ} (hs : Valid s)
    (h : parseTrail lead s = some written) : Valid written ∧ Valid (s.drop 6) := by
  unfold parseTrail at h
  split_ifs at h with htake
  obtain ⟨trail, htrail, hrun⟩ := Option.bind_eq_some_iff.mp h
  split_ifs at hrun with hrange
  rcases s with _ | ⟨c1, _ | ⟨c2, s⟩⟩
  · cases htake
  · cases htake
  obtain ⟨rfl, htail⟩ := List.cons.inj htake
  obtain ⟨rfl, -⟩ := List.cons.inj htail
  rw [Utf8.valid_cons (by decide), Utf8.valid_cons (by decide)] at hs
  obtain ⟨hrest, -⟩ := parseUtf16Hex_valid hs htrail
  refine ⟨?_, hrest⟩
  have hcp : (((lead - 0xD800) &&& 0x3FF) <<< 10 ||| ((trail - 0xDC00) &&& 0x3FF)) < 2 ^ 20 := by
    refine Nat.or_lt_two_pow ?_ ?_
    · have hlt : (lead - 0xD800) &&& 0x3FF < 2 ^ 10 :=
        Nat.and_lt_two_pow _ (by decide)
      rw [Nat.shiftLeft_eq]
      omega
    · exact Nat.and_lt_two_pow _ (by decide)
  generalize (((lead - 0xD800) &&& 0x3FF) <<< 10 ||| ((trail - 0xDC00) &&& 0x3FF)) = bits
    at hrun hcp
  obtain ⟨c, hc⟩ := Utf8.exists_char (v := bits + 0x10000) (Or.inr ⟨by omega, by omega⟩)
  rw [if_neg (by omega), if_neg (by omega), if_neg (by omega)] at hc
  have hwritten : written = String.utf8EncodeChar c := by
    have h0 : utf8Byte (bits + 0x10000) 18 0x07 0xF0 = _ := utf8Byte_eq (bits + 0x10000) 18 3 0x1E
    have h1 : utf8Byte (bits + 0x10000) 12 0x3F 0x80 = _ := utf8Byte_eq (bits + 0x10000) 12 6 2
    have h2 : utf8Byte (bits + 0x10000) 6 0x3F 0x80 = _ := utf8Byte_eq (bits + 0x10000) 6 6 2
    have h3 : utf8Byte (bits + 0x10000) 0 0x3F 0x80 = _ := utf8Byte_eq (bits + 0x10000) 0 6 2
    rw [hc, ← Option.some.inj hrun, h0, h1, h2, h3, Nat.pow_zero, Nat.div_one]
    rfl
  rw [hwritten]
  exact Utf8.valid_char c

/-- An escaped code point is written as a character, and what follows it is cut off at one. -/
theorem parseUtf16_valid {s written : List UInt8} {read : ℕ} (hs : Valid s)
    (h : parseUtf16 s = some (written, read)) : Valid written ∧ Valid (s.drop read) := by
  obtain ⟨cp, hcp, hrun⟩ := Option.bind_eq_some_iff.mp h
  obtain ⟨hrest, hlt⟩ := parseUtf16Hex_valid hs hcp
  have htail (v : ℕ) : utf8Byte v 0 0x3F 0x80 = UInt8.ofNat (v % 0x40 + 0x80) := by
    have heq := utf8Byte_eq v 0 6 2
    rwa [Nat.pow_zero, Nat.div_one] at heq
  split_ifs at hrun with h1 h2 h3 h4
  · obtain ⟨rfl, rfl⟩ := Prod.mk.inj (Option.some.inj hrun)
    refine ⟨Utf8.valid_singleton ?_, hrest⟩
    rw [UInt8.lt_iff_toNat_lt]
    exact (toNat_ofNat (by omega)).trans_lt h1
  · obtain ⟨rfl, rfl⟩ := Prod.mk.inj (Option.some.inj hrun)
    obtain ⟨c, hc⟩ := Utf8.exists_char (v := cp) (Or.inl (by omega))
    rw [if_neg (by omega), if_pos (by omega)] at hc
    have hlead : utf8Byte cp 6 0x1F 0xC0 = _ := utf8Byte_eq cp 6 5 6
    have hwritten : [utf8Byte cp 6 0x1F 0xC0, utf8Byte cp 0 0x3F 0x80] =
        String.utf8EncodeChar c := by
      rw [hc, hlead, htail]
      rfl
    rw [hwritten]
    exact ⟨Utf8.valid_char c, hrest⟩
  · obtain ⟨rfl, rfl⟩ := Prod.mk.inj (Option.some.inj hrun)
    obtain ⟨c, hc⟩ := Utf8.exists_char (v := cp) (h3.imp_right fun h => ⟨h, by omega⟩)
    rw [if_neg (by omega), if_neg (by omega), if_pos (by omega)] at hc
    have hlead : utf8Byte cp 12 0x0F 0xE0 = _ := utf8Byte_eq cp 12 4 0xE
    have hmiddle : utf8Byte cp 6 0x3F 0x80 = _ := utf8Byte_eq cp 6 6 2
    have hwritten : [utf8Byte cp 12 0x0F 0xE0, utf8Byte cp 6 0x3F 0x80, utf8Byte cp 0 0x3F 0x80] =
        String.utf8EncodeChar c := by
      rw [hc, hlead, hmiddle, htail]
      rfl
    rw [hwritten]
    exact ⟨Utf8.valid_char c, hrest⟩
  · obtain ⟨trailing, htrailing, hpair⟩ := Option.bind_eq_some_iff.mp hrun
    obtain ⟨rfl, rfl⟩ := Prod.mk.inj (Option.some.inj hpair)
    obtain ⟨hwritten, hdrop⟩ := parseTrail_valid hrest htrailing
    rw [List.drop_drop] at hdrop
    exact ⟨hwritten, hdrop⟩

/-! ## Strings -/

/-- Bytes from 80 on are taken as they are. -/
theorem processString_high {w : List UInt8} (hw : ∀ b ∈ w, 0x80 ≤ b) (s : List UInt8) :
    processString (w ++ s) (w ++ s).length = (processString s s.length).map (w ++ ·) := by
  induction w with
  | nil => exact (Option.map_id' (x := processString s s.length)).symm
  | cons b w ih =>
    rw [List.forall_mem_cons] at hw
    have h92 : b ≠ 92 := by
      rintro rfl
      exact absurd hw.1 (by decide)
    have hcontrol : ¬ b < 0x20 := by
      intro hlt
      exact absurd (UInt8.lt_of_le_of_lt hw.1 hlt) (by decide)
    rw [List.cons_append, List.length_cons, processString_plain h92, if_neg hcontrol, ih hw.2,
      Option.map_map]
    rfl

/-- A backslash and what it stands for, before a text for which the rest is known. -/
theorem processString_backslash {t output : List UInt8} (ht : Valid t)
    (ih : ∀ s : List UInt8, s.length ≤ t.length → Valid s → ∀ output,
      processString s s.length = some output → Valid output)
    (h : processString (92 :: t) (t.length + 1) = some output) : Valid output := by
  cases t with
  | nil =>
    rw [processString] at h
    cases h
  | cons e t =>
    rw [List.length_cons] at h ih
    by_cases he : e = 117
    · subst he
      rw [processString_utf16] at h
      obtain ⟨⟨written, read⟩, hescape, h⟩ := Option.bind_eq_some_iff.mp h
      obtain ⟨rest, hrest, rfl⟩ := Option.map_eq_some_iff.mp h
      rw [Utf8.valid_cons (by decide)] at ht
      obtain ⟨hwritten, hdrop⟩ := parseUtf16_valid ht hescape
      have hlength : (t.drop read).length = t.length - read := List.length_drop
      simp only [← hlength] at hrest
      exact hwritten.append (ih _ (by omega) hdrop rest hrest)
    · rw [processString_escaped he] at h
      obtain ⟨d, hd, h⟩ := Option.bind_eq_some_iff.mp h
      obtain ⟨rest, hrest, rfl⟩ := Option.map_eq_some_iff.mp h
      obtain ⟨hascii, hd⟩ := unescape_bounds hd
      rw [Utf8.valid_cons hascii] at ht
      exact (Utf8.valid_cons hd).mpr (ih t (Nat.le_succ _) ht rest hrest)

/-- `process_string` makes valid UTF-8 from valid UTF-8. -/
theorem processString_valid : ∀ n (s : List UInt8), s.length ≤ n → Valid s → ∀ output,
    processString s s.length = some output → Valid output := by
  intro n
  induction n with
  | zero =>
    intro s hle _ output h
    rw [List.length_eq_zero_iff.mp (Nat.le_zero.mp hle), List.length_nil, processString_zero] at h
    cases h
    exact Utf8.valid_nil
  | succ n ih =>
    intro s hle hs output h
    rcases Utf8.valid_cases hs with rfl | ⟨c, t, rfl, ht⟩
    · rw [List.length_nil, processString_zero] at h
      cases h
      exact Utf8.valid_nil
    · rcases Utf8.encode_cases c with ⟨b, hb, hone⟩ | ⟨hne, hhigh⟩
      · rw [hone] at h hle
        have h : processString (b :: t) (t.length + 1) = some output := h
        have hle : t.length + 1 ≤ n + 1 := hle
        have ih' : ∀ s : List UInt8, s.length ≤ t.length → Valid s → ∀ output,
            processString s s.length = some output → Valid output :=
          fun s hs => ih s (by omega)
        by_cases h92 : b = 92
        · subst h92
          exact processString_backslash ht ih' h
        · rw [processString_plain h92] at h
          split_ifs at h
          obtain ⟨rest, hrest, rfl⟩ := Option.map_eq_some_iff.mp h
          exact (Utf8.valid_cons hb).mpr (ih' t (Nat.le_refl _) ht rest hrest)
      · rw [processString_high hhigh] at h
        obtain ⟨rest, hrest, rfl⟩ := Option.map_eq_some_iff.mp h
        have hpos := List.length_pos_of_ne_nil hne
        rw [List.length_append] at hle
        exact (Utf8.valid_char c).append (ih t (by omega) ht rest hrest)

/-! ## What is parsed -/

/-- An object that keeps its invariant, in which all strings have a property. -/
def StringsIn (p : List UInt8 → Prop) (object : JsonObject (JsonValue N)) : Prop :=
  object.Inv ∧ ∀ entry ∈ object.entries, p entry.1 ∧ entry.2.Strings p

theorem StringsIn.append {p : List UInt8 → Prop} {object object' : JsonObject (JsonValue N)}
    {name : List UInt8} {value : JsonValue N} (h : StringsIn p object) (hinv : object'.Inv)
    (hentries : object'.entries = object.entries ++ [(name, value)]) (hname : p name)
    (hvalue : value.Strings p) : StringsIn p object' := by
  refine ⟨hinv, ?_⟩
  intro entry hmem
  rw [hentries] at hmem
  rcases List.mem_append.mp hmem with hold | hnew
  · exact h.2 entry hold
  · rw [List.mem_singleton.mp hnew]
    exact ⟨hname, hvalue⟩

theorem StringsIn.strings {p : List UInt8 → Prop} {object : JsonObject (JsonValue N)}
    (h : StringsIn p object) : (JsonValue.object object).Strings p :=
  .object (fun _ hmem => (h.2 _ (List.mem_map_of_mem hmem)).1)
    fun _ hmem => (h.2 _ (List.mem_map_of_mem hmem)).2

theorem skipWhitespaces_suffix (s : List UInt8) : skipWhitespaces s <:+ s := List.dropWhile_suffix _

section Parse

variable {p sound : List UInt8 → Prop} {parse : Parser N} {value : JsonValue N}
  {string rest : List UInt8}

/-- What a parsing function returns on a sound string. -/
def TakesStrings (p sound : List UInt8 → Prop) (parse : Parser N) : Prop :=
  ∀ string value rest, sound string → parse string = some (value, rest) →
    value.Strings p ∧ rest <:+ string

variable (hsuffix : ∀ {s t : List UInt8}, t <:+ s → sound s → sound t)
  (hparse : TakesStrings p sound parse)

include hsuffix hparse

theorem arrayLoop_strings : ∀ fuel items string, sound string → (∀ item ∈ items, item.Strings p) →
    arrayLoop parse fuel items string = some (value, rest) →
    value.Strings p ∧ rest <:+ string := by
  intro fuel
  induction fuel with
  | zero =>
    intro items string _ _ h
    cases h
  | succ fuel ih =>
    intro items string hstring hitems h
    obtain ⟨hne, new, w, c, s, hnew, hw, hc⟩ := arrayLoop_round h
    rw [arrayLoop_step hne hnew hw hc] at h
    obtain ⟨hvalue, htail⟩ := hparse _ _ _ hstring hnew
    have hbehind : c :: s <:+ string := (List.suffix_append w (c :: s)).trans htail
    have hall : ∀ item ∈ items ++ [new], item.Strings p := by
      intro item hmem
      rcases List.mem_append.mp hmem with hmem | hmem
      · exact hitems item hmem
      · rw [List.mem_singleton.mp hmem]
        exact hvalue
    rcases behindValue_cases (closes_array _) h with ⟨rfl, hrest⟩ | ⟨s', hnext, hloop⟩
    · exact ⟨.array hall, hrest.trans hbehind⟩
    · have hnext := hnext.trans hbehind
      obtain ⟨hvalue, hrest⟩ := ih _ _ (hsuffix hnext hstring) hall hloop
      exact ⟨hvalue, hrest.trans hnext⟩

theorem parseArrayValue_strings (hstring : sound string)
    (h : parseArrayValue parse string = some (value, rest)) :
    value.Strings p ∧ rest <:+ string := by
  have hspace := skipWhitespaces_suffix string
  have hnone : ∀ item ∈ ([] : List (JsonValue N)), item.Strings p :=
    fun item hmem => absurd hmem List.not_mem_nil
  unfold parseArrayValue at h
  simp only at h
  split at h
  · cases h
    exact ⟨.array hnone, (List.tail_suffix _).trans hspace⟩
  · obtain ⟨hvalue, hrest⟩ :=
      arrayLoop_strings hsuffix hparse _ _ _ (hsuffix hspace hstring) hnone h
    exact ⟨hvalue, hrest.trans hspace⟩

variable (hquote : ∀ {string output rest : List UInt8}, sound string →
  getQuotedString string = some (output, rest) → p output ∧ rest <:+ string)

include hquote

theorem objectLoop_strings : ∀ fuel (object : JsonObject (JsonValue N)) string, sound string →
    StringsIn p object → objectLoop parse fuel object string = some (value, rest) →
    value.Strings p ∧ rest <:+ string := by
  intro fuel
  induction fuel with
  | zero =>
    intro object string _ _ h
    cases h
  | succ fuel ih =>
    intro object string hstring hobject h
    obtain ⟨hne, key, w', t, new, w, c, s, object', hkey, hw', hnul, hnew, hw, hc, hadd⟩ :=
      objectLoop_round h
    rw [objectLoop_step hne hkey hw' hnul hnew hw hc hadd] at h
    obtain ⟨hname, hcolon⟩ := hquote hstring hkey
    have ht : t <:+ string :=
      ((List.suffix_cons 58 t).trans (List.suffix_append w' (58 :: t))).trans hcolon
    obtain ⟨hvalue, htail⟩ := hparse _ _ _ (hsuffix ht hstring) hnew
    have hbehind : c :: s <:+ string :=
      ((List.suffix_append w (c :: s)).trans htail).trans ht
    obtain ⟨hinv, hentries⟩ := entries_of_add hobject.1 hadd
    have hall := hobject.append hinv hentries hname hvalue
    rcases behindValue_cases (closes_object _) h with ⟨rfl, hrest⟩ | ⟨s', hnext, hloop⟩
    · exact ⟨hall.strings, hrest.trans hbehind⟩
    · have hnext := hnext.trans hbehind
      obtain ⟨hvalue, hrest⟩ := ih _ _ (hsuffix hnext hstring) hall hloop
      exact ⟨hvalue, hrest.trans hnext⟩

theorem parseObjectValue_strings (hstring : sound string)
    (h : parseObjectValue parse string = some (value, rest)) :
    value.Strings p ∧ rest <:+ string := by
  have hspace := skipWhitespaces_suffix string
  have hnew : StringsIn p (jsonObjectMake (JsonValue N)) :=
    ⟨inv_make, fun _ hmem => absurd hmem List.not_mem_nil⟩
  unfold parseObjectValue at h
  simp only at h
  split at h
  · cases h
    exact ⟨hnew.strings, (List.tail_suffix _).trans hspace⟩
  · obtain ⟨hvalue, hrest⟩ :=
      objectLoop_strings hsuffix hparse hquote _ _ _ (hsuffix hspace hstring) hnew h
    exact ⟨hvalue, hrest.trans hspace⟩

omit hparse

/-- All strings of a value come out of `get_quoted_string`, which has been called somewhere in the
text. -/
theorem parseValue_strings (format : NumberFormat N) : ∀ left,
    TakesStrings p sound (parseValue format left) := by
  intro left
  induction left with
  | zero =>
    intro string value rest _ h
    cases h
  | succ left ih =>
    intro string value rest hstring h
    have hspace := skipWhitespaces_suffix string
    rw [parseValue] at h
    split at h
    · cases h
    · rename_i c tail hskip
      rw [hskip] at hspace
      have htail : tail <:+ string := (List.suffix_cons c tail).trans hspace
      split_ifs at h
      · obtain ⟨hvalue, hrest⟩ :=
          parseObjectValue_strings hsuffix ih hquote (hsuffix htail hstring) h
        exact ⟨hvalue, hrest.trans htail⟩
      · obtain ⟨hvalue, hrest⟩ := parseArrayValue_strings hsuffix ih (hsuffix htail hstring) h
        exact ⟨hvalue, hrest.trans htail⟩
      · obtain ⟨⟨chars, tail'⟩, hget, h⟩ := Option.bind_eq_some_iff.mp h
        cases h
        obtain ⟨hchars, hrest⟩ := hquote (hsuffix hspace hstring) hget
        exact ⟨.string hchars, hrest.trans hspace⟩
      · unfold parseBooleanValue at h
        split_ifs at h
        · cases h
          exact ⟨.boolean, (List.drop_suffix _ _).trans hspace⟩
        · cases h
          exact ⟨.boolean, (List.drop_suffix _ _).trans hspace⟩
      · obtain ⟨⟨number, read⟩, -, h⟩ := Option.bind_eq_some_iff.mp h
        simp only at h
        split_ifs at h
        cases h
        exact ⟨.number, (List.drop_suffix _ _).trans hspace⟩
      · unfold parseNullValue at h
        split_ifs at h
        cases h
        exact ⟨.null, (List.drop_suffix _ _).trans hspace⟩

end Parse

/-! ## Texts -/

/-- Whatever stands between two quotes in a text is valid UTF-8. -/
def QuotedValid (string : List UInt8) : Prop :=
  ∀ before body rest, string = before ++ 34 :: (body ++ 34 :: rest) → Valid body

theorem quotedValid_of_valid {string : List UInt8} (h : Valid string) : QuotedValid string := by
  rintro before body rest rfl
  have hquote : (34 : UInt8) < 0x80 := by decide
  exact ((Utf8.valid_cut hquote).mp ((Utf8.valid_cut hquote).mp h).2).1

theorem QuotedValid.suffix {s t : List UInt8} (hsuffix : t <:+ s) (h : QuotedValid s) :
    QuotedValid t := by
  obtain ⟨front, rfl⟩ := hsuffix
  rintro before body rest rfl
  exact h (front ++ before) body rest (by rw [List.append_assoc])

theorem QuotedValid.getQuotedString {string output rest : List UInt8} (h : QuotedValid string)
    (hget : getQuotedString string = some (output, rest)) : Valid output ∧ rest <:+ string := by
  obtain ⟨body, -, rfl, hprocess⟩ := getQuotedString_eq_some hget
  refine ⟨processString_valid _ body (Nat.le_refl _) (h [] body rest rfl) output hprocess, ?_⟩
  exact ⟨34 :: (body ++ [34]), by simp⟩

theorem valid_ofBytes {string : List UInt8} (h : Valid string) :
    Valid (CString.ofBytes string) := by
  by_cases hnul : 0 ∈ string
  · obtain ⟨front, back, rfl, hfront⟩ := List.eq_append_cons_of_mem hnul
    rw [CString.ofBytes_append_nul, CString.ofBytes_eq_self hfront]
    exact ((Utf8.valid_cut (by decide)).mp h).1
  · rw [CString.ofBytes_eq_self hnul]
    exact h

/-- All strings in a value parsed from valid UTF-8 are valid UTF-8. -/
theorem jsonParseString_strings {format : NumberFormat N} {string : List UInt8}
    {value : JsonValue N} (hvalid : Valid string)
    (h : jsonParseString format string = some value) : value.Strings Valid := by
  obtain ⟨⟨value', rest⟩, hparse, rfl⟩ := Option.map_eq_some_iff.mp h
  have hquoted := quotedValid_of_valid (valid_ofBytes hvalid)
  have htakes : TakesStrings Valid QuotedValid (parseValue format (maxNesting + 1)) :=
    parseValue_strings (fun hsuffix h => h.suffix hsuffix) (fun h hget => h.getQuotedString hget)
      format _
  refine (htakes _ _ _ ?_ hparse).1
  split_ifs
  · exact hquoted.suffix (List.drop_suffix _ _)
  · exact hquoted

/-! ## What is written -/

theorem valid_of_ascii {s : List UInt8} (h : ∀ b ∈ s, b < 0x80) : Valid s := by
  induction s with
  | nil => exact Utf8.valid_nil
  | cons b s ih =>
    rw [List.forall_mem_cons] at h
    exact (Utf8.valid_cons h.1).mpr (ih h.2)

theorem valid_of_all_ascii {s : List UInt8} (h : s.all (· < 0x80) = true) : Valid s :=
  valid_of_ascii fun b hb => of_decide_eq_true (List.all_eq_true.mp h b hb)

theorem valid_of_blank {s : List UInt8} (h : Blank s) : Valid s := by
  have hspace : ∀ c, CString.isspace c → c < 0x80 := forall_byte (by decide +kernel)
  exact valid_of_ascii fun b hb => hspace b (h b hb)

theorem escape_ascii {b : UInt8} (h : b < 0x80) : Valid (escape b) := by
  have hall : ∀ b : UInt8, b < 0x80 → ∀ c ∈ escape b, c < 0x80 :=
    forall_byte (by decide +kernel)
  exact valid_of_ascii (hall b h)

theorem escape_high {b : UInt8} (h : 0x80 ≤ b) : escape b = [b] := by
  have hall : ∀ b : UInt8, 0x80 ≤ b → escape b = [b] := forall_byte (by decide +kernel)
  exact hall b h

theorem flatMap_escape_high {s : List UInt8} (h : ∀ b ∈ s, 0x80 ≤ b) : s.flatMap escape = s := by
  induction s with
  | nil => rfl
  | cons b s ih =>
    rw [List.forall_mem_cons] at h
    rw [List.flatMap_cons, escape_high h.1, ih h.2]
    rfl

theorem jsonSerializeString_valid {s : List UInt8} (h : Valid s) :
    Valid (jsonSerializeString s) := by
  have hquote : (34 : UInt8) < 0x80 := by decide
  have hbody : Valid (s.flatMap escape) := by
    obtain ⟨text, rfl⟩ := h
    induction text with
    | nil => exact Utf8.valid_nil
    | cons c text ih =>
      rw [List.flatMap_cons, List.flatMap_append]
      refine Valid.append ?_ ih
      rcases Utf8.encode_cases c with ⟨b, hb, hone⟩ | ⟨-, hhigh⟩
      · rw [hone, List.flatMap_singleton]
        exact escape_ascii hb
      · rw [flatMap_escape_high hhigh]
        exact Utf8.valid_char c
  exact (Utf8.valid_cons hquote).mpr (hbody.append (Utf8.valid_singleton hquote))

theorem listText_valid {isPretty : Bool} {level : ℕ} {texts : List (List UInt8)}
    (h : ∀ text ∈ texts, Valid text) : Valid (listText isPretty level texts) := by
  induction texts with
  | nil => exact Utf8.valid_nil
  | cons text texts ih =>
    rw [List.forall_mem_cons] at h
    have hcomma : Valid (if texts.isEmpty then [] else bytes ",") := by
      split
      · exact Utf8.valid_nil
      · exact valid_of_all_ascii (by decide)
    rw [listText]
    refine ((((valid_of_blank ?_).append h.1).append hcomma).append (valid_of_blank ?_)).append
      (ih h.2)
    · exact (blank_indent _).whenPretty _
    · exact blank_newline.whenPretty _

theorem containerText_valid {isPretty : Bool} {level : ℕ} {texts : List (List UInt8)} {c : UInt8}
    (h : ∀ text ∈ texts, Valid text) (hc : c < 0x80) :
    Valid (containerText isPretty level texts c) :=
  (valid_of_blank (blank_newline.whenPretty _)).append ((listText_valid h).append
    ((valid_of_blank ((blank_indent _).whenPretty _)).append (Utf8.valid_singleton hc)))

theorem serialize_valid {format : NumberFormat N} {isPretty : Bool}
    (hnumbers : ∀ number, Valid (format.sprintf number)) {value : JsonValue N}
    (h : value.Strings Valid) : ∀ level, Valid (serialize format isPretty level value) := by
  induction h with
  | null =>
    intro level
    rw [serialize]
    exact valid_of_all_ascii (by decide)
  | @boolean boolean =>
    intro level
    cases boolean with
    | true =>
      rw [serialize]
      exact valid_of_all_ascii (by decide)
    | false =>
      rw [serialize]
      exact valid_of_all_ascii (by decide)
  | number =>
    intro level
    rw [serialize]
    exact hnumbers _
  | string hchars =>
    intro level
    rw [serialize]
    exact jsonSerializeString_valid hchars
  | array _ ih =>
    intro level
    rw [serialize_array, Utf8.valid_cons (by decide)]
    refine containerText_valid ?_ (by decide)
    rw [List.forall_mem_map]
    exact fun item hmem => ih item hmem _
  | object hnames _ ih =>
    intro level
    rw [serialize_object, Utf8.valid_cons (by decide), serializeMember_eq]
    refine containerText_valid ?_ (by decide)
    rw [List.forall_mem_map]
    intro item hmem
    refine (jsonSerializeString_valid (valid_ofBytes (hnames item hmem))).append ?_
    rw [Utf8.valid_cons (by decide)]
    exact (valid_of_blank (blank_space.whenPretty _)).append (ih item hmem _)

theorem JsonValue.Strings.mono {p q : List UInt8 → Prop} (hpq : ∀ s, p s → q s)
    {value : JsonValue N} (h : value.Strings p) : value.Strings q := by
  induction h with
  | null => exact .null
  | boolean => exact .boolean
  | number => exact .number
  | string h => exact .string (hpq _ h)
  | array _ ih => exact .array ih
  | object hnames _ ih => exact .object (fun item hmem => hpq _ (hnames item hmem)) ih

/-- Whatever is parsed from a text that `is_valid_utf8` accepts: it accepts all strings and names in
it, and both texts that the value is written as. -/
theorem json_text_utf8 {format : NumberFormat N}
    (hnumbers : ∀ number, isValidString (format.sprintf number) = true) {string : List UInt8}
    {value : JsonValue N} (hstring : isValidString string = true)
    (h : jsonParseString format string = some value) :
    value.Strings (fun chars => isValidString chars = true) ∧
      (∀ text, jsonSerializeToString format value = some text → isValidString text = true) ∧
      ∀ text, jsonSerializeToStringPretty format value = some text →
        isValidString text = true := by
  have hnumbers' (number : N) : Valid (format.sprintf number) :=
    (isValidString_iff _).mp (hnumbers number)
  have hstrings := jsonParseString_strings ((isValidString_iff string).mp hstring) h
  have htext (isPretty : Bool) : ∀ text, serializeToString format isPretty value = some text →
      isValidString text = true := by
    intro text hserialize
    rw [eq_serialize_of_some hserialize]
    exact (isValidString_iff _).mpr (serialize_valid hnumbers' hstrings 0)
  exact ⟨hstrings.mono fun s => (isValidString_iff s).mpr, htext false, htext true⟩

/-- A surrogate pair, and a letter of two bytes. -/
def smileText : List UInt8 := bytes "[\"\\uD83D\\uDE00\", 7, \"" ++ 0xD0 :: 0xB6 :: bytes "\"]"

theorem json_text_utf8_smile : ∃ value,
    jsonParseString digitFormat smileText = some value ∧
      value.Strings (fun chars => isValidString chars = true) ∧
      (∀ text, jsonSerializeToString digitFormat value = some text → isValidString text = true) ∧
      ∀ text, jsonSerializeToStringPretty digitFormat value = some text →
        isValidString text = true := by
  have hparsed : (jsonParseString digitFormat smileText).isSome = true := by
    decide +kernel
  obtain ⟨value, hvalue⟩ := Option.isSome_iff_exists.mp hparsed
  exact ⟨value, hvalue, json_text_utf8 (by decide) (by decide +kernel) hvalue⟩

end CDevHws.Hw08
