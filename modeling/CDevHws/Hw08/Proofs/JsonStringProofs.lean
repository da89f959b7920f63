import CDevHws.Hw08.Parson

/-!
# Proofs: strings in quotes

What `json_serialize_string` writes is read back by `get_quoted_string`, whatever the bytes. And
whatever `get_quoted_string` reads, it stays between the quotes and inside its buffer.
-/

namespace CDevHws.Hw08

/-! ## Reading what has been written -/

theorem processString_zero (s : List UInt8) : processString s 0 = some [] := by
  cases s with
  | nil => rw [processString]
  | cons c s => rw [processString]

theorem processString_plain {c : UInt8} (hc : c ≠ 92) (s : List UInt8) (left : ℕ) :
    processString (c :: s) (left + 1) =
      if c < 0x20 then none else (processString s left).map (c :: ·) := by
  rw [processString, if_neg hc]
  split
  · rfl
  · cases processString s left <;> rfl

theorem processString_escaped {c : UInt8} (hc : c ≠ 117) (s : List UInt8) (left : ℕ) :
    processString (92 :: c :: s) (left + 2) =
      (unescape c).bind fun d => (processString s left).map (d :: ·) := by
  have hhead : (c :: s).head? ≠ some 117 := fun heq => hc (Option.some.inj heq)
  have hbind : (c :: s).head?.bind unescape = unescape c := rfl
  rw [processString, if_pos rfl, if_neg hhead, hbind]
  cases unescape c with
  | none => rfl
  | some d =>
    show (processString s left).bind _ = _
    cases processString s left <;> rfl

theorem processString_utf16 (s : List UInt8) (left : ℕ) :
    processString (92 :: 117 :: s) (left + 2) =
      (parseUtf16 s).bind fun p => (processString (s.drop p.2) (left - p.2)).map (p.1 ++ ·) := by
  have hhead : (117 :: s).head? = some 117 := rfl
  rw [processString, if_pos rfl, if_pos hhead]
  show (parseUtf16 s).bind _ = _
  cases parseUtf16 s with
  | none => rfl
  | some p =>
    show (processString (s.drop p.2) (left - p.2)).bind _ =
      (processString (s.drop p.2) (left - p.2)).map (p.1 ++ ·)
    cases processString (s.drop p.2) (left - p.2) <;> rfl

/-- The digits that stand for a control character. -/
theorem parseUtf16_control {c : UInt8} (hc : c < 0x20) (s : List UInt8) :
    parseUtf16 (48 :: 48 :: hexDigit (c / 16) :: hexDigit (c % 16) :: s) = some ([c], 4) := by
  have hall : ∀ n < 32, parseUtf16Hex [48, 48, hexDigit (n.toUInt8 / 16),
      hexDigit (n.toUInt8 % 16)] = some n := by
    decide
  have hlt : c.toNat < 32 := UInt8.lt_iff_toNat_lt.mp hc
  have hhex := hall c.toNat hlt
  rw [Nat.toUInt8, UInt8.ofNat_toNat] at hhex
  have hcp : parseUtf16Hex (48 :: 48 :: hexDigit (c / 16) :: hexDigit (c % 16) :: s) =
      some c.toNat := hhex
  unfold parseUtf16
  rw [hcp, Option.bind_eq_bind, Option.bind_some, if_pos (by omega), Nat.toUInt8, UInt8.ofNat_toNat]
  rfl

/-- The three forms in which a byte is written. -/
theorem escape_cases (c : UInt8) :
    (∃ e, escape c = [92, e] ∧ e ≠ 117 ∧ unescape e = some c) ∨
      (c < 0x20 ∧ escape c = [92, 117, 48, 48, hexDigit (c / 16), hexDigit (c % 16)]) ∨
      (escape c = [c] ∧ c ≠ 34 ∧ c ≠ 92 ∧ ¬ c < 0x20) := by
  unfold escape
  split_ifs with h34 h92 h8 h12 h10 h13 h9 hcontrol h47
  · exact Or.inl ⟨34, rfl, by decide, by rw [h34]; rfl⟩
  · exact Or.inl ⟨92, rfl, by decide, by rw [h92]; rfl⟩
  · exact Or.inl ⟨98, rfl, by decide, by rw [h8]; rfl⟩
  · exact Or.inl ⟨102, rfl, by decide, by rw [h12]; rfl⟩
  · exact Or.inl ⟨110, rfl, by decide, by rw [h10]; rfl⟩
  · exact Or.inl ⟨114, rfl, by decide, by rw [h13]; rfl⟩
  · exact Or.inl ⟨116, rfl, by decide, by rw [h9]; rfl⟩
  · exact Or.inr (Or.inl ⟨hcontrol, rfl⟩)
  · exact Or.inl ⟨47, rfl, by decide, by rw [h47]; rfl⟩
  · exact Or.inr (Or.inr ⟨rfl, h34, h92, hcontrol⟩)

/-- One byte, written and read. -/
theorem processString_escape_append (c : UInt8) (s : List UInt8) (left : ℕ) :
    processString (escape c ++ s) (left + (escape c).length) =
      (processString s left).map (c :: ·) := by
  rcases escape_cases c with ⟨e, he, hne, hunescape⟩ | ⟨hcontrol, he⟩ | ⟨he, -, h92, hge⟩
  · rw [he]
    refine (processString_escaped hne s left).trans ?_
    rw [hunescape]
    rfl
  · rw [he]
    refine (processString_utf16 (48 :: 48 :: hexDigit (c / 16) :: hexDigit (c % 16) :: s)
      (left + 4)).trans ?_
    rw [parseUtf16_control hcontrol]
    rfl
  · rw [he]
    refine (processString_plain h92 s left).trans ?_
    rw [if_neg hge]

theorem processString_flatMap_escape (s rest : List UInt8) :
    processString (s.flatMap escape ++ rest) (s.flatMap escape).length = some s := by
  induction s with
  | nil => exact processString_zero rest
  | cons c s ih =>
    rw [List.flatMap_cons, List.append_assoc, List.length_append, Nat.add_comm,
      processString_escape_append, ih]
    rfl

theorem skipQuotesLoop_plain {c : UInt8} (h34 : c ≠ 34) (h92 : c ≠ 92) (s : List UInt8) :
    skipQuotesLoop (c :: s) = skipQuotesLoop s := by
  cases s with
  | nil =>
    show (if c = 34 then some [] else none) = none
    rw [if_neg h34]
  | cons d s => rw [skipQuotesLoop, if_neg h34, if_neg h92]

theorem hexDigit_ne {n : UInt8} (h : n < 16) :
    hexDigit n ≠ 34 ∧ hexDigit n ≠ 92 ∧ hexDigit n ≠ 0 := by
  have hall : ∀ m < 16, hexDigit m.toUInt8 ≠ 34 ∧ hexDigit m.toUInt8 ≠ 92 ∧
      hexDigit m.toUInt8 ≠ 0 := by
    decide
  have hn := hall n.toNat (UInt8.lt_iff_toNat_lt.mp h)
  rwa [Nat.toUInt8, UInt8.ofNat_toNat] at hn

/-- The two digits of a byte. -/
theorem digits_lt (c : UInt8) : c / 16 < 16 ∧ c % 16 < 16 := by
  have hlt := c.toNat_lt
  constructor
  · rw [UInt8.lt_iff_toNat_lt, UInt8.toNat_div]
    show c.toNat / 16 < 16
    omega
  · rw [UInt8.lt_iff_toNat_lt, UInt8.toNat_mod]
    exact Nat.mod_lt _ (by decide)

/-- A byte that is written is passed over as a whole. -/
theorem skipQuotesLoop_escape (c : UInt8) (s : List UInt8) :
    skipQuotesLoop (escape c ++ s) = skipQuotesLoop s := by
  rcases escape_cases c with ⟨e, he, -⟩ | ⟨hcontrol, he⟩ | ⟨he, h34, h92, -⟩
  · rw [he]
    rfl
  · obtain ⟨hhigh, hlow⟩ := digits_lt c
    rw [he]
    show skipQuotesLoop (48 :: 48 :: hexDigit (c / 16) :: hexDigit (c % 16) :: s) = _
    rw [skipQuotesLoop_plain (by decide) (by decide), skipQuotesLoop_plain (by decide) (by decide),
      skipQuotesLoop_plain (hexDigit_ne hhigh).1 (hexDigit_ne hhigh).2.1,
      skipQuotesLoop_plain (hexDigit_ne hlow).1 (hexDigit_ne hlow).2.1]
  · rw [he]
    exact skipQuotesLoop_plain h34 h92 s

theorem skipQuotesLoop_flatMap_escape (s rest : List UInt8) :
    skipQuotesLoop (s.flatMap escape ++ 34 :: rest) = some rest := by
  induction s with
  | nil => cases rest <;> rfl
  | cons c s ih => rw [List.flatMap_cons, List.append_assoc, skipQuotesLoop_escape, ih]

/-- A string that is written is read back, and what follows is left. -/
theorem getQuotedString_jsonSerializeString (s rest : List UInt8) :
    getQuotedString (jsonSerializeString s ++ rest) = some (s, rest) := by
  have htext : jsonSerializeString s ++ rest = 34 :: (s.flatMap escape ++ 34 :: rest) := by
    unfold jsonSerializeString
    simp
  have hlen : (s.flatMap escape ++ 34 :: rest).length - rest.length - 1 =
      (s.flatMap escape).length := by
    rw [List.length_append, List.length_cons]
    omega
  rw [htext]
  unfold getQuotedString
  simp only [ne_eq, not_true_eq_false, if_false, skipQuotesLoop_flatMap_escape, hlen,
    processString_flatMap_escape, Option.bind_eq_bind, Option.bind_some, Option.pure_def]

theorem escape_no_nul (c : UInt8) : 0 ∉ escape c := by
  rcases escape_cases c with ⟨e, he, -, hunescape⟩ | ⟨-, he⟩ | ⟨he, -, -, hge⟩
  · have hne : e ≠ 0 := by
      rintro rfl
      cases hunescape
    rw [he]
    simp only [List.mem_cons, List.not_mem_nil, or_false, not_or]
    exact ⟨by decide, hne.symm⟩
  · obtain ⟨hhigh, hlow⟩ := digits_lt c
    rw [he]
    simp only [List.mem_cons, List.not_mem_nil, or_false, not_or]
    exact ⟨by decide, by decide, by decide, by decide, (hexDigit_ne hhigh).2.2.symm,
      (hexDigit_ne hlow).2.2.symm⟩
  · rw [he, List.mem_singleton]
    rintro rfl
    exact hge (by decide)

/-- The text of a string is a C string. -/
theorem jsonSerializeString_no_nul (s : List UInt8) : 0 ∉ jsonSerializeString s := by
  unfold jsonSerializeString
  simp only [List.mem_append, List.mem_singleton, List.mem_flatMap, not_or, not_exists, not_and]
  exact ⟨⟨by decide, fun c _ => escape_no_nul c⟩, by decide⟩

/-! ## Between the quotes -/

theorem Quoted.tail {c : UInt8} {s : List UInt8} (h : Quoted (c :: s)) (h92 : c ≠ 92) :
    Quoted s := by
  cases h with
  | plain _ _ h => exact h
  | escaped _ => exact absurd rfl h92

/-- `skip_quotes` passes over such a text, up to the first quote behind it. -/
theorem skipQuotesLoop_quoted {body : List UInt8} (h : Quoted body) (rest : List UInt8) :
    skipQuotesLoop (body ++ 34 :: rest) = some rest := by
  induction h with
  | nil => cases rest <;> rfl
  | plain h34 h92 _ ih => rw [List.cons_append, skipQuotesLoop_plain h34 h92, ih]
  | escaped _ ih => exact ih

theorem quoted_of_skipQuotesLoop (s : List UInt8) : ∀ rest, skipQuotesLoop s = some rest →
    ∃ body, Quoted body ∧ s = body ++ 34 :: rest := by
  induction s using skipQuotesLoop.induct with
  | case1 =>
    intro rest h
    cases h
  | case2 =>
    intro rest h
    cases h
    exact ⟨[], .nil, rfl⟩
  | case3 c h34 =>
    intro rest h
    rw [skipQuotesLoop, if_neg h34] at h
    cases h
  | case4 d s =>
    intro rest h
    cases h
    exact ⟨[], .nil, rfl⟩
  | case5 d s _ ih =>
    intro rest h
    obtain ⟨body, hbody, rfl⟩ := ih rest h
    exact ⟨_, .escaped hbody, rfl⟩
  | case6 c d s h34 h92 ih =>
    intro rest h
    rw [skipQuotesLoop, if_neg h34, if_neg h92] at h
    obtain ⟨body, hbody, heq⟩ := ih rest h
    exact ⟨c :: body, .plain h34 h92 hbody, by rw [heq]; rfl⟩

theorem plain_of_hexCharToInt {c : UInt8} {x : ℕ} (h : hexCharToInt c = some x) :
    c ≠ 34 ∧ c ≠ 92 := by
  constructor
  · rintro rfl
    cases h
  · rintro rfl
    cases h

theorem parseUtf16Hex_eq_some {s : List UInt8} {x : ℕ} (h : parseUtf16Hex s = some x) :
    ∃ c1 c2 c3 c4 s', s = c1 :: c2 :: c3 :: c4 :: s' ∧
      ∀ c ∈ [c1, c2, c3, c4], c ≠ 34 ∧ c ≠ 92 := by
  cases s with
  | nil => cases h
  | cons c1 s =>
    cases s with
    | nil => cases h
    | cons c2 s =>
      cases s with
      | nil => cases h
      | cons c3 s =>
        cases s with
        | nil => cases h
        | cons c4 s =>
          obtain ⟨x1, h1, h⟩ := Option.bind_eq_some_iff.mp h
          obtain ⟨x2, h2, h⟩ := Option.bind_eq_some_iff.mp h
          obtain ⟨x3, h3, h⟩ := Option.bind_eq_some_iff.mp h
          obtain ⟨x4, h4, -⟩ := Option.bind_eq_some_iff.mp h
          refine ⟨c1, c2, c3, c4, s, rfl, ?_⟩
          simp only [List.forall_mem_cons]
          exact ⟨plain_of_hexCharToInt h1, plain_of_hexCharToInt h2, plain_of_hexCharToInt h3,
            plain_of_hexCharToInt h4, fun c hc => absurd hc List.not_mem_nil⟩

theorem parseUtf16Hex_of_quote {s : List UInt8} (h : 34 ∈ s.take 4) : parseUtf16Hex s = none := by
  rw [Option.eq_none_iff_forall_ne_some]
  intro x hx
  obtain ⟨c1, c2, c3, c4, s', rfl, hplain⟩ := parseUtf16Hex_eq_some hx
  exact (hplain 34 h).1 rfl

/-- There are four digits before the quote, or there are none. -/
theorem parseUtf16Hex_quote (s rest : List UInt8) :
    parseUtf16Hex (s ++ 34 :: rest) = parseUtf16Hex s := by
  rcases s with _ | ⟨c1, _ | ⟨c2, _ | ⟨c3, _ | ⟨c4, s⟩⟩⟩⟩
  · exact parseUtf16Hex_of_quote List.mem_cons_self
  · exact parseUtf16Hex_of_quote (List.mem_cons_of_mem _ List.mem_cons_self)
  · exact parseUtf16Hex_of_quote
      (List.mem_cons_of_mem _ (List.mem_cons_of_mem _ List.mem_cons_self))
  · exact parseUtf16Hex_of_quote (List.mem_cons_of_mem _ (List.mem_cons_of_mem _
      (List.mem_cons_of_mem _ List.mem_cons_self)))
  · rfl

/-- Four digits take nothing from what follows. -/
theorem Quoted.digits {s : List UInt8} (h : Quoted s) {x : ℕ} (hx : parseUtf16Hex s = some x) :
    4 ≤ s.length ∧ Quoted (s.drop 4) := by
  obtain ⟨c1, c2, c3, c4, s', rfl, hplain⟩ := parseUtf16Hex_eq_some hx
  simp only [List.forall_mem_cons] at hplain
  obtain ⟨h1, h2, h3, h4, -⟩ := hplain
  refine ⟨?_, (((h.tail h1.2).tail h2.2).tail h3.2).tail h4.2⟩
  simp only [List.length_cons]
  omega

/-- A trail surrogate stands before the quote, or there is none. -/
theorem Quoted.trail {s : List UInt8} (h : Quoted s) (lead : ℕ) (rest : List UInt8) :
    parseTrail lead (s ++ 34 :: rest) = parseTrail lead s ∧
      ∀ written, parseTrail lead s = some written →
        written.length = 4 ∧ 6 ≤ s.length ∧ Quoted (s.drop 6) := by
  have hother : ∀ t : List UInt8, t.take 2 ≠ [92, 117] → parseTrail lead t = none := by
    intro t ht
    unfold parseTrail
    rw [if_neg ht]
  cases h with
  | nil =>
    rw [hother [] (by decide), hother ([] ++ 34 :: rest) (fun heq => by cases heq)]
    exact ⟨rfl, fun written hwritten => by cases hwritten⟩
  | @plain c s h34 h92 _ =>
    have htake : ∀ t, (c :: t).take 2 ≠ [92, 117] := fun t heq => h92 (List.cons.inj heq).1
    rw [hother _ (htake s), List.cons_append, hother _ (htake _)]
    exact ⟨rfl, fun written hwritten => by cases hwritten⟩
  | @escaped c s hs =>
    unfold parseTrail
    by_cases hc : c = 117
    · subst hc
      have hhex : parseUtf16Hex ((92 :: 117 :: s ++ 34 :: rest).drop 2) = parseUtf16Hex s :=
        parseUtf16Hex_quote s rest
      have htake : ∀ t : List UInt8, (92 :: 117 :: t).take 2 = [92, 117] := fun _ => rfl
      rw [if_pos (htake s), List.cons_append, List.cons_append, if_pos (htake _)]
      rw [List.cons_append, List.cons_append] at hhex
      rw [hhex]
      refine ⟨rfl, ?_⟩
      intro written hwritten
      obtain ⟨trail, htrail, hwritten⟩ := Option.bind_eq_some_iff.mp hwritten
      obtain ⟨hlen, hdrop⟩ := hs.digits htrail
      split_ifs at hwritten
      cases hwritten
      refine ⟨rfl, ?_, hdrop⟩
      simp only [List.length_cons]
      omega
    · have htake : ∀ t, (92 :: c :: t : List UInt8).take 2 ≠ [92, 117] :=
        fun t heq => hc (List.cons.inj (List.cons.inj heq).2).1
      rw [if_neg (htake s), List.cons_append, List.cons_append, if_neg (htake _)]
      exact ⟨rfl, fun written hwritten => by cases hwritten⟩

/-- An escaped character is read before the quote, and needs less room than it takes up. -/
theorem Quoted.utf16 {s : List UInt8} (h : Quoted s) (rest : List UInt8) :
    parseUtf16 (s ++ 34 :: rest) = parseUtf16 s ∧
      ∀ written read, parseUtf16 s = some (written, read) →
        written.length ≤ read ∧ read ≤ s.length ∧ Quoted (s.drop read) := by
  unfold parseUtf16
  rw [parseUtf16Hex_quote]
  cases hcp : parseUtf16Hex s with
  | none => exact ⟨rfl, fun written read hwritten => by cases hwritten⟩
  | some cp =>
    obtain ⟨hlen, hdrop⟩ := h.digits hcp
    obtain ⟨htrail, hbounds⟩ := hdrop.trail cp rest
    rw [Option.bind_eq_bind, Option.bind_some, Option.bind_eq_bind, Option.bind_some,
      List.drop_append_of_le_length hlen, htrail]
    refine ⟨rfl, ?_⟩
    intro written read hwritten
    split_ifs at hwritten
    · cases hwritten
      exact ⟨by simp, hlen, hdrop⟩
    · cases hwritten
      exact ⟨by simp, hlen, hdrop⟩
    · cases hwritten
      exact ⟨by simp, hlen, hdrop⟩
    · obtain ⟨output, houtput, hwritten⟩ := Option.bind_eq_some_iff.mp hwritten
      cases hwritten
      obtain ⟨hfour, hsix, hrest⟩ := hbounds _ houtput
      rw [List.length_drop] at hsix
      rw [List.drop_drop] at hrest
      exact ⟨by omega, by omega, hrest⟩

/-- What `process_string` makes of the text between the quotes does not depend on what follows, and
is no longer than the text. -/
theorem processString_quoted : ∀ n (s : List UInt8), s.length ≤ n → Quoted s → ∀ rest,
    processString (s ++ 34 :: rest) s.length = processString s s.length ∧
      ∀ output, processString s s.length = some output → output.length ≤ s.length := by
  intro n
  induction n with
  | zero =>
    intro s hn _ rest
    rw [Nat.le_zero.mp hn, processString_zero, processString_zero]
    refine ⟨rfl, ?_⟩
    intro output houtput
    cases houtput
    exact Nat.zero_le _
  | succ n ih =>
    intro s hn h rest
    cases h with
    | nil =>
      rw [List.length_nil, processString_zero, processString_zero]
      refine ⟨rfl, ?_⟩
      intro output houtput
      cases houtput
      exact Nat.le_refl _
    | @plain c s _ h92 hs =>
      obtain ⟨heq, hle⟩ := ih s (Nat.le_of_succ_le_succ hn) hs rest
      rw [List.length_cons, List.cons_append, processString_plain h92, processString_plain h92, heq]
      refine ⟨rfl, ?_⟩
      intro output houtput
      split_ifs at houtput
      obtain ⟨output, hs, rfl⟩ := Option.map_eq_some_iff.mp houtput
      exact Nat.succ_le_succ (hle output hs)
    | @escaped c s hs =>
      rw [List.length_cons, List.length_cons] at hn
      rw [List.length_cons, List.length_cons, List.cons_append, List.cons_append]
      by_cases hc : c = 117
      · subst hc
        obtain ⟨heq, hbounds⟩ := hs.utf16 rest
        rw [processString_utf16, processString_utf16, heq]
        cases hutf16 : parseUtf16 s with
        | none => exact ⟨rfl, fun output houtput => by cases houtput⟩
        | some p =>
          obtain ⟨written, read⟩ := p
          obtain ⟨hwritten, hread, hdrop⟩ := hbounds written read hutf16
          have hlen : (s.drop read).length = s.length - read := List.length_drop
          obtain ⟨heq, hle⟩ := ih (s.drop read) (by omega) hdrop rest
          rw [hlen] at heq hle
          rw [Option.bind_some, Option.bind_some, List.drop_append_of_le_length hread, heq]
          refine ⟨rfl, ?_⟩
          intro output houtput
          obtain ⟨output, hs, rfl⟩ := Option.map_eq_some_iff.mp houtput
          have := hle output hs
          show (written ++ output).length ≤ _
          rw [List.length_append]
          omega
      · obtain ⟨heq, hle⟩ := ih s (by omega) hs rest
        rw [processString_escaped hc, processString_escaped hc, heq]
        refine ⟨rfl, ?_⟩
        intro output houtput
        obtain ⟨d, -, houtput⟩ := Option.bind_eq_some_iff.mp houtput
        obtain ⟨output, hs, rfl⟩ := Option.map_eq_some_iff.mp houtput
        have := hle output hs
        rw [List.length_cons]
        omega

theorem getQuotedString_quoted {body : List UInt8} (h : Quoted body) (rest : List UInt8) :
    getQuotedString (34 :: (body ++ 34 :: rest)) =
      (processString body body.length).map fun output => (output, rest) := by
  have hlen : (body ++ 34 :: rest).length - rest.length - 1 = body.length := by
    rw [List.length_append, List.length_cons]
    omega
  unfold getQuotedString
  simp only [ne_eq, not_true_eq_false, if_false, skipQuotesLoop_quoted h, hlen,
    (processString_quoted _ _ (Nat.le_refl _) h rest).1, Option.bind_eq_bind, Option.bind_some]
  cases processString body body.length <;> rfl

/-- `get_quoted_string` is called on a quote, and takes what stands before the next one. -/
theorem getQuotedString_eq_some {string output rest : List UInt8}
    (h : getQuotedString string = some (output, rest)) :
    ∃ body, Quoted body ∧ string = 34 :: (body ++ 34 :: rest) ∧
      processString body body.length = some output := by
  cases string with
  | nil => cases h
  | cons c s =>
    have hget := h
    unfold getQuotedString at h
    simp only at h
    split_ifs at h with hc
    rw [not_not] at hc
    subst hc
    obtain ⟨rest', hskip, -⟩ := Option.bind_eq_some_iff.mp h
    obtain ⟨body, hbody, rfl⟩ := quoted_of_skipQuotesLoop s rest' hskip
    rw [getQuotedString_quoted hbody] at hget
    obtain ⟨output', hprocess, hpair⟩ := Option.map_eq_some_iff.mp hget
    obtain ⟨rfl, rfl⟩ := Prod.mk.inj hpair
    exact ⟨body, hbody, rfl, hprocess⟩

/-- `get_quoted_string` takes what stands between the quotes and nothing else: the string is the
same whatever follows, and the buffer that `process_string` allocates is large enough for it. -/
theorem getQuotedString_between_quotes (string : List UInt8) :
    (getQuotedString string = none ∧
        ∀ body rest, Quoted body → string ≠ 34 :: (body ++ 34 :: rest)) ∨
      ∃ body rest, Quoted body ∧ string = 34 :: (body ++ 34 :: rest) ∧
        (∀ rest', getQuotedString (34 :: (body ++ 34 :: rest')) =
          (processString body body.length).map fun output => (output, rest')) ∧
        ∀ output, processString body body.length = some output →
          output.length ≤ body.length := by
  cases string with
  | nil => exact Or.inl ⟨rfl, fun body rest _ heq => by cases heq⟩
  | cons c s =>
    by_cases hc : c = 34
    · subst hc
      cases hskip : skipQuotesLoop s with
      | none =>
        refine Or.inl ⟨?_, ?_⟩
        · unfold getQuotedString
          simp only [ne_eq, not_true_eq_false, if_false, hskip, Option.bind_eq_bind,
            Option.bind_none]
        · intro body rest hbody heq
          rw [(List.cons.inj heq).2, skipQuotesLoop_quoted hbody] at hskip
          cases hskip
      | some rest =>
        obtain ⟨body, hbody, rfl⟩ := quoted_of_skipQuotesLoop s rest hskip
        exact Or.inr ⟨body, rest, hbody, rfl, getQuotedString_quoted hbody,
          (processString_quoted _ _ (Nat.le_refl _) hbody rest).2⟩
    · refine Or.inl ⟨?_, fun body rest _ heq => hc (List.cons.inj heq).1⟩
      unfold getQuotedString
      simp only [ne_eq, hc, not_false_eq_true, if_true]

end CDevHws.Hw08
