import Mathlib.Algebra.Group.Nat.Defs
import Mathlib.Data.List.TakeWhile

/-!
# C strings

The functions of the C library on strings, in the locale "C". A string is the list of its bytes
without the NUL at its end; a pointer into a string is the part of the string from there on.
-/

namespace CString

/-- The string in an array that begins with `bytes`. -/
def ofBytes (bytes : List UInt8) : List UInt8 := bytes.takeWhile (· ≠ 0)

/-- `isspace`. -/
def isspace (c : UInt8) : Bool := 9 ≤ c && c ≤ 13 || c == 32

/-- `isdigit`. -/
def isdigit (c : UInt8) : Bool := 48 ≤ c && c ≤ 57

/-- What `strncpy(dest, src, n); dest[n] = '\0';` leaves in `dest`. -/
def strncpy (src : List UInt8) (n : ℕ) : List UInt8 := src.take n

/-- The `n` bytes that `strncpy(dest, src, n)` writes. -/
def strncpyBytes (src : List UInt8) (n : ℕ) : List UInt8 :=
  src.take n ++ List.replicate (n - src.length) 0

/-- `strtok_r` on the rest `s` of a string: the token, and the rest for the next call. -/
def strtok (delim s : List UInt8) : Option (List UInt8 × List UInt8) :=
  match s.dropWhile (· ∈ delim) with
  | [] => none
  | c :: s => some ((c :: s).takeWhile (· ∉ delim), ((c :: s).dropWhile (· ∉ delim)).drop 1)

/-- The index of the last byte that `strstr` reads in an array that begins with `bytes`: there the
first occurrence of `needle` ends, or the string. `none` if it reads beyond these bytes. -/
def strstrLast (needle bytes : List UInt8) : Option ℕ :=
  (List.range bytes.length).find? fun i => bytes[i]? = some 0 ∨ needle <:+ bytes.take (i + 1)

/-- The number that decimal digits stand for. -/
def decimal (digits : List UInt8) : ℕ := digits.foldl (fun n c => 10 * n + (c.toNat - 48)) 0

/-- A sign, and the rest of the string. -/
def scanSign : List UInt8 → Bool × List UInt8
  | 45 :: s => (true, s)
  | 43 :: s => (false, s)
  | s => (false, s)

/-- `sscanf` with the format `%zu`: white space, a sign and digits; a number beyond the range
becomes the largest one. -/
def scanSize (s : List UInt8) : Option UInt64 :=
  let (negative, s) := scanSign (s.dropWhile isspace)
  let digits := s.takeWhile isdigit
  if digits = [] then none
  else if 2 ^ 64 ≤ decimal digits then some (UInt64.ofNat (2 ^ 64 - 1))
  else if negative then some (0 - UInt64.ofNat (decimal digits))
  else some (UInt64.ofNat (decimal digits))

/-- `sscanf` with the format `%d`. What it makes of a number beyond the range of `int` is not
defined; here the number is kept. -/
def scanInt (s : List UInt8) : Option ℤ :=
  let (negative, s) := scanSign (s.dropWhile isspace)
  let digits := s.takeWhile isdigit
  if digits = [] then none
  else if negative then some (-decimal digits)
  else some (decimal digits)

theorem ofBytes_no_nul (bytes : List UInt8) : 0 ∉ ofBytes bytes :=
  fun h => by simpa using List.mem_takeWhile_imp h

theorem ofBytes_eq_self {bytes : List UInt8} (h : 0 ∉ bytes) : ofBytes bytes = bytes := by
  unfold ofBytes
  rw [List.takeWhile_eq_self_iff]
  intro c hmem
  exact decide_eq_true fun hzero => h (hzero ▸ hmem)

theorem ofBytes_append_nul (front back : List UInt8) :
    ofBytes (front ++ 0 :: back) = ofBytes front := by
  unfold ofBytes
  induction front with
  | nil => rfl
  | cons c front ih =>
    rw [List.cons_append, List.takeWhile_cons, List.takeWhile_cons, ih]

/-- Zeros after a string are not part of it. -/
theorem ofBytes_append_zeros {s : List UInt8} (h : 0 ∉ s) (n : ℕ) :
    ofBytes (s ++ List.replicate n 0) = s := by
  cases n with
  | zero => rw [List.replicate_zero, List.append_nil, ofBytes_eq_self h]
  | succ n => rw [List.replicate_succ, ofBytes_append_nul, ofBytes_eq_self h]

/-- A NUL cuts the string before it. -/
theorem ofBytes_set_nul {bytes : List UInt8} {i : ℕ} (hi : i < bytes.length) :
    ofBytes (bytes.set i 0) = ofBytes (bytes.take i) := by
  rw [List.set_eq_take_append_cons_drop, if_pos hi, ofBytes_append_nul]

/-- What comes after an array can only make the string in it longer. -/
theorem ofBytes_prefix_append (front back : List UInt8) :
    ofBytes front <+: ofBytes (front ++ back) := by
  unfold ofBytes
  induction front with
  | nil => exact List.nil_prefix
  | cons c front ih =>
    rw [List.cons_append, List.takeWhile_cons, List.takeWhile_cons]
    split_ifs
    · exact List.cons_prefix_cons.mpr ⟨rfl, ih⟩
    · exact List.nil_prefix

/-- A text without a NUL occurs in a string if and only if it stands somewhere in the array, and
there is no NUL before it. -/
theorem isInfix_ofBytes_iff {needle bytes : List UInt8} (hneedle : 0 ∉ needle) :
    needle <:+: ofBytes bytes ↔ ∃ i, 0 ∉ bytes.take i ∧ needle <+: bytes.drop i := by
  constructor
  · rintro ⟨front, back, hstring⟩
    obtain ⟨rest, hrest⟩ : ofBytes bytes <+: bytes := List.takeWhile_prefix _
    have hnul := ofBytes_no_nul bytes
    rw [← hstring] at hnul hrest
    refine ⟨front.length, ?_, ?_⟩
    · rw [← hrest, List.append_assoc, List.append_assoc, List.take_left]
      exact fun h => hnul (List.mem_append_left _ (List.mem_append_left _ h))
    · rw [← hrest, List.append_assoc, List.append_assoc, List.drop_left]
      exact List.prefix_append needle _
  · rintro ⟨i, hfront, rest, hrest⟩
    have hnul : 0 ∉ bytes.take i ++ needle := by
      rw [List.mem_append, not_or]
      exact ⟨hfront, hneedle⟩
    have hstring := ofBytes_prefix_append (bytes.take i ++ needle) rest
    rw [ofBytes_eq_self hnul, List.append_assoc, hrest, List.take_append_drop] at hstring
    exact (List.suffix_append _ needle).isInfix.trans hstring.isInfix

/-- Whether the first index is below a bound does not depend on the ones after it. -/
theorem exists_find_range_lt_iff {p : ℕ → Bool} {m n : ℕ} (hmn : m ≤ n) :
    (∃ i ∈ (List.range n).find? p, i < m) ↔ ∃ i < m, p i = true := by
  constructor
  · rintro ⟨i, hfind, hlt⟩
    exact ⟨i, hlt, List.find?_some hfind⟩
  · rintro ⟨i, hlt, hi⟩
    cases hfind : (List.range n).find? p with
    | none =>
      have hall := List.find?_range_eq_none.mp hfind i (hlt.trans_le hmn)
      rw [hi] at hall
      cases hall
    | some j =>
      obtain ⟨-, -, hbefore⟩ := List.find?_range_eq_some.mp hfind
      refine ⟨j, rfl, lt_of_not_ge fun hge => ?_⟩
      have hall := hbefore i (hlt.trans_le hge)
      rw [hi] at hall
      cases hall

theorem exists_isSuffix_take_iff {needle bytes : List UInt8} (hne : needle ≠ []) :
    (∃ i < bytes.length, needle <:+ bytes.take (i + 1)) ↔ needle <:+: bytes := by
  constructor
  · rintro ⟨i, -, hsuffix⟩
    exact hsuffix.isInfix.trans (List.take_prefix (i + 1) bytes).isInfix
  · rintro ⟨front, back, rfl⟩
    have hpos : 0 < needle.length := List.length_pos_iff.mpr hne
    have hlen : (front ++ needle).length - 1 + 1 = (front ++ needle).length :=
      Nat.sub_add_cancel (by rw [List.length_append]; omega)
    have hall : (front ++ needle ++ back).length = (front ++ needle).length + back.length :=
      List.length_append
    refine ⟨(front ++ needle).length - 1, by omega, ?_⟩
    rw [hlen, List.take_left]
    exact List.suffix_append front needle

/-- `strstr` stays inside an array if and only if it holds a NUL or an occurrence. -/
theorem strstrLast_inside_iff {needle : List UInt8} (hne : needle ≠ []) (array back : List UInt8) :
    (∃ i ∈ strstrLast needle (array ++ back), i < array.length) ↔
      0 ∈ array ∨ needle <:+: array := by
  have hle : array.length ≤ (array ++ back).length := by
    rw [List.length_append]
    omega
  unfold strstrLast
  rw [exists_find_range_lt_iff hle, ← exists_isSuffix_take_iff hne]
  constructor
  · rintro ⟨i, hlt, hi⟩
    rw [decide_eq_true_iff, List.getElem?_append_left hlt, List.take_append_of_le_length hlt] at hi
    exact hi.imp List.mem_of_getElem? fun hsuffix => ⟨i, hlt, hsuffix⟩
  · rintro (hmem | ⟨i, hlt, hsuffix⟩)
    · obtain ⟨i, hi⟩ := List.mem_iff_getElem?.mp hmem
      have hlt : i < array.length := (List.getElem?_eq_some_iff.mp hi).1
      refine ⟨i, hlt, decide_eq_true (Or.inl ?_)⟩
      rw [List.getElem?_append_left hlt]
      exact hi
    · refine ⟨i, hlt, decide_eq_true (Or.inr ?_)⟩
      rw [List.take_append_of_le_length hlt]
      exact hsuffix

theorem strncpyBytes_eq {src : List UInt8} {n : ℕ} (h : src.length ≤ n) :
    strncpyBytes src n = src ++ List.replicate (n - src.length) 0 := by
  unfold strncpyBytes
  rw [List.take_of_length_le h]

theorem strncpy_eq_self {src : List UInt8} {n : ℕ} (h : src.length ≤ n) : strncpy src n = src :=
  List.take_of_length_le h

/-! ## Numbers -/

theorem isdigit_iff {c : UInt8} : isdigit c = true ↔ 48 ≤ c.toNat ∧ c.toNat ≤ 57 := by
  unfold isdigit
  rw [Bool.and_eq_true, decide_eq_true_eq, decide_eq_true_eq, UInt8.le_iff_toNat_le,
    UInt8.le_iff_toNat_le]
  rfl

theorem isspace_of_isdigit {c : UInt8} (h : isdigit c = true) : isspace c = false := by
  rw [isdigit_iff] at h
  rw [Bool.eq_false_iff]
  intro hspace
  unfold isspace at hspace
  rw [Bool.or_eq_true, Bool.and_eq_true, decide_eq_true_eq, decide_eq_true_eq,
    UInt8.le_iff_toNat_le, UInt8.le_iff_toNat_le, beq_iff_eq] at hspace
  have h13 : (13 : UInt8).toNat = 13 := rfl
  have h32 : (32 : UInt8).toNat = 32 := rfl
  rcases hspace with ⟨-, hle⟩ | rfl
  · omega
  · omega

theorem scanSign_of_isdigit {c : UInt8} (h : isdigit c = true) (s : List UInt8) :
    scanSign (c :: s) = (false, c :: s) := by
  rw [isdigit_iff] at h
  unfold scanSign
  split
  · rename_i heq
    obtain ⟨rfl, -⟩ := List.cons.inj heq
    exact absurd h.1 (by decide)
  · rename_i heq
    obtain ⟨rfl, -⟩ := List.cons.inj heq
    exact absurd h.1 (by decide)
  · rfl

/-- Digits are read as the number that they stand for, up to the first other byte. -/
theorem scanSize_digits_append {digits rest : List UInt8} (hne : digits ≠ [])
    (hdigits : ∀ c ∈ digits, isdigit c = true) (hlt : decimal digits < 2 ^ 64)
    (hrest : ∀ c ∈ rest.head?, isdigit c = false) :
    scanSize (digits ++ rest) = some (UInt64.ofNat (decimal digits)) := by
  have hstop : rest.takeWhile isdigit = [] := by
    cases rest with
    | nil => rfl
    | cons c rest =>
      exact List.takeWhile_cons_of_neg (by rw [hrest c rfl]; exact Bool.false_ne_true)
  have htake : (digits ++ rest).takeWhile isdigit = digits := by
    rw [List.takeWhile_append_of_pos hdigits, hstop, List.append_nil]
  obtain ⟨c, digits', rfl⟩ := List.exists_cons_of_ne_nil hne
  rw [List.cons_append] at htake ⊢
  have hc := hdigits c List.mem_cons_self
  have hskip : (c :: (digits' ++ rest)).dropWhile isspace = c :: (digits' ++ rest) :=
    List.dropWhile_cons_of_neg (by rw [isspace_of_isdigit hc]; exact Bool.false_ne_true)
  unfold scanSize
  rw [hskip, scanSign_of_isdigit hc]
  simp only
  rw [htake, if_neg hne, if_neg (by omega), if_neg Bool.false_ne_true]

theorem scanSize_digits {digits : List UInt8} (hne : digits ≠ [])
    (hdigits : ∀ c ∈ digits, isdigit c = true) (hlt : decimal digits < 2 ^ 64) :
    scanSize digits = some (UInt64.ofNat (decimal digits)) := by
  rw [← List.append_nil digits, scanSize_digits_append hne hdigits hlt fun c hc => by cases hc]
  rw [List.append_nil]

/-! ## Tokens -/

section strtok

variable {delim skip token rest : List UInt8}

/-- A token is not empty and has no delimiter. -/
structure IsToken (delim token : List UInt8) : Prop where
  ne_nil : token ≠ []
  no_delim : ∀ c ∈ token, c ∉ delim

theorem strtok_of_nil {s : List UInt8} (h : s.dropWhile (· ∈ delim) = []) :
    strtok delim s = none := by
  unfold strtok
  rw [h]

theorem strtok_of_ne_nil {s s' : List UInt8} (h : s.dropWhile (· ∈ delim) = s') (hne : s' ≠ []) :
    strtok delim s = some (s'.takeWhile (· ∉ delim), (s'.dropWhile (· ∉ delim)).drop 1) := by
  obtain ⟨c, t, rfl⟩ := List.exists_cons_of_ne_nil hne
  unfold strtok
  rw [h]

theorem dropWhile_skip (hskip : ∀ c ∈ skip, c ∈ delim) (htoken : IsToken delim token)
    (rest : List UInt8) :
    (skip ++ (token ++ rest)).dropWhile (· ∈ delim) = token ++ rest := by
  obtain ⟨hne, hno⟩ := htoken
  rw [List.dropWhile_append_of_pos fun c hc => decide_eq_true (hskip c hc)]
  cases token with
  | nil => exact absurd rfl hne
  | cons c token =>
    exact List.dropWhile_cons_of_neg (by simpa using hno c (List.mem_cons_self))

/-- The next token ends at a delimiter, which is gone. -/
theorem strtok_append (hskip : ∀ c ∈ skip, c ∈ delim) (htoken : IsToken delim token) {d : UInt8}
    (hd : d ∈ delim) : strtok delim (skip ++ (token ++ d :: rest)) = some (token, rest) := by
  have htake : (token ++ d :: rest).takeWhile (· ∉ delim) = token := by
    rw [List.takeWhile_append_of_pos fun c hc => decide_eq_true (htoken.no_delim c hc),
      List.takeWhile_cons_of_neg (by simpa using hd), List.append_nil]
  have hdrop : (token ++ d :: rest).dropWhile (· ∉ delim) = d :: rest := by
    rw [List.dropWhile_append_of_pos fun c hc => decide_eq_true (htoken.no_delim c hc),
      List.dropWhile_cons_of_neg (by simpa using hd)]
  rw [strtok_of_ne_nil (dropWhile_skip hskip htoken (d :: rest)) (by simp), htake, hdrop]
  rfl

theorem strtok_start (htoken : IsToken delim token) {d : UInt8} (hd : d ∈ delim) :
    strtok delim (token ++ d :: rest) = some (token, rest) := by
  rw [← List.nil_append (token ++ d :: rest)]
  exact strtok_append (fun _ hc => absurd hc List.not_mem_nil) htoken hd

/-- There is no token if there are only delimiters. -/
theorem strtok_none {s : List UInt8} (h : ∀ c ∈ s, c ∈ delim) : strtok delim s = none :=
  strtok_of_nil (List.dropWhile_eq_nil_iff.mpr fun c hc => decide_eq_true (h c hc))

/-- The first token of `s`, by the text: before it there are only delimiters, and it goes on to the
next delimiter, after which the rest begins, or to the end. -/
def Splits (delim s token rest : List UInt8) : Prop :=
  IsToken delim token ∧ ∃ skip, (∀ c ∈ skip, c ∈ delim) ∧
    (s = skip ++ token ∧ rest = [] ∨ ∃ d ∈ delim, s = skip ++ (token ++ d :: rest))

theorem strtok_eq_some {s : List UInt8} (h : strtok delim s = some (token, rest)) :
    Splits delim s token rest := by
  unfold strtok at h
  have hsplit := List.takeWhile_append_dropWhile (p := (· ∈ delim)) (l := s)
  have hskip : ∀ c ∈ s.takeWhile (· ∈ delim), c ∈ delim :=
    fun c hc => by simpa using List.mem_takeWhile_imp hc
  generalize hdrop : s.dropWhile (· ∈ delim) = s' at h hsplit
  cases s' with
  | nil => cases h
  | cons c s' =>
    have hc : c ∉ delim := by
      have hhead := List.head?_dropWhile_not (· ∈ delim) s
      rw [hdrop] at hhead
      simpa using hhead
    simp only [Option.some.injEq, Prod.mk.injEq] at h
    obtain ⟨htake, hrest⟩ := h
    have htoken : IsToken delim token := by
      refine ⟨?_, fun x hx => ?_⟩
      · rw [← htake, List.takeWhile_cons_of_pos (by simpa using hc)]
        exact List.cons_ne_nil _ _
      · rw [← htake] at hx
        simpa using List.mem_takeWhile_imp hx
    have hsplit' := List.takeWhile_append_dropWhile (p := (· ∉ delim)) (l := c :: s')
    rw [htake] at hsplit'
    refine ⟨htoken, _, hskip, ?_⟩
    cases htail : (c :: s').dropWhile (· ∉ delim) with
    | nil =>
      rw [htail] at hrest hsplit'
      rw [List.append_nil] at hsplit'
      exact Or.inl ⟨by rw [hsplit', hsplit], hrest.symm⟩
    | cons d tail =>
      have hd : d ∈ delim := by
        have hhead := List.head?_dropWhile_not (· ∉ delim) (c :: s')
        rw [htail] at hhead
        simpa using hhead
      rw [htail] at hrest hsplit'
      refine Or.inr ⟨d, hd, ?_⟩
      rw [← hrest]
      show s = _ ++ (token ++ d :: tail)
      rw [hsplit', hsplit]

/-- A token at the end of the string. -/
theorem strtok_end (hskip : ∀ c ∈ skip, c ∈ delim) (htoken : IsToken delim token) :
    strtok delim (skip ++ token) = some (token, []) := by
  have hall : ∀ c ∈ token, decide (c ∉ delim) = true :=
    fun c hc => decide_eq_true (htoken.no_delim c hc)
  have htake : token.takeWhile (· ∉ delim) = token := List.takeWhile_eq_self_iff.mpr hall
  have hdrop : token.dropWhile (· ∉ delim) = [] := List.dropWhile_eq_nil_iff.mpr hall
  have hdelim := dropWhile_skip hskip htoken []
  rw [List.append_nil] at hdelim
  rw [strtok_of_ne_nil hdelim htoken.ne_nil, htake, hdrop]
  rfl

theorem strtok_eq_some_iff {s : List UInt8} :
    strtok delim s = some (token, rest) ↔ Splits delim s token rest := by
  constructor
  · exact strtok_eq_some
  · rintro ⟨htoken, skip, hskip, ⟨rfl, rfl⟩ | ⟨d, hd, rfl⟩⟩
    · exact strtok_end hskip htoken
    · exact strtok_append hskip htoken hd

/-- The rest is shorter by the token and its delimiter. -/
theorem strtok_rest {s : List UInt8} (h : strtok delim s = some (token, rest)) :
    rest <:+ s ∧ (rest = [] ∨ rest.length + 2 ≤ s.length) := by
  obtain ⟨htoken, skip, -, ⟨-, hrest⟩ | ⟨d, -, hs⟩⟩ := strtok_eq_some h
  · rw [hrest]
    exact ⟨List.nil_suffix, Or.inl rfl⟩
  · have hpos := List.length_pos_iff.mpr htoken.ne_nil
    refine ⟨⟨skip ++ (token ++ [d]), by rw [hs]; simp⟩, Or.inr ?_⟩
    rw [hs, List.length_append, List.length_append, List.length_cons]
    omega

end strtok

end CString
