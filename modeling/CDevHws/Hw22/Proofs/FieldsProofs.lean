import CDevHws.Hw22.Proofs.ParseStringProofs

/-!
# Proofs: what `parse_string` stores before it fails

The URL and the size are stored as soon as they are found, and whatever comes after them does not
change them. So the two fields are right for every tail of the line; but they also stay when the
parser fails later on.
-/

namespace CDevHws.Hw22

open CString (strncpy strtok scanSize IsToken Splits strtok_eq_some_iff)

/-! ## The URL and the size, whatever comes after them -/

theorem parseReferer_keeps (rest : List UInt8) (result : LogStringInfo) :
    (parseReferer rest result).2.url = result.url ∧
      (parseReferer rest result).2.bytes = result.bytes := by
  unfold parseReferer
  repeat' split
  all_goals exact ⟨rfl, rfl⟩

theorem parseSize_keeps_url (rest : List UInt8) (result : LogStringInfo) :
    (parseSize rest result).2.url = result.url := by
  unfold parseSize
  repeat' split
  any_goals rfl
  exact (parseReferer_keeps _ _).1

/-- A line with a request and a size. -/
structure RequestLine where
  /-- What comes before the request. -/
  lead : List UInt8
  method : List UInt8
  url : List UInt8
  /-- The rest of the request. -/
  version : List UInt8
  status : List UInt8
  /-- The decimal digits of the size. -/
  size : List UInt8
  /-- Whatever comes after the size. -/
  tail : List UInt8
  lead_ne : lead ≠ []
  lead_no_quote : 34 ∉ lead
  method_ne : method ≠ []
  method_no_space : 32 ∉ method
  url_ne : url ≠ []
  url_no_space : 32 ∉ url
  version_ne : version ≠ []
  version_no_quote : 34 ∉ version
  status_ne : status ≠ []
  status_no_space : 32 ∉ status
  size_ne : size ≠ []
  size_digits : ∀ c ∈ size, CString.isdigit c = true
  size_lt : CString.decimal size < 2 ^ 64
  /-- The tail starts with a space or a newline, if it is not empty. -/
  tail_head : ∀ c ∈ tail.head?, c = 32 ∨ c = 10

/-- The part after the request. -/
def RequestLine.answer (l : RequestLine) : List UInt8 :=
  [32] ++ (l.status ++ 32 :: (l.size ++ l.tail))

/-- The text `lead"method url version" status size` and the tail. -/
def RequestLine.text (l : RequestLine) : List UInt8 :=
  l.lead ++ 34 :: (l.method ++ 32 :: (l.url ++ 32 :: (l.version ++ 34 :: l.answer)))

/-- The token of the size ends at the next space, perhaps after a newline. -/
theorem strtok_size_tail (l : RequestLine) :
    ∃ more rest, strtok space (l.size ++ l.tail) = some (l.size ++ more, rest) ∧
      ∀ c ∈ more.head?, CString.isdigit c = false := by
  have hplain : ∀ c ∈ l.size, c ∉ space := by
    intro c hc hspace
    rw [mem_space.mp hspace] at hc
    exact absurd (l.size_digits 32 hc) (by decide)
  have hskip : (l.size ++ l.tail).dropWhile (· ∈ space) = l.size ++ l.tail := by
    obtain ⟨c, size, hsize⟩ := List.exists_cons_of_ne_nil l.size_ne
    have hc : c ∉ space := hplain c (by rw [hsize]; exact List.mem_cons_self)
    rw [hsize, List.cons_append]
    exact List.dropWhile_cons_of_neg (by simpa using hc)
  have htake : (l.size ++ l.tail).takeWhile (· ∉ space) =
      l.size ++ l.tail.takeWhile (· ∉ space) :=
    List.takeWhile_append_of_pos fun c hc => decide_eq_true (hplain c hc)
  have hstrtok := CString.strtok_of_ne_nil hskip (by simp [l.size_ne])
  rw [htake] at hstrtok
  refine ⟨_, _, hstrtok, fun c hc => ?_⟩
  have hhead := l.tail_head
  cases htail : l.tail with
  | nil =>
    rw [htail] at hc
    cases hc
  | cons d tail =>
    rw [htail] at hhead hc
    rcases hhead d rfl with rfl | rfl
    · rw [List.takeWhile_cons_of_neg (by decide)] at hc
      cases hc
    · rw [List.takeWhile_cons_of_pos (by decide)] at hc
      cases hc
      rfl

theorem parseSize_answer (l : RequestLine) (result : LogStringInfo) :
    (parseSize l.answer result).2.bytes = UInt64.ofNat (CString.decimal l.size) := by
  have hstatus : strtok space l.answer = some (l.status, l.size ++ l.tail) :=
    CString.strtok_append (fun _ hc => hc) (isToken_space l.status_ne l.status_no_space)
      (mem_space.mpr rfl)
  obtain ⟨more, rest, hsize, hmore⟩ := strtok_size_tail l
  have hscan := CString.scanSize_digits_append l.size_ne l.size_digits l.size_lt hmore
  unfold parseSize
  simp only [hstatus, hsize, hscan]
  exact (parseReferer_keeps _ _).2

/-- For every line with a request and a size that fits into the buffer of `parse_file`, whatever
comes after the size, `parse_string` stores the URL and the size. -/
theorem parse_string_url_bytes (l : RequestLine) (hshort : l.text.length < strlenmax) :
    (parseString l.text).2.url = l.url ∧
      (parseString l.text).2.bytes = UInt64.ofNat (CString.decimal l.size) := by
  have hfirst : strtok quote l.text =
      some (l.lead, l.method ++ 32 :: (l.url ++ 32 :: (l.version ++ 34 :: l.answer))) :=
    CString.strtok_start (isToken_quote l.lead_ne l.lead_no_quote) (mem_quote.mpr rfl)
  have hmethod : strtok space (l.method ++ 32 :: (l.url ++ 32 :: (l.version ++ 34 :: l.answer))) =
      some (l.method, l.url ++ 32 :: (l.version ++ 34 :: l.answer)) :=
    CString.strtok_start (isToken_space l.method_ne l.method_no_space) (mem_space.mpr rfl)
  have hurl : strtok space (l.url ++ 32 :: (l.version ++ 34 :: l.answer)) =
      some (l.url, l.version ++ 34 :: l.answer) :=
    CString.strtok_start (isToken_space l.url_ne l.url_no_space) (mem_space.mpr rfl)
  have hversion : strtok quote (l.version ++ 34 :: l.answer) = some (l.version, l.answer) :=
    CString.strtok_start (isToken_quote l.version_ne l.version_no_quote) (mem_quote.mpr rfl)
  have hlen : l.url.length ≤ strlenmax - 1 := by
    unfold RequestLine.text at hshort
    simp only [List.length_append, List.length_cons] at hshort
    omega
  have hcopy : strncpy l.url (strlenmax - 1) = l.url := CString.strncpy_eq_self hlen
  unfold parseString
  simp only [hfirst, hmethod, hurl, hversion, hcopy]
  exact ⟨parseSize_keeps_url _ _, parseSize_answer l _⟩

/-- The line `a"G / H" 200 1` and a newline. -/
theorem parse_string_short_line : ∃ l : RequestLine,
    l.text = [97, 34, 71, 32, 47, 32, 72, 34, 32, 50, 48, 48, 32, 49, 10] ∧
      (parseString l.text).2.url = [47] ∧ (parseString l.text).2.bytes = 1 := by
  let l : RequestLine :=
    { lead := [97]
      method := [71]
      url := [47]
      version := [72]
      status := [50, 48, 48]
      size := [49]
      tail := [10]
      lead_ne := by simp
      lead_no_quote := by simp
      method_ne := by simp
      method_no_space := by simp
      url_ne := by simp
      url_no_space := by simp
      version_ne := by simp
      version_no_quote := by simp
      status_ne := by simp
      status_no_space := by simp
      size_ne := by simp
      size_digits := by simp [CString.isdigit]
      size_lt := by simp [CString.decimal]
      tail_head := by simp }
  have hshort : l.text.length < strlenmax := by decide
  exact ⟨l, rfl, parse_string_url_bytes l hshort⟩

/-! ## Failures -/

/-- `rest` is what comes after tokens with these delimiters, one after the other. -/
inductive After : List (List UInt8) → List UInt8 → List UInt8 → Prop where
  | nil (s : List UInt8) : After [] s s
  | cons {delim : List UInt8} {delims : List (List UInt8)} {s token s' rest : List UInt8}
      (h : Splits delim s token s') (hrest : After delims s' rest) : After (delim :: delims) s rest

/-- The line goes on to its URL: after the first quote there are two words. -/
def HasUrl (s : List UInt8) : Prop := ∃ rest, After [quote, space, space] s rest

/-- The line has all parts that the parser asks for, and the size begins like a number. -/
def Complete (s : List UInt8) : Prop :=
  ∃ s' size s'' rest, After [quote, space, space, quote, space] s s' ∧ Splits space s' size s'' ∧
    scanSize size ≠ none ∧ After [quote, quote, quote] s'' rest

section after

variable {delim : List UInt8} {delims : List (List UInt8)} {s token s' : List UInt8}

theorem not_after_of_none (h : strtok delim s = none) (rest : List UInt8) :
    ¬ After (delim :: delims) s rest := by
  intro hafter
  cases hafter with
  | cons hsplits _ =>
    rw [strtok_eq_some_iff.mpr hsplits] at h
    cases h

theorem after_cons_iff (h : strtok delim s = some (token, s')) (rest : List UInt8) :
    After (delim :: delims) s rest ↔ After delims s' rest := by
  constructor
  · intro hafter
    cases hafter with
    | cons hsplits hrest =>
      rw [strtok_eq_some_iff.mpr hsplits] at h
      cases h
      exact hrest
  · intro hrest
    exact After.cons (strtok_eq_some_iff.mp h) hrest

theorem exists_after_nil (s : List UInt8) : ∃ rest, After [] s rest := ⟨s, After.nil s⟩

end after

theorem parseReferer_success_iff (s : List UInt8) (result : LogStringInfo) :
    (parseReferer s result).1 = .success ↔ ∃ rest, After [quote, quote, quote] s rest := by
  unfold parseReferer
  cases hfirst : strtok quote s with
  | none => simp [not_after_of_none hfirst]
  | some first =>
    simp only [after_cons_iff hfirst]
    cases hsecond : strtok quote first.2 with
    | none => simp [not_after_of_none hsecond]
    | some second =>
      simp only [after_cons_iff hsecond]
      cases hthird : strtok quote second.2 with
      | none => simp [not_after_of_none hthird]
      | some third => simp [after_cons_iff hthird, exists_after_nil]

/-- The parts of the line after the request that the parser asks for. -/
def CompleteAnswer (s : List UInt8) : Prop :=
  ∃ s' size s'' rest, After [space] s s' ∧ Splits space s' size s'' ∧ scanSize size ≠ none ∧
    After [quote, quote, quote] s'' rest

theorem parseSize_success_iff (s : List UInt8) (result : LogStringInfo) :
    (parseSize s result).1 = .success ↔ CompleteAnswer s := by
  constructor
  · intro hsuccess
    unfold parseSize at hsuccess
    split at hsuccess
    · cases hsuccess
    · rename_i status s' hstatus
      split at hsuccess
      · cases hsuccess
      · rename_i size s'' hsize
        split at hsuccess
        · cases hsuccess
        · rename_i bytes hscan
          obtain ⟨rest, hrest⟩ := (parseReferer_success_iff _ _).mp hsuccess
          exact ⟨s', size, s'', rest, (after_cons_iff hstatus s').mpr (After.nil s'),
            strtok_eq_some_iff.mp hsize, by rw [hscan]; simp, hrest⟩
  · rintro ⟨s', size, s'', rest, hstatus, hsize, hscan, hrest⟩
    obtain ⟨bytes, hbytes⟩ := Option.ne_none_iff_exists'.mp hscan
    cases hstatus with
    | cons hsplits hnil =>
      cases hnil
      unfold parseSize
      simp only [strtok_eq_some_iff.mpr hsplits, strtok_eq_some_iff.mpr hsize, hbytes]
      exact (parseReferer_success_iff _ _).mpr ⟨rest, hrest⟩

/-- Before the URL, the parser fails with nothing stored. -/
theorem parseString_of_no_url {s : List UInt8} (h : ¬ HasUrl s) :
    parseString s = (.failure, ⟨0, [], []⟩) := by
  unfold parseString
  cases hlead : strtok quote s with
  | none => rfl
  | some lead =>
    cases hmethod : strtok space lead.2 with
    | none => simp only [hmethod]
    | some method =>
      cases hurl : strtok space method.2 with
      | none => simp only [hmethod, hurl]
      | some url =>
        refine absurd ⟨url.2, ?_⟩ h
        rw [after_cons_iff hlead, after_cons_iff hmethod, after_cons_iff hurl]
        exact After.nil url.2

/-- After the URL, it is stored, and what is left decides about the exit status. -/
theorem parseString_of_url {s : List UInt8} (h : HasUrl s) :
    (parseString s).2.url ≠ [] ∧ ((parseString s).1 = .success ↔ Complete s) := by
  obtain ⟨rest, hafter⟩ := h
  cases hafter with
  | cons hlead hafter =>
  cases hafter with
  | cons hmethod hafter =>
  cases hafter with
  | cons hurl hafter =>
  cases hafter
  have hlead' := strtok_eq_some_iff.mpr hlead
  have hmethod' := strtok_eq_some_iff.mpr hmethod
  have hurl' := strtok_eq_some_iff.mpr hurl
  rename_i url
  have hne : strncpy url (strlenmax - 1) ≠ [] := by
    obtain ⟨c, tail, hcons⟩ := List.exists_cons_of_ne_nil hurl.1.ne_nil
    rw [hcons]
    exact List.cons_ne_nil c _
  have hcomplete : Complete s ↔ ∃ s', After [quote] rest s' ∧ CompleteAnswer s' := by
    unfold Complete CompleteAnswer
    simp only [after_cons_iff hlead', after_cons_iff hmethod', after_cons_iff hurl']
    constructor
    · rintro ⟨s', size, s'', rest', hversion, hrest⟩
      cases hversion with
      | cons hquote hspace =>
        exact ⟨_, After.cons hquote (After.nil _), s', size, s'', rest', hspace, hrest⟩
    · rintro ⟨s₁, hversion, s', size, s'', rest', hspace, hrest⟩
      cases hversion with
      | cons hquote hnil =>
        cases hnil
        exact ⟨s', size, s'', rest', After.cons hquote hspace, hrest⟩
  rw [hcomplete]
  unfold parseString
  simp only [hlead', hmethod', hurl']
  cases hversion : strtok quote rest with
  | none => exact ⟨hne, by simp [not_after_of_none hversion]⟩
  | some version =>
    refine ⟨by rw [parseSize_keeps_url]; exact hne, ?_⟩
    rw [parseSize_success_iff]
    constructor
    · intro hanswer
      exact ⟨version.2, (after_cons_iff hversion _).mpr (After.nil _), hanswer⟩
    · rintro ⟨s', hs', hanswer⟩
      rw [after_cons_iff hversion] at hs'
      cases hs'
      exact hanswer

/-- For every line, a failure of `parse_string` leaves nothing behind if and only if the line breaks
off before its URL, so that nothing is stored yet, or has all parts, so that there is no failure. -/
theorem parse_string_failure_clean_iff (s : List UInt8) :
    ((parseString s).1 = .failure →
      (parseString s).2.bytes = 0 ∧ (parseString s).2.url = [] ∧ (parseString s).2.referer = []) ↔
      ¬ HasUrl s ∨ Complete s := by
  by_cases hurl : HasUrl s
  · obtain ⟨hne, hsuccess⟩ := parseString_of_url hurl
    constructor
    · intro hclean
      refine Or.inr (hsuccess.mp ?_)
      cases hstatus : (parseString s).1 with
      | success => rfl
      | failure => exact absurd (hclean hstatus).2.1 hne
    · rintro (hno | hcomplete) hfailure
      · exact absurd hurl hno
      · rw [hsuccess.mpr hcomplete] at hfailure
        cases hfailure
  · rw [parseString_of_no_url hurl]
    exact ⟨fun _ => Or.inl hurl, fun _ _ => ⟨rfl, rfl, rfl⟩⟩

/-- The line `a"G / H" 200 1` without referer and user agent fails after the URL and the size have
been stored. -/
theorem parse_string_failure_dirty :
    parseString [97, 34, 71, 32, 47, 32, 72, 34, 32, 50, 48, 48, 32, 49] =
      (.failure, ⟨1, [47], []⟩) ∧
    ¬ ((parseString [97, 34, 71, 32, 47, 32, 72, 34, 32, 50, 48, 48, 32, 49]).1 = .failure →
      (parseString [97, 34, 71, 32, 47, 32, 72, 34, 32, 50, 48, 48, 32, 49]).2.bytes = 0 ∧
      (parseString [97, 34, 71, 32, 47, 32, 72, 34, 32, 50, 48, 48, 32, 49]).2.url = [] ∧
      (parseString [97, 34, 71, 32, 47, 32, 72, 34, 32, 50, 48, 48, 32, 49]).2.referer = []) := by
  have hparse : parseString [97, 34, 71, 32, 47, 32, 72, 34, 32, 50, 48, 48, 32, 49] =
      (.failure, ⟨1, [47], []⟩) := rfl
  refine ⟨hparse, fun hclean => ?_⟩
  rw [hparse] at hclean
  exact absurd (hclean rfl).2.1 (List.cons_ne_nil 47 [])

end CDevHws.Hw22
