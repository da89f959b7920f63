import CDevHws.Hw22.Aparser

/-!
# Proofs: what `parse_string` takes for the referer

`strtok_r` skips the delimiters before a token. So the first token after the size field is the
referer itself and not the space before its quote, and of the three last tokens, the third is the
user agent. If the line starts with a quote, the tokens are shifted further, and the quotes do not
suffice for all of them.
-/

namespace CDevHws.Hw22

open CString (strncpy strtok scanSize IsToken)

/-! ## Lines -/

/-- The fields of a line of the combined log format. -/
structure LogFields where
  /-- What comes before the request: address, user and time. -/
  lead : List UInt8
  method : List UInt8
  url : List UInt8
  /-- The rest of the request. -/
  version : List UInt8
  status : List UInt8
  /-- The decimal digits of the size. -/
  size : List UInt8
  referer : List UInt8
  agent : List UInt8

/-- The two quoted fields at the end. -/
def LogFields.quoted (l : LogFields) : List UInt8 :=
  [34] ++ (l.referer ++ 34 :: ([32] ++ 34 :: (l.agent ++ [34])))

/-- The part after the request. -/
def LogFields.tail (l : LogFields) : List UInt8 :=
  [32] ++ (l.status ++ 32 :: (l.size ++ 32 :: l.quoted))

/-- The text `lead"method url version" status size "referer" "agent"`. -/
def LogFields.text (l : LogFields) : List UInt8 :=
  l.lead ++ 34 :: (l.method ++ 32 :: (l.url ++ 32 :: (l.version ++ 34 :: l.tail)))

/-- A well-formed line. -/
structure CombinedLine extends LogFields where
  lead_no_quote : 34 ∉ lead
  method_ne : method ≠ []
  method_plain : 32 ∉ method ∧ 34 ∉ method
  url_ne : url ≠ []
  url_plain : 32 ∉ url ∧ 34 ∉ url
  version_ne : version ≠ []
  version_no_quote : 34 ∉ version
  status_ne : status ≠ []
  status_plain : 32 ∉ status ∧ 34 ∉ status
  size_ne : size ≠ []
  size_digits : ∀ c ∈ size, CString.isdigit c = true
  size_lt : CString.decimal size < 2 ^ 64
  referer_ne : referer ≠ []
  referer_no_quote : 34 ∉ referer
  agent_ne : agent ≠ []
  agent_no_quote : 34 ∉ agent
  no_nul : 0 ∉ toLogFields.text
  /-- The line fits into the buffer that it is read into. -/
  short : toLogFields.text.length < strlenmax

theorem CombinedLine.url_length (l : CombinedLine) : l.url.length ≤ strlenmax - 1 := by
  have hshort := l.short
  unfold LogFields.text at hshort
  simp only [List.length_append, List.length_cons] at hshort
  omega

theorem CombinedLine.agent_length (l : CombinedLine) : l.agent.length ≤ strlenmax - 1 := by
  have hshort := l.short
  unfold LogFields.text LogFields.tail LogFields.quoted at hshort
  simp only [List.length_append, List.length_cons] at hshort
  omega

/-! ## Tokens -/

theorem mem_quote {c : UInt8} : c ∈ quote ↔ c = 34 := List.mem_singleton

theorem mem_space {c : UInt8} : c ∈ space ↔ c = 32 := List.mem_singleton

theorem isToken_quote {token : List UInt8} (hne : token ≠ []) (h : 34 ∉ token) :
    IsToken quote token :=
  ⟨hne, fun _ hc hq => h (mem_quote.mp hq ▸ hc)⟩

theorem isToken_space {token : List UInt8} (hne : token ≠ []) (h : 32 ∉ token) :
    IsToken space token :=
  ⟨hne, fun _ hc hs => h (mem_space.mp hs ▸ hc)⟩

/-! ## A line with something before the request -/

theorem strtok_status (l : CombinedLine) :
    strtok space l.tail = some (l.status, l.size ++ 32 :: l.quoted) :=
  CString.strtok_append (fun _ hc => hc) (isToken_space l.status_ne l.status_plain.1)
    (mem_space.mpr rfl)

theorem strtok_size (l : CombinedLine) :
    strtok space (l.size ++ 32 :: l.quoted) = some (l.size, l.quoted) := by
  have hplain : 32 ∉ l.size := by
    intro hmem
    exact absurd (l.size_digits 32 hmem) (by decide)
  exact CString.strtok_start (isToken_space l.size_ne hplain) (mem_space.mpr rfl)

theorem strtok_referer (l : CombinedLine) :
    strtok quote l.quoted = some (l.referer, [32] ++ 34 :: (l.agent ++ [34])) :=
  CString.strtok_append (fun _ hc => hc) (isToken_quote l.referer_ne l.referer_no_quote)
    (mem_quote.mpr rfl)

/-- Between the referer and the user agent, and after both, there are quotes. -/
theorem parseReferer_fields (l : CombinedLine) (result : LogStringInfo) :
    parseReferer l.quoted result = (.success, { result with referer := l.agent }) := by
  have hspace : strtok quote ([32] ++ 34 :: (l.agent ++ [34])) = some ([32], l.agent ++ [34]) :=
    CString.strtok_start (isToken_quote (List.cons_ne_nil 32 []) (by simp)) (mem_quote.mpr rfl)
  have hagent : strtok quote (l.agent ++ [34]) = some (l.agent, []) :=
    CString.strtok_start (isToken_quote l.agent_ne l.agent_no_quote) (mem_quote.mpr rfl)
  have hcopy : strncpy l.agent (strlenmax - 1) = l.agent :=
    CString.strncpy_eq_self l.agent_length
  unfold parseReferer
  simp only [strtok_referer, hspace, hagent, hcopy]

theorem parseSize_tail (l : CombinedLine) (result : LogStringInfo) :
    parseSize l.tail result =
      (.success, { result with
        bytes := UInt64.ofNat (CString.decimal l.size), referer := l.agent }) := by
  have hscan := CString.scanSize_digits l.size_ne l.size_digits l.size_lt
  unfold parseSize
  simp only [strtok_status, strtok_size, hscan]
  rw [parseReferer_fields]

/-- If there is something before the request, the line is parsed, with the user agent in the place
of the referer. -/
theorem parseString_text (l : CombinedLine) (hlead : l.lead ≠ []) :
    parseString l.text =
      (.success, ⟨UInt64.ofNat (CString.decimal l.size), l.url, l.agent⟩) := by
  have hfirst : strtok quote l.text =
      some (l.lead, l.method ++ 32 :: (l.url ++ 32 :: (l.version ++ 34 :: l.tail))) :=
    CString.strtok_start (isToken_quote hlead l.lead_no_quote) (mem_quote.mpr rfl)
  have hmethod : strtok space (l.method ++ 32 :: (l.url ++ 32 :: (l.version ++ 34 :: l.tail))) =
      some (l.method, l.url ++ 32 :: (l.version ++ 34 :: l.tail)) :=
    CString.strtok_start (isToken_space l.method_ne l.method_plain.1) (mem_space.mpr rfl)
  have hurl : strtok space (l.url ++ 32 :: (l.version ++ 34 :: l.tail)) =
      some (l.url, l.version ++ 34 :: l.tail) :=
    CString.strtok_start (isToken_space l.url_ne l.url_plain.1) (mem_space.mpr rfl)
  have hversion : strtok quote (l.version ++ 34 :: l.tail) = some (l.version, l.tail) :=
    CString.strtok_start (isToken_quote l.version_ne l.version_no_quote) (mem_quote.mpr rfl)
  have hcopy : strncpy l.url (strlenmax - 1) = l.url := CString.strncpy_eq_self l.url_length
  unfold parseString
  simp only [hfirst, hmethod, hurl, hversion, hcopy]
  rw [parseSize_tail]

/-! ## A line that starts with the request -/

/-- After the quote at the end of the line there is nothing. -/
theorem rest_eq_nil {agent before rest : List UInt8} (hagent : 34 ∉ agent)
    (h : before ++ 34 :: rest = agent ++ [34]) : rest = [] := by
  induction rest using List.reverseRecOn with
  | nil => rfl
  | append_singleton rest last _ =>
    rw [← List.cons_append, ← List.append_assoc] at h
    have heq := (List.append_inj' h rfl).1
    exact absurd (heq ▸ List.mem_append_right before List.mem_cons_self) hagent

/-- One quote at the end is not enough for the three last tokens. -/
theorem parseReferer_fails {agent rest : List UInt8} (hagent : 34 ∉ agent)
    (hrest : rest <:+ agent ++ [34]) (result : LogStringInfo) :
    (parseReferer rest result).1 = .failure := by
  unfold parseReferer
  cases hfirst : strtok quote rest with
  | none => rfl
  | some first =>
    obtain ⟨token, rest'⟩ := first
    have hnil : rest' = [] := by
      obtain ⟨-, skip, -, ⟨-, hnil⟩ | ⟨d, hd, hs⟩⟩ := CString.strtok_eq_some hfirst
      · exact hnil
      · obtain ⟨before, hbefore⟩ := hrest
        rw [mem_quote.mp hd] at hs
        rw [hs, ← List.append_assoc, ← List.append_assoc] at hbefore
        exact rest_eq_nil hagent hbefore
    have hnone : strtok quote rest' = none := by
      rw [hnil]
      exact CString.strtok_none fun _ hc => absurd hc List.not_mem_nil
    simp only [hnone]

/-- The first token takes the quote before the user agent with it. -/
theorem parseSize_fails {agent : List UInt8} (hagent : 34 ∉ agent) (result : LogStringInfo) :
    (parseSize ([32] ++ 34 :: (agent ++ [34])) result).1 = .failure := by
  unfold parseSize
  cases hfirst : strtok space ([32] ++ 34 :: (agent ++ [34])) with
  | none => rfl
  | some first =>
    obtain ⟨token, rest⟩ := first
    have hrest : rest <:+ agent ++ [34] := by
      obtain ⟨hsuffix, hnil | hlen⟩ := CString.strtok_rest hfirst
      · rw [hnil]
        exact List.nil_suffix
      · refine List.suffix_of_suffix_length_le hsuffix ⟨[32, 34], rfl⟩ ?_
        simp only [List.length_append, List.length_cons, List.length_nil] at hlen ⊢
        omega
    simp only
    cases hsecond : strtok space rest with
    | none => rfl
    | some second =>
      obtain ⟨token', rest'⟩ := second
      simp only
      cases scanSize token' with
      | none => rfl
      | some bytes =>
        exact parseReferer_fails hagent ((CString.strtok_rest hsecond).1.trans hrest) _

/-- If nothing comes before the request, the whole request is the first token. -/
theorem parseString_no_lead (l : CombinedLine) (hlead : l.lead = []) :
    (parseString l.text).1 = .failure := by
  have hrequest : IsToken quote (l.method ++ 32 :: (l.url ++ 32 :: l.version)) := by
    refine isToken_quote (by simp [l.method_ne]) ?_
    rw [List.mem_append, List.mem_cons, List.mem_append, List.mem_cons]
    rintro (h | h | h | h | h)
    · exact l.method_plain.2 h
    · cases h
    · exact l.url_plain.2 h
    · cases h
    · exact l.version_no_quote h
  have htext : l.text =
      [34] ++ ((l.method ++ 32 :: (l.url ++ 32 :: l.version)) ++ 34 :: l.tail) := by
    unfold LogFields.text
    rw [hlead]
    simp
  have hfirst : strtok quote l.text =
      some (l.method ++ 32 :: (l.url ++ 32 :: l.version), l.tail) := by
    rw [htext]
    exact CString.strtok_append (fun _ hc => hc) hrequest (mem_quote.mpr rfl)
  unfold parseString
  simp only [hfirst, strtok_status, strtok_size, strtok_referer]
  exact parseSize_fails l.agent_no_quote _

/-- For every line of the combined log format, `parse_string` succeeds and stores the referer if
and only if there is something before the request and the referer is equal to the user agent. -/
theorem parse_string_referer_iff (l : CombinedLine) :
    ((parseString l.text).1 = .success ∧ (parseString l.text).2.referer = l.referer) ↔
      l.lead ≠ [] ∧ l.referer = l.agent := by
  by_cases hlead : l.lead = []
  · constructor
    · rintro ⟨hsuccess, -⟩
      rw [parseString_no_lead l hlead] at hsuccess
      cases hsuccess
    · rintro ⟨hne, -⟩
      exact absurd hlead hne
  · rw [parseString_text l hlead]
    constructor
    · rintro ⟨-, hreferer⟩
      exact ⟨hlead, hreferer.symm⟩
    · rintro ⟨-, hreferer⟩
      exact ⟨rfl, hreferer.symm⟩

/-- The line `a"G / H" 200 1 "r" "u"`. -/
def sampleLine : CombinedLine where
  lead := [97]
  method := [71]
  url := [47]
  version := [72]
  status := [50, 48, 48]
  size := [49]
  referer := [114]
  agent := [117]
  lead_no_quote := by simp
  method_ne := by simp
  method_plain := by simp
  url_ne := by simp
  url_plain := by simp
  version_ne := by simp
  version_no_quote := by simp
  status_ne := by simp
  status_plain := by simp
  size_ne := by simp
  size_digits := by simp [CString.isdigit]
  size_lt := by simp [CString.decimal]
  referer_ne := by simp
  referer_no_quote := by simp
  agent_ne := by simp
  agent_no_quote := by simp
  no_nul := by simp [LogFields.text, LogFields.tail, LogFields.quoted]
  short := by simp [LogFields.text, LogFields.tail, LogFields.quoted, strlenmax]

/-- The user agent is stored for the referer. -/
theorem parse_string_sample : parseString sampleLine.text = (.success, ⟨1, [47], [117]⟩) ∧
    ¬ ((parseString sampleLine.text).1 = .success ∧
      (parseString sampleLine.text).2.referer = sampleLine.referer) := by
  have hparse : parseString sampleLine.text = (.success, ⟨1, [47], [117]⟩) := rfl
  refine ⟨hparse, ?_⟩
  rw [hparse]
  rintro ⟨-, hreferer⟩
  cases hreferer

end CDevHws.Hw22
