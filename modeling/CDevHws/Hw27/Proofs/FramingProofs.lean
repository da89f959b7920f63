import CDevHws.Hw27.Proofs.ResponseProofs
import CDevHws.Lib.Search

/-!
# Proofs: the lengths in the error responses

The headers of the responses 403 and 404 are written out with the length of the text after them: 133
for 404, and 146 and the length of the URL for 403.
-/

namespace CDevHws.Hw27

open Search (First)

/-- The field that tells the length, up to its value. -/
def contentLength : List UInt8 := ascii "\r\nContent-Length: "

/-- The fields after it. -/
def otherFields : List UInt8 := ascii "\r\nConnection: close\r\nContent-Type: text/html"

/-- The response has a header up to the first blank line and a body after it. The value of the first
`Content-Length` of the header is a number, and the length of the body. -/
structure Framed (header body data : List UInt8) : Prop where
  blankLine : First crlfcrlf header body data
  value : ∃ status digits fields,
    First contentLength status (digits ++ 13 :: fields) header ∧ digits ≠ [] ∧
      (∀ c ∈ digits, CString.isdigit c = true) ∧ CString.decimal digits = body.length

theorem digits_ascii_toString (n : ℕ) :
    ascii (toString n) ≠ [] ∧ ∀ c ∈ ascii (toString n), CString.isdigit c = true := by
  have hdigits : ascii (toString n) =
      (Nat.toDigits 10 n).map fun c => UInt8.ofNat c.toNat := by
    unfold ascii
    rw [Nat.toString_eq_ofList_toDigits, String.toList_ofList]
  rw [hdigits]
  refine ⟨fun hnil => ?_, fun c hc => ?_⟩
  · exact Nat.toDigits_ne_nil (List.map_eq_nil_iff.mp hnil)
  · obtain ⟨d, hd, rfl⟩ := List.mem_map.mp hc
    have hdigit := Char.isDigit_iff_toNat.mp
      (Nat.isDigit_of_mem_toDigits (by omega) (by omega) hd)
    have hzero : '0'.toNat = 48 := rfl
    have hnine : '9'.toNat = 57 := rfl
    have hlt : d.toNat < 2 ^ 8 := by omega
    rw [CString.isdigit_iff, UInt8.toNat_ofNat_of_lt' hlt]
    omega

theorem isdigit_not_mem_crlfcrlf {c : UInt8} (h : CString.isdigit c = true) : c ∉ crlfcrlf := by
  intro hmem
  rw [CString.isdigit_iff] at h
  have hcases : c = 13 ∨ c = 10 ∨ c = 13 ∨ c = 10 := by simpa [crlfcrlf] using hmem
  rcases hcases with rfl | rfl | rfl | rfl
  all_goals exact absurd h.1 (by decide)

theorem ascii_crlfcrlf : ascii "\r\n\r\n" = crlfcrlf := by decide

/-- What does not occur in the texts around the length. -/
theorem not_isInfix_texts :
    ¬ crlfcrlf <:+: (otherFields ++ crlfcrlf).dropLast ∧
    ∀ status ∈ [ascii "HTTP/1.1 403 Forbidden", ascii "HTTP/1.1 404 Not Found"],
      ¬ crlfcrlf <:+: status ++ contentLength ∧
        ¬ contentLength <:+: (status ++ contentLength).dropLast := by
  decide +kernel

/-- A response with these parts is framed. -/
theorem framed_of_parts {status body : List UInt8} {n : ℕ} (hbody : body.length = n)
    (hstatus : status ∈ [ascii "HTTP/1.1 403 Forbidden", ascii "HTTP/1.1 404 Not Found"]) :
    Framed (status ++ contentLength ++ (ascii (toString n) ++ otherFields)) body
      (status ++ contentLength ++ (ascii (toString n) ++ otherFields) ++ crlfcrlf ++ body) := by
  obtain ⟨hne, hdigits⟩ := digits_ascii_toString n
  obtain ⟨hrest, htexts⟩ := not_isInfix_texts
  obtain ⟨hblank, hfirst⟩ := htexts status hstatus
  refine ⟨⟨rfl, ?_⟩, status, ascii (toString n), otherFields.tail, ⟨rfl, hfirst⟩, hne, hdigits, ?_⟩
  · have hdrop : (status ++ contentLength ++ (ascii (toString n) ++ otherFields) ++
        crlfcrlf).dropLast = status ++ contentLength ++
          (ascii (toString n) ++ (otherFields ++ crlfcrlf).dropLast) := by
      rw [List.append_assoc, List.append_assoc (ascii (toString n)),
        List.dropLast_append_of_ne_nil (by simp [crlfcrlf]),
        List.dropLast_append_of_ne_nil (by simp [crlfcrlf])]
    rw [hdrop]
    exact Search.not_isInfix_between (fun c hc => isdigit_not_mem_crlfcrlf (hdigits c hc)) hne
      hblank hrest
  · rw [decimal_ascii_toString, hbody]

/-! ## The two responses -/

/-- The body of the response 403. -/
def forbiddenBody (url : List UInt8) : List UInt8 :=
  ascii ("<html><head><title>403 Forbidden</title></head><body>" ++
      "<h1>Forbidden</h1><p>You don't have permission to access /") ++ url ++
    ascii " on this server!</p></body></html>\n"

/-- The body of the response 404. -/
def notFoundBody : List UInt8 :=
  ascii ("<html><head><title>404 Not Found</title></head><body>" ++
    "<h1>Not Found</h1>The requested URL was not found on this server.</body></html>\n")

theorem length_forbiddenBody (url : List UInt8) :
    (forbiddenBody url).length = 146 + url.length := by
  have hstart : (ascii ("<html><head><title>403 Forbidden</title></head><body>" ++
      "<h1>Forbidden</h1><p>You don't have permission to access /")).length = 111 := by
    rw [length_ascii, String.length_append]
    decide
  have hend : (ascii " on this server!</p></body></html>\n").length = 35 := by
    rw [length_ascii]
    decide
  unfold forbiddenBody
  rw [List.length_append, List.length_append, hstart, hend]
  omega

theorem forbidden_eq (url : List UInt8) (urlLen : ℕ) :
    forbidden url urlLen = ascii "HTTP/1.1 403 Forbidden" ++ contentLength ++
      (ascii (toString (146 + urlLen)) ++ otherFields) ++ crlfcrlf ++ forbiddenBody url := by
  have hstatus : ascii "HTTP/1.1 403 Forbidden\r\nContent-Length: " =
      ascii "HTTP/1.1 403 Forbidden" ++ contentLength := by
    simp only [contentLength, ← ascii_append, String.reduceAppend]
  have hfields : ascii ("\r\nConnection: close\r\nContent-Type: text/html\r\n\r\n" ++
      "<html><head><title>403 Forbidden</title></head><body><h1>Forbidden</h1>" ++
      "<p>You don't have permission to access /") = otherFields ++ crlfcrlf ++
      ascii ("<html><head><title>403 Forbidden</title></head><body>" ++
        "<h1>Forbidden</h1><p>You don't have permission to access /") := by
    simp only [otherFields, ← ascii_crlfcrlf, ← ascii_append, String.reduceAppend]
  unfold forbidden forbiddenBody
  rw [hstatus, hfields]
  simp only [List.append_assoc]

theorem notFound_eq :
    notFound = ascii "HTTP/1.1 404 Not Found" ++ contentLength ++
      (ascii (toString 133) ++ otherFields) ++ crlfcrlf ++ notFoundBody := by
  have hvalue : toString 133 = "133" := rfl
  simp only [notFound, contentLength, otherFields, notFoundBody, hvalue, ← ascii_crlfcrlf,
    ← ascii_append, String.reduceAppend]

theorem framed_forbidden (url : List UInt8) : ∃ header,
    Framed header (forbiddenBody url) (forbidden url url.length) := by
  rw [forbidden_eq]
  exact ⟨_, framed_of_parts (length_forbiddenBody url) List.mem_cons_self⟩

theorem framed_notFound : ∃ header, Framed header notFoundBody notFound := by
  rw [notFound_eq]
  refine ⟨_, framed_of_parts ?_ (List.mem_cons_of_mem _ List.mem_cons_self)⟩
  unfold notFoundBody
  rw [length_ascii, String.length_append]
  decide

/-- For every URL that `parse_request` can store, if there is no access to the file or it cannot be
opened: `do_write` sends the whole response, `out_size` is its length, and its header tells the
length of its body. -/
theorem error_responses_framed {ep : EpData} {answers : Answers} (hurl : ep.url ≠ [])
    (hshort : ep.url.length < strlenmax) (hlen : ep.urlLen = ep.url.length)
    (herror : answers.access = .eacces ∨ answers.file = none) :
    ∃ header body, Framed header body (response ep.url answers) ∧
      responses (doWrite ep answers).2 = [response ep.url answers] ∧
      (doWrite ep answers).1.outSize = (response ep.url answers).length ∧
      (response ep.url answers).length < bufsize - 1 := by
  rcases doWrite_cases ep answers with ⟨hzero, -⟩ |
    ⟨-, limit, text, opened, result, sent, hdo, hreply⟩
  · rw [hlen] at hzero
    exact absurd (List.length_eq_zero_iff.mp hzero) hurl
  have hout : (doWrite ep answers).1.outSize = text.length := by
    rw [hdo]
    rfl
  have hfile : answers.access ≠ .eacces → answers.file = none := herror.resolve_left
  unfold response
  cases hcase : hreply with
  | denied haccess =>
    have hfits := length_forbidden_lt hshort
    obtain ⟨header, hframed⟩ := framed_forbidden ep.url
    rw [← hlen] at hfits hframed
    have hsent := hreply.responses_doWrite hfits hdo
    rw [if_pos haccess, ← hlen]
    exact ⟨header, _, hframed, hsent, hout, hfits⟩
  | missing haccess hnone =>
    obtain ⟨header, hframed⟩ := framed_notFound
    have hsent := hreply.responses_doWrite length_notFound_lt hdo
    rw [if_neg haccess, hnone]
    exact ⟨header, _, hframed, hsent, hout, length_notFound_lt⟩
  | failed haccess hsome hsend =>
    rw [hfile haccess] at hsome
    cases hsome
  | file haccess hsome hsend =>
    rw [hfile haccess] at hsome
    cases hsome

/-- A request for "/a" without access. -/
theorem error_responses_framed_a :
    ∃ header body, Framed header body (response [97] ⟨.eacces, none, none, none⟩) ∧
      responses (doWrite ⟨0, .zero, .zero, 0, 0, [97], 1⟩ ⟨.eacces, none, none, none⟩).2 =
        [response [97] ⟨.eacces, none, none, none⟩] ∧
      (doWrite ⟨0, .zero, .zero, 0, 0, [97], 1⟩ ⟨.eacces, none, none, none⟩).1.outSize =
        (response [97] ⟨.eacces, none, none, none⟩).length ∧
      (response [97] ⟨.eacces, none, none, none⟩).length < bufsize - 1 :=
  @error_responses_framed ⟨0, .zero, .zero, 0, 0, [97], 1⟩ ⟨.eacces, none, none, none⟩
    (List.cons_ne_nil 97 []) (by decide) rfl (Or.inl rfl)

end CDevHws.Hw27
