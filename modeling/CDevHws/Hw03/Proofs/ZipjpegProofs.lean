import CDevHws.Hw03.Proofs.ScanProofs

/-!
# Proofs: what the listing shows

The loop of `main` takes every record after "PK" that is not a local header for the end of the
archive, because `check_zip_header` returns `EXIT_FAILURE` for it, which has the value of
`END_OF_CENTRAL_DIRECTORY`. And where the loop begins depends on the JPEG markers that are found
anywhere in the file, also in a plain archive.
-/

namespace CDevHws.Hw03

open Stdio
open Search (Finds)

/-- `Visits s bytes`: the loop that begins at `s` comes to a "PK" that is followed by `bytes`. -/
inductive Visits : List UInt8 → List UInt8 → Prop where
  /-- The first "PK" that is found. -/
  | first {s bytes : List UInt8} (h : Finds zipHeader s bytes) : Visits s bytes
  /-- One that comes after a local header with a whole name. -/
  | next {s bytes name rest bytes' : List UInt8}
      (h : Finds zipHeader s (0x03 :: 0x04 :: bytes)) (hname : NameField bytes name rest)
      (hrest : Visits rest bytes') : Visits s bytes'

/-- `Archive content s`: the loop begins at `s`. That is the whole file if the start of a JPEG is
not found in it, and else what follows the end of the JPEG. -/
def Archive (content s : List UInt8) : Prop :=
  (∀ image, ¬ Finds jpegHeader content image) ∧ s = content ∨
    ∃ image, Finds jpegHeader content image ∧ Finds jpegEnd image s

/-- `Listed s name`: the first "PK" in `s` begins a local header with this name. -/
def Listed (s name : List UInt8) : Prop :=
  ∃ bytes field rest, Finds zipHeader s (0x03 :: 0x04 :: bytes) ∧ NameField bytes field rest ∧
    CString.ofBytes field = name

/-- The first name that is printed. -/
def firstName : List Message → Option (List UInt8)
  | [] => none
  | .foundFile name :: _ => some name
  | _ :: messages => firstName messages

/-! ## The loop -/

theorem visits_iff {s bytes bytes' : List UInt8} (h : Finds zipHeader s bytes) :
    Visits s bytes' ↔ bytes' = bytes ∨ ∃ b name rest, bytes = 0x03 :: 0x04 :: b ∧
      NameField b name rest ∧ Visits rest bytes' := by
  constructor
  · intro hvisits
    cases hvisits with
    | first h' => exact Or.inl (h'.unique h)
    | next h' hname hrest => exact Or.inr ⟨_, _, _, h.unique h', hname, hrest⟩
  · rintro (rfl | ⟨b, name, rest, rfl, hname, hrest⟩)
    · exact Visits.first h
    · exact Visits.next h hname hrest

theorem length_of_finds {s bytes : List UInt8} (h : Finds zipHeader s bytes) :
    bytes.length + 2 ≤ s.length := by
  obtain ⟨front, rfl⟩ := h.exists_append
  simp only [zipHeader, List.length_append, List.length_cons, List.length_nil]
  omega

theorem NameField.length_le {bytes name rest : List UInt8} (h : NameField bytes name rest) :
    rest.length ≤ bytes.length := by
  have hlen := congrArg List.length h.after
  rw [List.length_drop, List.length_append] at hlen
  omega

theorem scanLoop_of_eof {fuel : ℕ} (hfuel : 0 < fuel) {f : File} (heof : f.eof = true) :
    scanLoop fuel f = some ([], f) := by
  cases fuel with
  | zero => omega
  | succ fuel =>
    rw [scanLoop]
    exact if_pos heof

/-- The loop ends. It reports the end record only when it has just read one, if and only if every
"PK" that it comes to is followed by one of the two record types. -/
theorem scanLoop_spec (fuel : ℕ) {f : File} (heof : f.eof = false) (hfuel : f.rest.length < fuel) :
    ∃ messages f', scanLoop fuel f = some (messages, f') ∧ f'.content = f.content ∧
      ((.eocdFound ∈ messages → eocdSignature <:+ f'.consumed) ↔
        ∀ bytes, Visits f.rest bytes → [0x03, 0x04] <+: bytes ∨ [0x05, 0x06] <+: bytes) := by
  induction fuel generalizing f with
  | zero => omega
  | succ fuel ih =>
    rcases scanLoop_cases fuel heof with ⟨f', hno, hcontent, hloop⟩ |
      ⟨bytes, name, rest, f', hfinds, hname, hcontent, heof', hrest, hloop⟩ |
      ⟨bytes, f', hfinds, hno, hcontent, heof', hloop⟩ |
      ⟨bytes, f', hfinds, hlocal, hcontent, hloop, hsuffix⟩
    · refine ⟨[], f', hloop, hcontent, iff_of_true (fun h => (by cases h)) ?_⟩
      rintro bytes hvisits
      cases hvisits with
      | first h => exact absurd h (hno _)
      | next h _ _ => exact absurd h (hno _)
    · have hlen := length_of_finds hfinds
      have hlen' := hname.length_le
      simp only [List.length_cons] at hlen
      obtain ⟨messages, f'', hscan, hcontent', hiff⟩ := ih heof' (by rw [hrest]; omega)
      refine ⟨_, f'', by rw [hloop, hscan]; rfl, hcontent'.trans hcontent, ?_⟩
      rw [hrest] at hiff
      rw [List.mem_cons, or_iff_right Message.noConfusion, hiff]
      constructor
      · intro h bytes' hvisits
        rcases (visits_iff hfinds).mp hvisits with rfl | ⟨b, name', rest', heq, hname', hvisits⟩
        · exact Or.inl (List.prefix_append [0x03, 0x04] bytes)
        · cases heq
          obtain ⟨-, rfl⟩ := hname.unique hname'
          exact h bytes' hvisits
      · exact fun h bytes' hvisits => h bytes' (Visits.next hfinds hname hvisits)
    · have hlen := length_of_finds hfinds
      simp only [List.length_cons] at hlen
      refine ⟨[], f', hloop.trans (scanLoop_of_eof (by omega) heof'), hcontent,
        iff_of_true (fun h => (by cases h)) ?_⟩
      intro bytes' hvisits
      rcases (visits_iff hfinds).mp hvisits with rfl | ⟨b, name', rest', heq, hname', -⟩
      · exact Or.inl (List.prefix_append [0x03, 0x04] bytes)
      · cases heq
        exact absurd hname' (hno _ _)
    · refine ⟨_, f', hloop, hcontent, ?_⟩
      rw [hsuffix]
      constructor
      · intro h bytes' hvisits
        rcases (visits_iff hfinds).mp hvisits with rfl | ⟨b, name', rest', rfl, -, -⟩
        · exact Or.inr (h List.mem_cons_self)
        · exact absurd (List.prefix_append [0x03, 0x04] b) hlocal
      · intro h _
        exact (h bytes (Visits.first hfinds)).resolve_left hlocal

/-- The first name that the loop prints is the one that is listed first. -/
theorem scanLoop_firstName (fuel : ℕ) {f : File} (heof : f.eof = false)
    (hfuel : f.rest.length < fuel) (name : List UInt8) :
    ∃ messages f', scanLoop fuel f = some (messages, f') ∧
      (firstName messages = some name ↔ Listed f.rest name) := by
  cases fuel with
  | zero => omega
  | succ fuel =>
    rcases scanLoop_cases fuel heof with ⟨f', hno, -, hloop⟩ |
      ⟨bytes, field, rest, f', hfinds, hname, -, heof', hrest, hloop⟩ |
      ⟨bytes, f', hfinds, hno, -, heof', hloop⟩ |
      ⟨bytes, f', hfinds, hlocal, -, hloop, -⟩
    · refine ⟨[], f', hloop, iff_of_false (fun h => by cases h) ?_⟩
      rintro ⟨bytes, field, rest, hfinds, -⟩
      exact hno _ hfinds
    · have hlen := length_of_finds hfinds
      have hlen' := hname.length_le
      simp only [List.length_cons] at hlen
      obtain ⟨messages, f'', hscan, -⟩ := scanLoop_spec fuel heof' (by rw [hrest]; omega)
      refine ⟨_, f'', by rw [hloop, hscan]; rfl, ?_⟩
      constructor
      · intro h
        exact ⟨bytes, field, rest, hfinds, hname, Option.some.inj h⟩
      · rintro ⟨bytes', field', rest', hfinds', hname', rfl⟩
        cases hfinds.unique hfinds'
        obtain ⟨rfl, -⟩ := hname.unique hname'
        rfl
    · have hlen := length_of_finds hfinds
      simp only [List.length_cons] at hlen
      refine ⟨[], f', hloop.trans (scanLoop_of_eof (by omega) heof'),
        iff_of_false (fun h => by cases h) ?_⟩
      rintro ⟨bytes', field', rest', hfinds', hname', -⟩
      cases hfinds.unique hfinds'
      exact hno _ _ hname'
    · refine ⟨_, f', hloop, iff_of_false (fun h => by cases h) ?_⟩
      rintro ⟨bytes', field', rest', hfinds', -⟩
      rw [hfinds.unique hfinds'] at hlocal
      exact hlocal (List.prefix_append [0x03, 0x04] bytes')

/-! ## The program -/

theorem firstName_append {front : List Message} (h : firstName front = none)
    (messages : List Message) : firstName (front ++ messages) = firstName messages := by
  induction front with
  | nil => rfl
  | cons message front ih =>
    cases message with
    | foundFile name => cases h
    | _ => exact ih h

/-- Either the program runs the loop where the archive begins, or there is no such place, and it
prints nothing of interest. -/
theorem zipjpegTest_cases (content : List UInt8) :
    (∃ front f, f.eof = false ∧ f.content = content ∧ f.rest.length < content.length + 1 ∧
      Archive content f.rest ∧ .eocdFound ∉ front ∧ firstName front = none ∧
      zipjpegTest content = (scanLoop (content.length + 1) f).map fun r =>
        ⟨front ++ r.1, exitSuccess, r.2⟩) ∨
    (∀ s, ¬ Archive content s) ∧ ∃ out, zipjpegTest content = some out ∧
      out.file.content = content ∧ .eocdFound ∉ out.messages ∧ firstName out.messages = none := by
  have hheader : 0 < jpegHeader.length := Nat.two_pos
  have hend : 0 < jpegEnd.length := Nat.two_pos
  generalize hout : zipjpegTest content = out
  unfold zipjpegTest at hout
  simp only at hout
  rcases signatureSearch_cases (fopen content) hheader with
    ⟨data, image, hfinds, hrest, hsearch⟩ | ⟨hno, hsearch⟩
  · set f₁ : File := { fopen content with pos := (fopen content).pos + data.length } with hf₁
    have hfirst : signatureSearch (fopen content) jpegHeader 2 = (true, f₁) := hsearch
    rw [hfirst] at hout
    simp only [if_true] at hout
    have hrest₁ : f₁.rest = image := rest_advance hrest false
    rw [rest_fopen] at hfinds hrest
    rcases signatureSearch_cases f₁ hend with
      ⟨data', s, hfinds', hrest', hsearch'⟩ | ⟨hno', hsearch'⟩
    · have hsecond : signatureSearch f₁ jpegEnd 2 = (true, _) := hsearch'
      rw [hsecond] at hout
      simp only [if_true] at hout
      have hrest₂ : ({ f₁ with pos := f₁.pos + data'.length } : File).rest = s :=
        rest_advance hrest' false
      refine Or.inl ⟨[.opened, .jpegFound, .jpegEnded, .begin],
        { f₁ with pos := f₁.pos + data'.length }, rfl, rfl, ?_, ?_, by simp, rfl, hout.symm⟩
      · rw [hrest₂, hrest, ← hrest₁, hrest', List.length_append, List.length_append]
        omega
      · rw [hrest₁] at hfinds'
        exact Or.inr ⟨image, hfinds, hrest₂ ▸ hfinds'⟩
    · have hsecond : signatureSearch f₁ jpegEnd 2 = (false, _) := hsearch'
      rw [hsecond] at hout
      simp only [Bool.false_eq_true, if_false] at hout
      refine Or.inr ⟨?_, _, hout.symm, rfl, by simp, rfl⟩
      rintro s (⟨hnone, -⟩ | ⟨image', hfinds', hends⟩)
      · exact hnone image hfinds
      · rw [hfinds'.unique hfinds, ← hrest₁] at hends
        exact hno' s hends
  · have hfirst : signatureSearch (fopen content) jpegHeader 2 = (false, _) := hsearch
    rw [hfirst] at hout
    simp only [Bool.false_eq_true, if_false] at hout
    rw [rest_fopen] at hno
    exact Or.inl ⟨[.opened, .noJpeg, .begin], fopen content, rfl, rfl, Nat.lt_succ_self _,
      Or.inl ⟨hno, rfl⟩, by simp, rfl, hout.symm⟩

theorem Archive.unique {content s s' : List UInt8} (h : Archive content s)
    (h' : Archive content s') : s = s' := by
  rcases h with ⟨hno, rfl⟩ | ⟨image, hfinds, hends⟩
  · rcases h' with ⟨-, rfl⟩ | ⟨image', hfinds', -⟩
    · rfl
    · exact absurd hfinds' (hno image')
  · rcases h' with ⟨hno', -⟩ | ⟨image', hfinds', hends'⟩
    · exact absurd hfinds (hno' image)
    · rw [hfinds.unique hfinds'] at hends
      exact hends.unique hends'

/-- Whatever the file is: that the report of the end record comes only when the last four bytes read
are its signature holds if and only if each "PK" that the loop comes to is followed by one of the
two record types. -/
theorem eocd_read_iff (content : List UInt8) : ∃ out, zipjpegTest content = some out ∧
    out.file.content = content ∧
    ((.eocdFound ∈ out.messages → eocdSignature <:+ out.file.consumed) ↔
      ∀ s bytes, Archive content s → Visits s bytes →
        [0x03, 0x04] <+: bytes ∨ [0x05, 0x06] <+: bytes) := by
  rcases zipjpegTest_cases content with
    ⟨front, f, heof, hcontent, hlen, harchive, hfront, -, hrun⟩ |
    ⟨hno, out, hrun, hcontent, hmessages, -⟩
  · obtain ⟨messages, f', hscan, hcontent', hiff⟩ := scanLoop_spec _ heof hlen
    refine ⟨_, by rw [hrun, hscan]; rfl, hcontent'.trans hcontent, ?_⟩
    rw [List.mem_append, or_iff_right hfront, hiff]
    constructor
    · intro h s bytes hs
      rw [hs.unique harchive]
      exact h bytes
    · exact fun h bytes => h f.rest bytes harchive
  · refine ⟨out, hrun, hcontent, iff_of_true (fun h => absurd h hmessages) ?_⟩
    exact fun s _ hs => absurd hs (hno s)

/-- After "PK" and two other bytes the program reports the end record, and does not list the file
whose local header follows. -/
theorem eocd_read_other : ∃ out,
    zipjpegTest ([0x50, 0x4B, 0, 0] ++ [0x50, 0x4B, 0x03, 0x04] ++ List.replicate 22 0 ++
      [1, 0, 0, 0] ++ [97]) = some out ∧
    out.messages = [.opened, .noJpeg, .begin, .eocdFound] ∧
    out.file.consumed = [0x50, 0x4B] ∧ ¬ eocdSignature <:+ out.file.consumed := by
  refine ⟨⟨_, _, ⟨_, 2, false⟩⟩, rfl, rfl, rfl, fun h => ?_⟩
  exact absurd h.length_le (by decide)

/-! ## Plain archives -/

/-- A complete local header with its name. -/
structure LocalHeader where
  /-- The fields between the signature and the length of the name. -/
  fields : List UInt8
  /-- The length of the extra field. -/
  extra : List UInt8
  name : List UInt8
  length_fields : fields.length = 22
  length_extra : extra.length = 2
  name_ne_nil : name ≠ []
  length_name : name.length ≤ 255

/-- The bytes of a local header. -/
def LocalHeader.bytes (h : LocalHeader) : List UInt8 :=
  [0x50, 0x4B, 0x03, 0x04] ++ h.fields ++ [UInt8.ofNat h.name.length, 0] ++ h.extra ++ h.name

/-- The header is listed in a file that begins with it, with its name up to the first NUL. -/
theorem listed_header (h : LocalHeader) (rest name : List UInt8) :
    Listed (h.bytes ++ rest) name ↔ CString.ofBytes h.name = name := by
  set bytes := h.fields ++ [UInt8.ofNat h.name.length, 0] ++ h.extra ++ h.name ++ rest with hbytes
  have heq : h.bytes ++ rest = zipHeader ++ 0x03 :: 0x04 :: bytes := by
    unfold LocalHeader.bytes
    simp only [hbytes, List.append_assoc]
    rfl
  have hfinds : Finds zipHeader (h.bytes ++ rest) (0x03 :: 0x04 :: bytes) := heq ▸ Finds.here _
  have hlen : (UInt8.ofNat h.name.length).toNat = h.name.length := by
    have hle := h.length_name
    rw [UInt8.toNat_ofNat']
    exact Nat.mod_eq_of_lt (by omega)
  have hname : NameField bytes h.name rest := by
    refine ⟨⟨UInt8.ofNat h.name.length, 0, ?_, ?_⟩, ?_⟩
    · rw [hbytes, ← h.length_fields, List.append_assoc, List.append_assoc, List.append_assoc,
        List.drop_left]
      rfl
    · have hle := h.length_name
      have hzero : (0 : UInt8).toNat = 0 := rfl
      rw [hlen, hzero]
      omega
    · have hfront : (h.fields ++ [UInt8.ofNat h.name.length, 0] ++ h.extra).length = 26 := by
        simp [h.length_fields, h.length_extra]
      have happend : bytes = (h.fields ++ [UInt8.ofNat h.name.length, 0] ++ h.extra) ++
          (h.name ++ rest) := List.append_assoc _ h.name rest
      rw [happend, ← hfront, List.drop_left]
  constructor
  · rintro ⟨bytes', field, rest', hfinds', hfield, rfl⟩
    cases hfinds.unique hfinds'
    rw [(hname.unique hfield).1]
  · rintro rfl
    exact ⟨bytes, h.name, rest, hfinds, hname, rfl⟩

theorem zipjpegTest_firstName (content name : List UInt8) :
    ∃ out, zipjpegTest content = some out ∧
      (firstName out.messages = some name ↔ ∃ s, Archive content s ∧ Listed s name) := by
  rcases zipjpegTest_cases content with
    ⟨front, f, heof, hcontent, hlen, harchive, -, hfront, hrun⟩ |
    ⟨hno, out, hrun, hcontent, -, hmessages⟩
  · obtain ⟨messages, f', hscan, hiff⟩ := scanLoop_firstName _ heof hlen name
    refine ⟨_, by rw [hrun, hscan]; rfl, ?_⟩
    rw [firstName_append hfront, hiff]
    constructor
    · exact fun h => ⟨f.rest, harchive, h⟩
    · rintro ⟨s, hs, h⟩
      rw [hs.unique harchive] at h
      exact h
  · refine ⟨out, hrun, iff_of_false (fun h => ?_) ?_⟩
    · rw [hmessages] at h
      cases h
    · rintro ⟨s, hs, -⟩
      exact hno s hs

/-- Whatever follows a local header at the beginning of the file: its name is the first one printed
if and only if it has no NUL and, in case the start of a JPEG is found somewhere in the file, the
end of a JPEG is found after it and what follows that lists the same name first. -/
theorem first_name_iff (h : LocalHeader) (rest : List UInt8) :
    ∃ out, zipjpegTest (h.bytes ++ rest) = some out ∧
      (firstName out.messages = some h.name ↔
        0 ∉ h.name ∧ ∀ image, Finds jpegHeader (h.bytes ++ rest) image →
          ∃ s, Finds jpegEnd image s ∧ Listed s h.name) := by
  obtain ⟨out, hrun, hiff⟩ := zipjpegTest_firstName (h.bytes ++ rest) h.name
  refine ⟨out, hrun, hiff.trans ⟨?_, ?_⟩⟩
  · rintro ⟨s, hs, hlisted⟩
    have hnul : 0 ∉ h.name := by
      obtain ⟨-, field, -, -, -, hname⟩ := hlisted
      rw [← hname]
      exact CString.ofBytes_no_nul field
    refine ⟨hnul, fun image himage => ?_⟩
    rcases hs with ⟨hno, -⟩ | ⟨image', himage', hends⟩
    · exact absurd himage (hno image)
    · rw [himage'.unique himage] at hends
      exact ⟨s, hends, hlisted⟩
  · rintro ⟨hnul, hjpeg⟩
    by_cases hfound : ∃ image, Finds jpegHeader (h.bytes ++ rest) image
    · obtain ⟨image, himage⟩ := hfound
      obtain ⟨s, hends, hlisted⟩ := hjpeg image himage
      exact ⟨s, Or.inr ⟨image, himage, hends⟩, hlisted⟩
    · refine ⟨h.bytes ++ rest, Or.inl ⟨not_exists.mp hfound, rfl⟩, ?_⟩
      exact (listed_header h rest h.name).mpr (CString.ofBytes_eq_self hnul)

/-- A plain archive with the file "a" in which the bytes FF D8 occur: it is taken for a broken
image, and nothing is listed. -/
theorem first_name_missing : ∃ (h : LocalHeader) (out : Outcome),
    h.name = [97] ∧ zipjpegTest (h.bytes ++ [0xFF, 0xD8]) = some out ∧
      out.messages = [.opened, .jpegFound, .jpegBroken] ∧ firstName out.messages ≠ some h.name :=
  ⟨⟨List.replicate 22 0, [0, 0], [97], rfl, rfl, List.cons_ne_nil _ _, by simp⟩,
    ⟨[.opened, .jpegFound, .jpegBroken], exitFailure, ⟨_, 33, true⟩⟩, rfl, rfl, rfl,
    fun h => by cases h⟩

end CDevHws.Hw03
