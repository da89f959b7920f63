import CDevHws.Hw03.ZipjpegTest
import CDevHws.Lib.Search

/-!
# Proofs: the scan for local headers

`signature_search` is the one-pass search of `CDevHws.Lib.Search`. A round of the loop of `main` is
described by what the search finds in the bytes that are left and by what follows there; the loop
ends at the first record that is not a local header.
-/

namespace CDevHws.Hw03

open Stdio
open Search (Finds)

/-! ## `signature_search` -/

theorem take_succ_append {sig : List UInt8} {k : ℕ} {c : UInt8} (hc : sig[k]? = some c)
    (s : List UInt8) : sig.take k ++ c :: s = sig.take (k + 1) ++ s := by
  rw [List.take_add_one, hc, List.append_assoc]
  rfl

/-- The search with `k` bytes of the signature matched goes on as if they were still to be read. -/
theorem searchLoop_spec {sig : List UInt8} (s : List UInt8) {k : ℕ} (hk : k < sig.length) :
    (∃ data rest, Finds sig (sig.take k ++ s) rest ∧ s = data ++ rest ∧
      searchLoop sig sig.length k s = (true, data.length)) ∨
    (∀ rest, ¬ Finds sig (sig.take k ++ s) rest) ∧
      searchLoop sig sig.length k s = (false, s.length) := by
  induction s generalizing k with
  | nil =>
    refine Or.inr ⟨fun rest => ?_, rfl⟩
    rw [List.append_nil]
    exact Search.not_finds_take hk
  | cons c s ih =>
    unfold searchLoop
    simp only
    by_cases hc : sig[k]? = some c
    · rw [if_pos hc, take_succ_append hc]
      by_cases hfull : k + 1 = sig.length
      · rw [if_pos hfull, hfull, List.take_length]
        exact Or.inl ⟨[c], s, Finds.here s, rfl, rfl⟩
      · rw [if_neg hfull]
        rcases ih (k := k + 1) (by omega) with ⟨data, rest, hfinds, rfl, hloop⟩ | ⟨hno, hloop⟩
        · exact Or.inl ⟨c :: data, rest, hfinds, rfl, by rw [hloop]; rfl⟩
        · exact Or.inr ⟨hno, by rw [hloop]; rfl⟩
    · have hpos : 0 < sig.length := by omega
      rw [if_neg hc, if_neg (Nat.ne_of_lt hpos)]
      rcases ih hpos with ⟨data, rest, hfinds, rfl, hloop⟩ | ⟨hno, hloop⟩
      · exact Or.inl ⟨c :: data, rest, Finds.skip hk hc hfinds, rfl, by rw [hloop]; rfl⟩
      · refine Or.inr ⟨fun rest hfinds => ?_, by rw [hloop]; rfl⟩
        exact hno rest ((Search.finds_skip_iff hk hc).mp hfinds)

theorem signatureSearch_cases (f : File) {sig : List UInt8} (hsig : 0 < sig.length) :
    (∃ data rest, Finds sig f.rest rest ∧ f.rest = data ++ rest ∧
      signatureSearch f sig sig.length = (true, { f with pos := f.pos + data.length })) ∨
    (∀ rest, ¬ Finds sig f.rest rest) ∧ signatureSearch f sig sig.length =
      (false, { f with pos := f.pos + f.rest.length, eof := true }) := by
  unfold signatureSearch
  rcases searchLoop_spec f.rest hsig with ⟨data, rest, hfinds, hrest, hloop⟩ | ⟨hno, hloop⟩
  · refine Or.inl ⟨data, rest, hfinds, hrest, ?_⟩
    rw [hloop]
    simp
  · refine Or.inr ⟨hno, ?_⟩
    rw [hloop]
    simp

/-! ## Headers -/

/-- The name field of a local header, of which `bytes` are those after the signature: `name` is the
name, cut to 255 bytes, and `rest` follows it. -/
structure NameField (bytes name rest : List UInt8) : Prop where
  size : ∃ lo hi : UInt8, (bytes.drop 22).take 2 = [lo, hi] ∧
    name.length = min (lo.toNat + 256 * hi.toNat) 255
  after : bytes.drop 26 = name ++ rest

theorem NameField.unique {bytes name rest name' rest' : List UInt8} (h : NameField bytes name rest)
    (h' : NameField bytes name' rest') : name = name' ∧ rest = rest' := by
  obtain ⟨lo, hi, hsize, hlen⟩ := h.size
  obtain ⟨lo', hi', hsize', hlen'⟩ := h'.size
  rw [hsize] at hsize'
  cases hsize'
  have heq : name ++ rest = name' ++ rest' := h.after.symm.trans h'.after
  exact List.append_inj heq (hlen.trans hlen'.symm)

theorem exists_two {l : List UInt8} (h : ¬ l.length < 2) :
    ∃ x y rest, l = [x, y] ++ rest := by
  rcases l with _ | ⟨x, _ | ⟨y, rest⟩⟩
  · exact absurd Nat.two_pos h
  · exact absurd (Nat.lt_succ_self 1) h
  · exact ⟨x, y, rest, rfl⟩

theorem nameSize_eq (lo hi : UInt8) :
    (if uint16 [lo, hi] ≥ maxFilenameLength then maxFilenameLength - 1 else uint16 [lo, hi]) =
      min (lo.toNat + 256 * hi.toNat) 255 := by
  show (if lo.toNat + 256 * hi.toNat ≥ 256 then 256 - 1 else lo.toNat + 256 * hi.toNat) = _
  split_ifs
  · omega
  · omega

/-- What `get_filename` reads, if the whole name is there; else the end of the file is reached. -/
theorem getFilename_cases (f : File) :
    (∃ name rest f', NameField f.rest name rest ∧ getFilename f = (some (name ++ [0]), f') ∧
      f'.content = f.content ∧ f'.eof = false ∧ f'.rest = rest) ∨
    (∀ name rest, ¬ NameField f.rest name rest) ∧
      ∃ f', getFilename f = (none, f') ∧ f'.content = f.content ∧ f'.eof = true := by
  have hskip : fseek localHeaderSkipBytes f = _ := fseek_forward 22 f
  set f₁ : File := { f with pos := f.pos + 22, eof := false } with hf₁
  have hrest₁ : f₁.rest = f.rest.drop 22 := (List.drop_drop ..).symm
  unfold getFilename
  rw [hskip]
  simp only
  by_cases hshort : f₁.rest.length < 2
  · rw [fread_short hshort]
    simp only [if_pos hshort]
    refine Or.inr ⟨?_, _, rfl, rfl, rfl⟩
    rintro name rest ⟨⟨lo, hi, hsize, -⟩, -⟩
    have hlen := congrArg List.length hsize
    rw [List.length_take, ← hrest₁] at hlen
    simp only [List.length_cons, List.length_nil] at hlen
    omega
  · obtain ⟨lo, hi, rest₂, hrest₂⟩ := exists_two hshort
    have hread : fread 2 f₁ = ([lo, hi], { f₁ with pos := f₁.pos + 2 }) := fread_of_append hrest₂
    have hsize : (f.rest.drop 22).take 2 = [lo, hi] := by
      rw [← hrest₁, hrest₂]
      rfl
    have hafter : f.rest.drop 26 = rest₂.drop 2 := by
      have hdrop : f.rest.drop 26 = f₁.rest.drop 4 := by
        rw [hrest₁, List.drop_drop]
      rw [hdrop, hrest₂]
      rfl
    have hskip₂ : fseek 2 { f₁ with pos := f₁.pos + 2 } = _ := fseek_forward 2 _
    set f₃ : File := { f₁ with pos := f₁.pos + 2 + 2, eof := false } with hf₃
    have hrest₃ : f₃.rest = rest₂.drop 2 := by
      have hdrop : f.rest.drop 26 = f.content.drop (f.pos + 26) := List.drop_drop ..
      rw [← hafter, hdrop]
      rfl
    rw [hread]
    simp only [List.length_cons, List.length_nil]
    rw [if_neg (by omega), hskip₂]
    simp only
    rw [if_neg (by simp), nameSize_eq]
    set n := min (lo.toNat + 256 * hi.toNat) 255 with hn
    by_cases hcut : f₃.rest.length < n
    · rw [fread_short hcut]
      simp only [if_pos hcut]
      refine Or.inr ⟨?_, _, rfl, rfl, rfl⟩
      rintro name rest ⟨⟨lo', hi', hsize', hlen⟩, hafter'⟩
      rw [hsize] at hsize'
      cases hsize'
      rw [hafter, ← hrest₃] at hafter'
      rw [hafter', List.length_append] at hcut
      omega
    · have hlen : (f₃.rest.take n).length = n := List.length_take_of_le (by omega)
      have happend : f₃.rest = f₃.rest.take n ++ f₃.rest.drop n := (List.take_append_drop n _).symm
      have hname : fread n f₃ = (f₃.rest.take n, { f₃ with pos := f₃.pos + n }) := by
        have hfull := fread_of_append happend
        rw [hlen] at hfull
        exact hfull
      rw [hname]
      simp only [hlen]
      rw [if_neg (by omega)]
      refine Or.inl ⟨f₃.rest.take n, f₃.rest.drop n, _, ⟨⟨lo, hi, hsize, hlen⟩, ?_⟩, rfl, rfl, rfl,
        ?_⟩
      · rw [hafter, ← hrest₃]
        exact happend
      · exact (List.drop_drop ..).symm

/-- What `check_zip_header` makes of the bytes after "PK". -/
theorem checkZipHeader_cases {f : File} (heof : f.eof = false) :
    (∃ rest, f.rest = 0x03 :: 0x04 :: rest ∧
      checkZipHeader f = (localFileHeader, { f with pos := f.pos + 2 })) ∨
    (∃ rest, f.rest = 0x05 :: 0x06 :: rest ∧
      checkZipHeader f = (endOfCentralDirectory, { f with pos := f.pos + 2 })) ∨
    ¬ [0x03, 0x04] <+: f.rest ∧ ¬ [0x05, 0x06] <+: f.rest ∧ ∃ f' data,
      checkZipHeader f = (endOfCentralDirectory, f') ∧ f'.content = f.content ∧
        f'.consumed = f.consumed ++ data ∧ data.length < 2 := by
  unfold checkZipHeader
  by_cases hshort : f.rest.length < 2
  · rw [fread_short hshort]
    simp only [if_pos hshort]
    refine Or.inr (Or.inr ⟨fun h => ?_, fun h => ?_, _, f.rest, rfl, rfl, ?_, hshort⟩)
    · exact absurd h.length_le (by simp only [List.length_cons, List.length_nil]; omega)
    · exact absurd h.length_le (by simp only [List.length_cons, List.length_nil]; omega)
    · exact consumed_advance (List.append_nil _).symm true
  · obtain ⟨x, y, rest, hrest⟩ := exists_two hshort
    have hread : fread 2 f = ([x, y], { f with pos := f.pos + 2 }) := fread_of_append hrest
    rw [hread, hrest]
    simp only [List.length_cons, List.length_nil, List.cons_append, List.nil_append]
    rw [if_neg (by omega)]
    by_cases hlocal : [x, y] = [0x03, 0x04]
    · rw [if_pos hlocal]
      cases hlocal
      exact Or.inl ⟨rest, rfl, rfl⟩
    rw [if_neg hlocal]
    by_cases heocd : [x, y] = [0x05, 0x06]
    · rw [if_pos heocd]
      cases heocd
      exact Or.inr (Or.inl ⟨rest, rfl, rfl⟩)
    rw [if_neg heocd]
    have hback : fseek (-2) { f with pos := f.pos + 2 } = (0, f) := by
      have hpos : (0 : ℤ) ≤ ((f.pos + 2 : ℕ) : ℤ) + -2 := by omega
      have hnat : (((f.pos + 2 : ℕ) : ℤ) + -2).toNat = f.pos := by omega
      unfold fseek
      rw [if_pos hpos]
      simp only
      rw [hnat, ← heof]
    rw [hback]
    have hhead : ∀ a b : UInt8, [a, b] <+: x :: y :: rest → [x, y] = [a, b] := by
      intro a b h
      obtain ⟨ha, h⟩ := List.cons_prefix_cons.mp h
      obtain ⟨hb, -⟩ := List.cons_prefix_cons.mp h
      rw [ha, hb]
    exact Or.inr (Or.inr ⟨fun h => hlocal (hhead _ _ h), fun h => heocd (hhead _ _ h), f, [],
      rfl, rfl, (List.append_nil _).symm, Nat.two_pos⟩)

/-! ## One round of the loop -/

/-- The signature of the record at the end of an archive. -/
def eocdSignature : List UInt8 := [0x50, 0x4B, 0x05, 0x06]

/-- After "PK" and at most one more byte, the last four bytes are not the end record. -/
theorem not_eocd_suffix (front : List UInt8) {data : List UInt8} (h : data.length < 2) :
    ¬ eocdSignature <:+ front ++ zipHeader ++ data := by
  rintro ⟨before, heq⟩
  rcases data with _ | ⟨x, _ | ⟨y, data⟩⟩
  · have hlast := congrArg List.getLast? heq
    simp [eocdSignature, zipHeader] at hlast
  · have hlast := congrArg (fun l => l.dropLast.getLast?) heq
    simp [eocdSignature, zipHeader] at hlast
  · simp only [List.length_cons] at h
    omega

/-- A round that begins before the end of the file was met: nothing is found; or a local header with
a whole name; or one that is cut off; or some other record, at which the loop ends. -/
theorem scanLoop_cases (fuel : ℕ) {f : File} (heof : f.eof = false) :
    (∃ f', (∀ rest, ¬ Finds zipHeader f.rest rest) ∧ f'.content = f.content ∧
      scanLoop (fuel + 1) f = some ([], f')) ∨
    (∃ bytes name rest f', Finds zipHeader f.rest (0x03 :: 0x04 :: bytes) ∧
      NameField bytes name rest ∧ f'.content = f.content ∧ f'.eof = false ∧ f'.rest = rest ∧
      scanLoop (fuel + 1) f = (scanLoop fuel f').map fun r =>
        (.foundFile (CString.ofBytes name) :: r.1, r.2)) ∨
    (∃ bytes f', Finds zipHeader f.rest (0x03 :: 0x04 :: bytes) ∧
      (∀ name rest, ¬ NameField bytes name rest) ∧ f'.content = f.content ∧ f'.eof = true ∧
      scanLoop (fuel + 1) f = scanLoop fuel f') ∨
    ∃ bytes f', Finds zipHeader f.rest bytes ∧ ¬ [0x03, 0x04] <+: bytes ∧
      f'.content = f.content ∧ scanLoop (fuel + 1) f = some ([.eocdFound], f') ∧
      (eocdSignature <:+ f'.consumed ↔ [0x05, 0x06] <+: bytes) := by
  have hlen : 2 = zipHeader.length := rfl
  have hpos : 0 < zipHeader.length := Nat.two_pos
  generalize hloop : scanLoop (fuel + 1) f = out
  rw [scanLoop, if_neg (by simp [heof]), hlen] at hloop
  rcases signatureSearch_cases f hpos with
    ⟨data, bytes, hfinds, hrest, hsearch⟩ | ⟨hno, hsearch⟩
  · rw [hsearch] at hloop
    simp only [if_true] at hloop
    set f₁ : File := { f with pos := f.pos + data.length } with hf₁
    have hrest₁ : f₁.rest = bytes := rest_advance hrest f.eof
    obtain ⟨front, hfront⟩ : ∃ front, data = front ++ zipHeader := by
      obtain ⟨front, hfront⟩ := hfinds.exists_append
      exact ⟨front, List.append_cancel_right (hrest.symm.trans hfront)⟩
    have hconsumed₁ : f₁.consumed = f.consumed ++ front ++ zipHeader := by
      rw [List.append_assoc, ← hfront]
      exact consumed_advance hrest f.eof
    rcases checkZipHeader_cases (f := f₁) heof with ⟨rest, hbytes, hcheck⟩ |
      ⟨rest, hbytes, hcheck⟩ | ⟨hlocal, heocd, f₂, short, hcheck, hcontent, hconsumed, hshort⟩
    · rw [hcheck] at hloop
      simp only [if_true] at hloop
      set f₂ : File := { f₁ with pos := f₁.pos + 2 } with hf₂
      have hrest₂ : f₂.rest = rest :=
        rest_advance (show f₁.rest = [0x03, 0x04] ++ rest from hbytes) f₁.eof
      rw [hrest₁] at hbytes
      rw [hbytes] at hfinds
      rcases getFilename_cases f₂ with ⟨name, rest', f₃, hname, hget, hcontent, heof₃, hrest₃⟩ |
        ⟨hno, f₃, hget, hcontent, heof₃⟩
      · rw [hget] at hloop
        rw [hrest₂] at hname
        simp only [CString.ofBytes_append_nul] at hloop
        exact Or.inr (Or.inl ⟨rest, name, rest', f₃, hfinds, hname, hcontent, heof₃, hrest₃,
          hloop.symm⟩)
      · rw [hget] at hloop
        rw [hrest₂] at hno
        exact Or.inr (Or.inr (Or.inl ⟨rest, f₃, hfinds, hno, hcontent, heof₃, hloop.symm⟩))
    · rw [hcheck] at hloop
      refine Or.inr (Or.inr (Or.inr ⟨bytes, { f₁ with pos := f₁.pos + 2 }, hfinds, ?_, rfl,
        hloop.symm, ?_⟩))
      · rw [← hrest₁, hbytes]
        intro h
        cases (List.cons_prefix_cons.mp h).1
      · have hmore : ({ f₁ with pos := f₁.pos + 2 } : File).consumed =
            f₁.consumed ++ [0x05, 0x06] :=
          consumed_advance (show f₁.rest = [0x05, 0x06] ++ rest from hbytes) f₁.eof
        rw [hmore, hconsumed₁, ← hrest₁, hbytes, List.append_assoc]
        exact iff_of_true (List.suffix_append _ _) (List.prefix_append _ rest)
    · rw [hcheck] at hloop
      refine Or.inr (Or.inr (Or.inr ⟨bytes, f₂, hfinds, hrest₁ ▸ hlocal, hcontent, hloop.symm, ?_⟩))
      rw [hconsumed, hconsumed₁]
      exact iff_of_false (not_eocd_suffix _ hshort) (hrest₁ ▸ heocd)
  · rw [hsearch] at hloop
    simp only [Bool.false_eq_true, if_false] at hloop
    exact Or.inl ⟨{ f with pos := f.pos + f.rest.length, eof := true }, hno, rfl, hloop.symm⟩

end CDevHws.Hw03
