import Mathlib.Data.Nat.Init

/-!
# Input streams

The functions of the C library on a file that is open for reading. The position may lie behind the
end of the file; the end-of-file indicator is set by a read that has got fewer bytes than it wants,
and cleared when the position is set.
-/

namespace Stdio

/-- A stream. -/
structure File where
  content : List UInt8
  pos : ℕ
  /-- The end-of-file indicator. -/
  eof : Bool

/-- A file that has just been opened. -/
def fopen (content : List UInt8) : File := ⟨content, 0, false⟩

/-- The bytes that can still be read. -/
def File.rest (f : File) : List UInt8 := f.content.drop f.pos

/-- The bytes before the position. -/
def File.consumed (f : File) : List UInt8 := f.content.take f.pos

/-- `fread` of at most `n` bytes. -/
def fread (n : ℕ) (f : File) : List UInt8 × File :=
  let data := f.rest.take n
  (data, { f with pos := f.pos + data.length, eof := f.eof || data.length < n })

/-- `fseek` with `SEEK_CUR`: what it returns, and the stream. -/
def fseek (offset : ℤ) (f : File) : ℤ × File :=
  if 0 ≤ f.pos + offset then (0, { f with pos := (f.pos + offset).toNat, eof := false })
  else (-1, f)

/-- `fseek` with `SEEK_SET`, to a position that is not negative: the stream. -/
def fseekSet (offset : ℕ) (f : File) : File := { f with pos := offset, eof := false }

/-- `rewind`. -/
def rewind (f : File) : File := { f with pos := 0, eof := false }

/-- What `fgets` with a buffer of `size` bytes returns, call after call, until the end of the file:
the lines, with their `'\n'`, each cut into pieces that fit. The bytes of `line` are in the buffer
already. -/
def fgetsAll (size : ℕ) : List UInt8 → List UInt8 → List (List UInt8)
  | [], [] => []
  | line, [] => [line]
  | line, c :: rest =>
    if c = 10 ∨ line.length + 2 = size then (line ++ [c]) :: fgetsAll size [] rest
    else fgetsAll size (line ++ [c]) rest

theorem rest_fopen (content : List UInt8) : (fopen content).rest = content := rfl

theorem fread_of_append {f : File} {data rest : List UInt8} (h : f.rest = data ++ rest) :
    fread data.length f = (data, { f with pos := f.pos + data.length }) := by
  unfold fread
  rw [h, List.take_left]
  simp

theorem fread_short {f : File} {n : ℕ} (h : f.rest.length < n) :
    fread n f = (f.rest, { f with pos := f.pos + f.rest.length, eof := true }) := by
  unfold fread
  rw [List.take_of_length_le (by omega)]
  simp [h]

theorem fst_fread_fseekSet (n offset : ℕ) (f : File) :
    (fread n (fseekSet offset f)).1 = (f.content.drop offset).take n := rfl

/-- After some of its bytes are read, the others are left. -/
theorem rest_advance {f : File} {data rest : List UInt8} (h : f.rest = data ++ rest) (eof : Bool) :
    ({ f with pos := f.pos + data.length, eof := eof } : File).rest = rest := by
  have hdrop : f.content.drop (f.pos + data.length) = (f.content.drop f.pos).drop data.length :=
    (List.drop_drop ..).symm
  unfold File.rest at *
  rw [hdrop, h, List.drop_left]

theorem consumed_advance {f : File} {data rest : List UInt8} (h : f.rest = data ++ rest)
    (eof : Bool) : ({ f with pos := f.pos + data.length, eof := eof } : File).consumed =
      f.consumed ++ data := by
  unfold File.rest at h
  unfold File.consumed
  simp only
  rw [List.take_add, h, List.take_left]

theorem fseek_forward (n : ℕ) (f : File) :
    fseek n f = (0, { f with pos := f.pos + n, eof := false }) := by
  have hpos : (0 : ℤ) ≤ f.pos + n := by omega
  have hnat : ((f.pos : ℤ) + n).toNat = f.pos + n := by omega
  unfold fseek
  rw [if_pos hpos, hnat]

/-! ## Lines -/

/-- The lines of a file, each with its `'\n'`; the last one may lack it. -/
def lines : List UInt8 → List (List UInt8)
  | [] => []
  | c :: rest =>
    if c = 10 then [c] :: lines rest
    else match lines rest with
      | [] => [[c]]
      | line :: more => (c :: line) :: more

theorem lines_newline (rest : List UInt8) : lines (10 :: rest) = [10] :: lines rest := rfl

theorem lines_cons {c : UInt8} (hc : c ≠ 10) {rest line : List UInt8} {more : List (List UInt8)}
    (h : lines rest = line :: more) : lines (c :: rest) = (c :: line) :: more := by
  rw [lines, if_neg hc, h]

theorem lines_eq_nil {content : List UInt8} : lines content = [] ↔ content = [] := by
  cases content with
  | nil => exact ⟨fun _ => rfl, fun _ => rfl⟩
  | cons c rest =>
    refine ⟨fun h => ?_, fun h => nomatch h⟩
    by_cases hc : c = 10
    · rw [hc] at h
      cases h
    · cases hrest : lines rest with
      | nil =>
        rw [lines, if_neg hc, hrest] at h
        cases h
      | cons line more =>
        rw [lines_cons hc hrest] at h
        cases h

/-- At most the last byte ends a line. -/
def IsLine (line : List UInt8) : Prop := line ≠ [] ∧ 10 ∉ line.dropLast

theorem isLine_singleton (c : UInt8) : IsLine [c] := ⟨List.cons_ne_nil c [], List.not_mem_nil⟩

theorem IsLine.cons {c : UInt8} {line : List UInt8} (hc : c ≠ 10) (h : IsLine line) :
    IsLine (c :: line) := by
  obtain ⟨hne, hdrop⟩ := h
  refine ⟨List.cons_ne_nil c line, ?_⟩
  rw [List.dropLast_cons_of_ne_nil hne]
  intro hmem
  rcases List.mem_cons.mp hmem with heq | hmem
  · exact hc heq.symm
  · exact hdrop hmem

theorem isLine_of_mem_lines {content line : List UInt8} (h : line ∈ lines content) :
    IsLine line := by
  induction content generalizing line with
  | nil => exact absurd h List.not_mem_nil
  | cons c rest ih =>
    by_cases hc : c = 10
    · rw [hc, lines_newline] at h
      rcases List.mem_cons.mp h with rfl | hmem
      · exact isLine_singleton 10
      · exact ih hmem
    · cases hrest : lines rest with
      | nil =>
        rw [lines, if_neg hc, hrest] at h
        rw [List.mem_singleton.mp h]
        exact isLine_singleton c
      | cons first more =>
        rw [lines_cons hc hrest] at h
        rw [hrest] at ih
        rcases List.mem_cons.mp h with rfl | hmem
        · exact (ih List.mem_cons_self).cons hc
        · exact ih (List.mem_cons_of_mem first hmem)

theorem IsLine.tail {c d : UInt8} {rest : List UInt8} (h : IsLine (c :: d :: rest)) :
    c ≠ 10 ∧ IsLine (d :: rest) := by
  obtain ⟨-, hdrop⟩ := h
  rw [List.dropLast_cons_of_ne_nil (List.cons_ne_nil d rest)] at hdrop
  refine ⟨fun heq => hdrop ?_, List.cons_ne_nil d rest, fun hmem => hdrop ?_⟩
  · rw [heq]
    exact List.mem_cons_self
  · exact List.mem_cons_of_mem c hmem

/-- A line is the only one of a file that consists of it. -/
theorem lines_line {line : List UInt8} (h : IsLine line) : lines line = [line] := by
  induction line with
  | nil => exact absurd rfl h.1
  | cons c rest ih =>
    cases rest with
    | nil => by_cases hc : c = 10 <;> simp [lines, hc]
    | cons d rest =>
      obtain ⟨hc, hrest⟩ := h.tail
      exact lines_cons hc (ih hrest)

/-! ## Reading line by line -/

theorem fgetsAll_nil (size : ℕ) : fgetsAll size [] [] = [] := by
  unfold fgetsAll
  rfl

theorem fgetsAll_cons (size : ℕ) (piece : List UInt8) (c : UInt8) (rest : List UInt8) :
    fgetsAll size piece (c :: rest) =
      if c = 10 ∨ piece.length + 2 = size then (piece ++ [c]) :: fgetsAll size [] rest
      else fgetsAll size (piece ++ [c]) rest := by
  rw [fgetsAll]

/-- What is left of a piece does not matter after the end of the line. -/
theorem fgetsAll_piece (size : ℕ) {content line : List UInt8} {more : List (List UInt8)}
    (h : lines content = line :: more) (piece : List UInt8) :
    fgetsAll size piece content =
      fgetsAll size piece line ++ more.flatMap (fgetsAll size []) := by
  induction content generalizing line more piece with
  | nil => cases h
  | cons c rest ih =>
    by_cases hc : c = 10
    · rw [hc, lines_newline] at h
      obtain ⟨rfl, rfl⟩ := List.cons.inj h
      rw [hc, fgetsAll_cons, if_pos (Or.inl rfl), fgetsAll_cons, if_pos (Or.inl rfl),
        fgetsAll_nil]
      cases hrest : lines rest with
      | nil =>
        rw [lines_eq_nil.mp hrest, fgetsAll_nil]
        rfl
      | cons first others =>
        rw [ih hrest []]
        rfl
    · cases hrest : lines rest with
      | nil =>
        rw [lines, if_neg hc, hrest] at h
        obtain ⟨rfl, rfl⟩ := List.cons.inj h
        rw [lines_eq_nil.mp hrest, List.flatMap_nil, List.append_nil]
      | cons first others =>
        rw [lines_cons hc hrest] at h
        obtain ⟨rfl, rfl⟩ := List.cons.inj h
        rw [fgetsAll_cons, fgetsAll_cons, ih hrest [], ih hrest (piece ++ [c])]
        by_cases hfull : c = 10 ∨ piece.length + 2 = size
        · rw [if_pos hfull, if_pos hfull, List.cons_append]
        · rw [if_neg hfull, if_neg hfull]

theorem fgetsAll_lines (size : ℕ) (content : List UInt8) :
    fgetsAll size [] content = (lines content).flatMap (fgetsAll size []) := by
  cases h : lines content with
  | nil =>
    rw [lines_eq_nil.mp h, fgetsAll_nil]
    rfl
  | cons line more => exact fgetsAll_piece size h []

/-- A line that fits into the buffer is read as it is. -/
theorem fgetsAll_line {size : ℕ} {piece line : List UInt8} (h : IsLine line)
    (hfits : piece.length + line.length < size) :
    fgetsAll size piece line = [piece ++ line] := by
  induction line generalizing piece with
  | nil => exact absurd rfl h.1
  | cons c rest ih =>
    rw [List.length_cons] at hfits
    cases rest with
    | nil =>
      rw [fgetsAll_cons]
      split
      · rw [fgetsAll_nil]
      · unfold fgetsAll
        simp
    | cons d rest =>
      obtain ⟨hc, hrest⟩ := h.tail
      rw [List.length_cons] at hfits
      have hroom : ¬ (c = 10 ∨ piece.length + 2 = size) := by
        rintro (heq | hfull)
        · exact hc heq
        · omega
      rw [fgetsAll_cons, if_neg hroom, ih hrest, List.append_assoc]
      · rfl
      · rw [List.length_append, List.length_singleton, List.length_cons]
        omega

theorem flatten_fgetsAll (size : ℕ) (piece rest : List UInt8) :
    (fgetsAll size piece rest).flatten = piece ++ rest := by
  induction rest generalizing piece with
  | nil =>
    unfold fgetsAll
    cases piece <;> simp
  | cons c rest ih =>
    rw [fgetsAll_cons]
    split
    · rw [List.flatten_cons, ih, List.append_assoc]
      rfl
    · rw [ih, List.append_assoc]
      rfl

/-- No piece is longer than the buffer. -/
theorem length_piece_lt {size : ℕ} (piece rest : List UInt8) (hpiece : piece.length + 1 < size) :
    ∀ read ∈ fgetsAll size piece rest, read.length < size := by
  induction rest generalizing piece with
  | nil =>
    intro read hread
    cases piece with
    | nil => cases fgetsAll_nil size ▸ hread
    | cons c piece =>
      unfold fgetsAll at hread
      rw [List.mem_singleton.mp hread]
      omega
  | cons c rest ih =>
    intro read hread
    have hlen : (piece ++ [c]).length = piece.length + 1 := List.length_append
    rw [fgetsAll_cons] at hread
    split at hread
    · rcases List.mem_cons.mp hread with rfl | hmem
      · omega
      · exact ih [] (by rw [List.length_nil]; omega) read hmem
    · next hroom =>
      refine ih (piece ++ [c]) ?_ read hread
      omega

/-- A line is read in one piece if and only if it fits. -/
theorem length_fgetsAll_line {size : ℕ} (hsize : 2 ≤ size) {line : List UInt8} (h : IsLine line) :
    1 ≤ (fgetsAll size [] line).length ∧
      ((fgetsAll size [] line).length = 1 ↔ line.length < size) := by
  have hflat := flatten_fgetsAll size [] line
  rw [List.nil_append] at hflat
  refine ⟨?_, ?_, ?_⟩
  · apply List.length_pos_iff.mpr
    intro hnil
    apply h.1
    rw [← hflat, hnil]
    rfl
  · intro hone
    obtain ⟨read, hread⟩ := List.length_eq_one_iff.mp hone
    have hlt := length_piece_lt [] line hsize read
    rw [hread, List.flatten_singleton] at hflat
    rw [hread, hflat] at hlt
    exact hlt List.mem_cons_self
  · intro hfits
    rw [fgetsAll_line h (by rw [List.length_nil, Nat.zero_add]; exact hfits)]
    rfl

end Stdio
