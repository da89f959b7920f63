import CDevHws.Hw33.Cube
import Mathlib.Tactic.Ring

/-!
# Proofs: the pixels of a texture

The program takes one byte for the offset of the pixels, and reads the rows as if nothing stood
between them. What it reads is right for every image after a header if the offset fits into the
byte and the rows need no padding.
-/

namespace CDevHws.Hw33

open Stdio

/-! ## The format -/

/-- A number in four bytes, the lowest first. -/
def le32 (n : ℕ) : List UInt8 :=
  [UInt8.ofNat n, UInt8.ofNat (n / 2 ^ 8), UInt8.ofNat (n / 2 ^ 16), UInt8.ofNat (n / 2 ^ 24)]

/-- All that stands before the pixels of an image in the bmp format. Its length, which is the
offset of the pixels, is stored at byte 10; the program reads no other byte of it. -/
structure Header where
  bytes : List UInt8
  length_lt : bytes.length < 2 ^ 32
  offset_eq : (bytes.drop 10).take 4 = le32 bytes.length

/-- The offset of the pixels. -/
abbrev Header.offset (header : Header) : ℕ := header.bytes.length

/-- The number of bytes of a stored row: a multiple of 4. -/
def stride (width : ℕ) : ℕ := (3 * width + 3) / 4 * 4

/-- An uncompressed image with 24 bits for a pixel. -/
structure Image (width height : ℕ) where
  header : Header
  pixels : List UInt8
  size_le : stride width * height ≤ pixels.length

variable {width height : ℕ}

/-- The bytes of the file. -/
def Image.file (image : Image width height) : List UInt8 := image.header.bytes ++ image.pixels

/-- The blue component of a pixel, given by its stored row and its column. -/
def Image.blue (image : Image width height) (r c : ℕ) : Option UInt8 :=
  image.pixels[stride width * r + 3 * c]?

/-- The green component of a pixel. -/
def Image.green (image : Image width height) (r c : ℕ) : Option UInt8 :=
  image.pixels[stride width * r + 3 * c + 1]?

/-- The red component of a pixel. -/
def Image.red (image : Image width height) (r c : ℕ) : Option UInt8 :=
  image.pixels[stride width * r + 3 * c + 2]?

/-- After its loops, `texture_load` has the components of all pixels. -/
def Loads (image : Image width height) : Prop :=
  ∃ textureData, textureLoad image.file width height = some textureData ∧
    ∀ r < height, ∀ c < width,
      textureData[3 * (r * width + c)]? = some (image.red r c) ∧
      textureData[3 * (r * width + c) + 1]? = some (image.green r c) ∧
      textureData[3 * (r * width + c) + 2]? = some (image.blue r c)

theorem le_stride (width : ℕ) : 3 * width ≤ stride width := by
  unfold stride
  omega

theorem stride_eq_iff (width : ℕ) : stride width = 3 * width ↔ 4 ∣ 3 * width := by
  unfold stride
  omega

/-- The lowest byte of the offset is the one at 10. -/
theorem Header.getElem?_ten (header : Header) :
    header.bytes[10]? = some (UInt8.ofNat header.offset) := by
  have h : ((header.bytes.drop 10).take 4)[0]? = some (UInt8.ofNat header.offset) := by
    rw [header.offset_eq]
    rfl
  rw [List.getElem?_take_of_lt (by omega), List.getElem?_drop] at h
  exact h

theorem Header.ten_lt_offset (header : Header) : 10 < header.offset :=
  (List.getElem?_eq_some_iff.mp header.getElem?_ten).1

theorem Image.getElem?_ten (image : Image width height) :
    image.file[10]? = some (UInt8.ofNat image.header.offset) := by
  unfold Image.file
  rw [List.getElem?_append_left image.header.ten_lt_offset, image.header.getElem?_ten]

/-- The pixels are at the offset. -/
theorem Image.getElem?_offset (image : Image width height) (i : ℕ) :
    image.file[image.header.offset + i]? = image.pixels[i]? := by
  unfold Image.file
  rw [List.getElem?_append_right (Nat.le_add_right _ i), Nat.add_sub_cancel_left]

theorem Image.offset_add_le (image : Image width height) :
    image.header.offset + 3 * width * height ≤ image.file.length := by
  have hsize := image.size_le
  have hrows := Nat.mul_le_mul_right height (le_stride width)
  have hlen : image.file.length = image.header.offset + image.pixels.length := List.length_append
  omega

/-! ## The exchange -/

theorem length_swapPixel (textureData : Texture) (i : ℕ) :
    (swapPixel textureData i).length = textureData.length := by
  simp only [swapPixel, List.length_set]

/-- One round exchanges the components of its pixel, and leaves the others as they are. -/
theorem getElem?_swapPixel {textureData : Texture} {i : ℕ} (hi : 3 * i + 2 < textureData.length)
    (q : ℕ) {k : ℕ} (hk : k ≤ 2) :
    (swapPixel textureData i)[3 * q + k]? =
      if q = i then textureData[3 * q + (2 - k)]? else textureData[3 * q + k]? := by
  have hget : ∀ j ≤ 2, textureData[3 * i + j]? = some (textureData.getD (3 * i + j) none) := by
    intro j hj
    have hlt : 3 * i + j < textureData.length := by omega
    rw [List.getD_eq_getElem?_getD, List.getElem?_eq_getElem hlt]
    rfl
  have hindex : i * 3 = 3 * i := Nat.mul_comm i 3
  unfold swapPixel
  simp only [hindex, List.getElem?_set, List.length_set]
  by_cases heq : q = i
  · subst heq
    rw [if_pos rfl, hget _ (Nat.sub_le 2 k)]
    obtain rfl | rfl | rfl : k = 0 ∨ k = 1 ∨ k = 2 := by omega
    · rw [if_neg (by omega), if_neg (by omega), if_pos (Nat.add_zero _).symm, if_pos (by omega)]
    · rw [if_neg (by omega), if_pos rfl, if_pos (by omega)]
    · rw [if_pos rfl, if_pos (by omega)]
      rfl
  · rw [if_neg heq, if_neg (by omega), if_neg (by omega), if_neg (by omega)]

/-- The loop exchanges the components of all pixels that it has reached. -/
theorem foldl_swapPixel (textureData : Texture) (n : ℕ) (hn : 3 * n ≤ textureData.length) :
    ((List.range n).foldl swapPixel textureData).length = textureData.length ∧
      ∀ q, ∀ k ≤ 2, ((List.range n).foldl swapPixel textureData)[3 * q + k]? =
        if q < n then textureData[3 * q + (2 - k)]? else textureData[3 * q + k]? := by
  induction n with
  | zero =>
    refine ⟨rfl, fun q k hk => ?_⟩
    rw [if_neg (Nat.not_lt_zero q)]
    rfl
  | succ n ih =>
    obtain ⟨hlen, hget⟩ := ih (by omega)
    rw [List.range_succ, List.foldl_append]
    refine ⟨?_, fun q k hk => ?_⟩
    · rw [List.foldl_cons, List.foldl_nil, length_swapPixel, hlen]
    · rw [List.foldl_cons, List.foldl_nil, getElem?_swapPixel (by rw [hlen]; omega) q hk]
      by_cases heq : q = n
      · rw [if_pos heq, hget q _ (Nat.sub_le 2 k), if_neg (by omega), if_pos (by omega)]
      · rw [if_neg heq, hget q k hk]
        have hiff : q < n ↔ q < n + 1 := by omega
        simp only [hiff]

/-! ## Loading -/

/-- The bytes that are read. -/
def Image.data (image : Image width height) : List UInt8 :=
  (image.file.drop (image.header.offset % 256)).take (width * height * 3)

theorem Image.getElem?_data (image : Image width height) {i : ℕ} (hi : i < width * height * 3) :
    image.data[i]? = image.file[image.header.offset % 256 + i]? := by
  unfold Image.data
  rw [List.getElem?_take_of_lt hi, List.getElem?_drop]

theorem Image.length_data (image : Image width height) :
    image.data.length = width * height * 3 := by
  have hle := image.offset_add_le
  have hmod := Nat.mod_le image.header.offset 256
  have hsize : 3 * width * height = width * height * 3 := by ring
  unfold Image.data
  rw [List.length_take, List.length_drop]
  omega

/-- Without an overflow, the loop gets the bytes behind the lowest byte of the offset. -/
theorem textureLoad_file (image : Image width height) (h : width * height * 3 < 2 ^ 31) :
    textureLoad image.file width height =
      some ((List.range (width * height)).foldl swapPixel (image.data.map some)) := by
  have hfirst : (image.file.drop 10).take 1 = [UInt8.ofNat image.header.offset] := by
    rw [List.take_one, List.head?_drop, image.getElem?_ten]
    rfl
  have hbyte : (UInt8.ofNat image.header.offset).toNat = image.header.offset % 256 :=
    UInt8.toNat_ofNat'
  have hfread : fread 1 (fseekSet 10 (fopen image.file)) =
      ([UInt8.ofNat image.header.offset], ⟨image.file, 11, false⟩) := by
    unfold fread
    rw [show (fseekSet 10 (fopen image.file)).rest = image.file.drop 10 from rfl, hfirst]
    rfl
  unfold textureLoad
  rw [if_neg (by omega), hfread]
  simp only [fst_fread_fseekSet, hbyte]
  change some (List.foldl _ (image.data.map some ++ List.replicate (_ - image.data.length) none) _)
    = _
  rw [image.length_data, Nat.sub_self, List.replicate_zero, List.append_nil]

/-- What is read for a component. -/
theorem getElem?_texture (image : Image width height) {q : ℕ} (hq : q < width * height) {k : ℕ}
    (hk : k ≤ 2) :
    ((List.range (width * height)).foldl swapPixel (image.data.map some))[3 * q + k]? =
      some image.file[image.header.offset % 256 + (3 * q + (2 - k))]? := by
  have hlen := image.length_data
  have hi : 3 * q + (2 - k) < image.data.length := by omega
  obtain ⟨-, hget⟩ := foldl_swapPixel (image.data.map some) (width * height)
    (by rw [List.length_map]; omega)
  rw [hget q k hk, if_pos hq, List.getElem?_map, ← image.getElem?_data (by omega),
    List.getElem?_eq_getElem hi]
  rfl

theorem textureLoad_overflow (content : List UInt8) (h : 2 ^ 31 ≤ width * height * 3) :
    textureLoad content width height = none := by
  unfold textureLoad
  rw [if_pos h]

/-- The bytes that are read for the pixels are the ones that are stored for them. -/
def ReadsStored (image : Image width height) : Prop :=
  ∀ r < height, ∀ j < 3 * width,
    image.file[image.header.offset % 256 + (3 * width * r + j)]? =
      image.file[image.header.offset + (stride width * r + j)]?

theorem pixel_lt {r c : ℕ} (hr : r < height) (hc : c < width) : r * width + c < width * height := by
  have hrows : (r + 1) * width ≤ height * width := Nat.mul_le_mul_right width hr
  rw [Nat.add_mul, Nat.one_mul] at hrows
  rw [Nat.mul_comm width height]
  omega

/-- One component of one pixel. -/
theorem component_iff (image : Image width height) {r c k : ℕ} (hr : r < height) (hc : c < width)
    (hk : k ≤ 2) :
    ((List.range (width * height)).foldl swapPixel
        (image.data.map some))[3 * (r * width + c) + k]? =
      some image.pixels[stride width * r + (3 * c + (2 - k))]? ↔
    image.file[image.header.offset % 256 + (3 * width * r + (3 * c + (2 - k)))]? =
      image.file[image.header.offset + (stride width * r + (3 * c + (2 - k)))]? := by
  have hindex : 3 * (r * width + c) + (2 - k) = 3 * width * r + (3 * c + (2 - k)) := by ring
  rw [getElem?_texture image (pixel_lt hr hc) hk, image.getElem?_offset, hindex, Option.some_inj]

theorem loads_iff (image : Image width height) :
    Loads image ↔ width * height * 3 < 2 ^ 31 ∧ ReadsStored image := by
  by_cases hsize : width * height * 3 < 2 ^ 31
  · rw [and_iff_right hsize]
    constructor
    · rintro ⟨textureData, htexture, hpixels⟩ r hr j hj
      rw [textureLoad_file image hsize] at htexture
      obtain rfl := Option.some.inj htexture
      have hc : j / 3 < width := by omega
      obtain ⟨hred, hgreen, hblue⟩ := hpixels r hr (j / 3) hc
      obtain hk | hk | hk : j = 3 * (j / 3) + 0 ∨ j = 3 * (j / 3) + 1 ∨ j = 3 * (j / 3) + 2 := by
        omega
      · rw [hk]
        exact (component_iff image hr hc (Nat.le_refl 2)).mp hblue
      · rw [hk]
        exact (component_iff image hr hc (Nat.le_succ 1)).mp hgreen
      · rw [hk]
        exact (component_iff image hr hc (Nat.zero_le 2)).mp hred
    · intro hreads
      refine ⟨_, textureLoad_file image hsize, fun r hr c hc => ⟨?_, ?_, ?_⟩⟩
      · exact (component_iff image hr hc (Nat.zero_le 2)).mpr (hreads r hr _ (by omega))
      · exact (component_iff image hr hc (Nat.le_succ 1)).mpr (hreads r hr _ (by omega))
      · exact (component_iff image hr hc (Nat.le_refl 2)).mpr (hreads r hr _ (by omega))
  · rw [iff_false_right (fun h => hsize h.1)]
    rintro ⟨textureData, htexture, -⟩
    rw [textureLoad_overflow image.file (Nat.le_of_not_lt hsize)] at htexture
    cases htexture

/-! ## Layouts -/

/-- Without padding, and with an offset that fits into the byte, the rows stand where they are
read. -/
theorem readsStored_of_layout (image : Image width height) (hoffset : image.header.offset < 256)
    (hrows : 4 ∣ 3 * width ∨ height = 1) : ReadsStored image := by
  intro r hr j hj
  rw [Nat.mod_eq_of_lt hoffset]
  rcases hrows with hdvd | hone
  · rw [(stride_eq_iff width).mpr hdvd]
  · have hr : r = 0 := by omega
    rw [hr, Nat.mul_zero, Nat.mul_zero]

/-- The images of the program have 300 rows of 300 pixels behind 138 bytes. -/
example (image : Image 300 300) (h : image.header.offset = 138) : Loads image :=
  (loads_iff image).mpr
    ⟨by decide, readsStored_of_layout image (by rw [h]; decide) (Or.inl (by decide))⟩

variable (width height) in
/-- The image behind a header whose bytes are these at the beginning, and 0 after them. -/
def imageOf (header : Header) (bytes : List UInt8) : Image width height where
  header := header
  pixels := bytes ++ List.replicate (stride width * height) 0
  size_le := by
    rw [List.length_append, List.length_replicate]
    exact Nat.le_add_left ..

theorem file_imageOf (header : Header) (bytes : List UInt8) (i : ℕ) :
    (imageOf width height header bytes).file[header.offset + i]? =
      (bytes ++ List.replicate (stride width * height) 0)[i]? :=
  (imageOf width height header bytes).getElem?_offset i

/-- An offset that does not fit: the first byte of the image is taken from the header. -/
theorem offset_lt_of_readsStored (hwidth : 0 < width) (hheight : 0 < height) {header : Header}
    (h : ∀ image : Image width height, image.header = header → ReadsStored image) :
    header.offset < 256 := by
  by_contra hge
  have hmod : header.offset % 256 < header.offset := by omega
  obtain ⟨b, hb⟩ : ∃ b, header.bytes[header.offset % 256]? = some b :=
    ⟨_, List.getElem?_eq_getElem hmod⟩
  have htaken : (imageOf width height header [b + 1]).file[header.offset % 256]? = some b := by
    rw [← hb]
    exact List.getElem?_append_left hmod
  have hstored : (imageOf width height header [b + 1]).file[header.offset + 0]? = some (b + 1) :=
    file_imageOf header [b + 1] 0
  have hread := h (imageOf width height header [b + 1]) rfl 0 hheight 0 (by omega)
  rw [Nat.mul_zero, Nat.mul_zero] at hread
  have hself : b = b + 1 := Option.some.inj (htaken.symm.trans (hread.trans hstored))
  rw [UInt8.left_eq_add] at hself
  cases hself

/-- Rows with padding: the first byte of the second row is taken from the padding of the first. -/
theorem dvd_of_readsStored (hwidth : 0 < width) (hheight : 1 < height) {header : Header}
    (hoffset : header.offset < 256)
    (h : ∀ image : Image width height, image.header = header → ReadsStored image) :
    4 ∣ 3 * width := by
  by_contra hdvd
  have hpadding : 3 * width < stride width :=
    Nat.lt_of_le_of_ne (le_stride width) fun heq => hdvd ((stride_eq_iff width).mp heq.symm)
  let row : List UInt8 := List.replicate (stride width) 0
  have hrow : row.length = stride width := List.length_replicate
  have htaken : (imageOf width height header (row ++ [1])).file[header.offset + 3 * width]? =
      some 0 := by
    rw [file_imageOf, List.append_assoc, List.getElem?_append_left (by omega),
      List.getElem?_replicate_of_lt hpadding]
  have hstored : (imageOf width height header (row ++ [1])).file[header.offset + stride width]? =
      some 1 := by
    rw [file_imageOf, List.append_assoc, List.getElem?_append_right (by omega), hrow, Nat.sub_self]
    rfl
  have hread := h (imageOf width height header (row ++ [1])) rfl 1 hheight 0 (by omega)
  rw [Nat.mul_one, Nat.mul_one] at hread
  change _[header.offset % 256 + _]? = _ at hread
  rw [Nat.mod_eq_of_lt hoffset] at hread
  cases htaken.symm.trans (hread.trans hstored)

/-- What is read is right for all images with this size and this header if and only if the size does
not overflow, the offset fits into a byte, and there is no padding between two rows. For one image
it is right if the bytes happen to be the same. -/
theorem texture_load_pixels_iff (hwidth : 0 < width) (hheight : 0 < height) :
    (∀ header : Header,
      (∀ image : Image width height, image.header = header → Loads image) ↔
        width * height * 3 < 2 ^ 31 ∧ header.offset < 256 ∧ (4 ∣ 3 * width ∨ height = 1)) ∧
    ∀ image : Image width height,
      Loads image ↔ width * height * 3 < 2 ^ 31 ∧ ReadsStored image := by
  refine ⟨fun header => ?_, loads_iff⟩
  constructor
  · intro h
    have hsize := ((loads_iff _).mp (h (imageOf width height header []) rfl)).1
    have hreads : ∀ image : Image width height, image.header = header → ReadsStored image :=
      fun image himage => ((loads_iff image).mp (h image himage)).2
    have hoffset := offset_lt_of_readsStored hwidth hheight hreads
    refine ⟨hsize, hoffset, ?_⟩
    by_cases hone : height = 1
    · exact Or.inr hone
    · exact Or.inl (dvd_of_readsStored hwidth (by omega) hoffset hreads)
  · rintro ⟨hsize, hoffset, hrows⟩ image rfl
    exact (loads_iff image).mpr ⟨hsize, readsStored_of_layout image hoffset hrows⟩

theorem texture_load_pixels_iff_column :
    (0 < 1 ∧ 0 < 2) ∧
    (∀ header : Header,
      (∀ image : Image 1 2, image.header = header → Loads image) ↔
        1 * 2 * 3 < 2 ^ 31 ∧ header.offset < 256 ∧ (4 ∣ 3 * 1 ∨ 2 = 1)) ∧
    ∀ image : Image 1 2, Loads image ↔ 1 * 2 * 3 < 2 ^ 31 ∧ ReadsStored image :=
  ⟨by decide, texture_load_pixels_iff (by decide) (by decide)⟩

/-- An image of one column and two rows: with a row of 3 bytes, and one byte of padding. -/
def column : Image 1 2 where
  header :=
    { bytes := [66, 77, 62, 0, 0, 0, 0, 0, 0, 0, 54, 0, 0, 0,
        40, 0, 0, 0, 1, 0, 0, 0, 2, 0, 0, 0, 1, 0, 24, 0, 0, 0, 0, 0, 8, 0, 0, 0,
        0, 0, 0, 0, 0, 0, 0, 0, 0, 0, 0, 0, 0, 0, 0, 0]
      length_lt := by decide
      offset_eq := by decide }
  pixels := [1, 2, 3, 0, 4, 5, 6, 0]
  size_le := by decide

/-- The padding is taken for the blue component of the second row. -/
theorem column_shifted :
    (column.red 1 0, column.green 1 0, column.blue 1 0) = (some 6, some 5, some 4) ∧
      textureLoad column.file 1 2 = some [some 3, some 2, some 1, some 5, some 4, some 0] ∧
      ¬ Loads column := by
  have hload : textureLoad column.file 1 2 =
      some [some 3, some 2, some 1, some 5, some 4, some 0] := by decide
  refine ⟨by decide, hload, ?_⟩
  rintro ⟨textureData, htexture, hpixels⟩
  rw [hload] at htexture
  obtain rfl := Option.some.inj htexture
  obtain ⟨hred, -, -⟩ := hpixels 1 (by decide) 0 (by decide)
  revert hred
  decide

end CDevHws.Hw33
