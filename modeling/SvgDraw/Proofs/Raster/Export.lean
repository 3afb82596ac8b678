/-
  SvgDraw.Proofs.Raster.Export — the picture in surface memory, pixel by pixel.

  An export goes through memory row by row, but what it comes to can be said at once: for each
  row and each column in it, the colours of the word that stands there (`exportRows_eq`). All
  pixels take four bytes and all rows the same number of them, so every pixel is found by its
  place (`take_drop_flatMap`, `pixel_exportImage`), and bytes between the rows have no part in the
  picture (`exportRows_congr`).

  Colours are divided by alpha with one rounding and multiplied by it with another. The error of
  the first is at most half of alpha, which the second takes back (`multiplyAlpha_divideAlpha`), so
  a word whose colours are at most its alpha is not lost (`premultiply_unpremultiply`).
  `exportImage_lossless` puts all of this together.
-/

import Mathlib.Data.List.Basic
import SvgDraw.Raster.Pixel

namespace SvgDraw.Raster

/-! ## Words in memory -/

/-- The byte of memory at an offset, zero behind its end. -/
def byteAt (memory : List UInt8) (offset : Nat) : Nat :=
  (memory[offset]?.getD 0).toNat

def wordAt (order : ByteOrder) (memory : List UInt8) (offset : Nat) : Word :=
  order.pack (byteAt memory offset) (byteAt memory (offset + 1)) (byteAt memory (offset + 2))
    (byteAt memory (offset + 3))

variable {order : ByteOrder} {memory : List UInt8} {width height stride : Nat}

theorem byteAt_drop (memory : List UInt8) (n offset : Nat) :
    byteAt (memory.drop n) offset = byteAt memory (n + offset) := by
  rw [byteAt, List.getElem?_drop, byteAt]

theorem byteAt_take {n offset : Nat} (h : offset < n) :
    byteAt (memory.take n) offset = byteAt memory offset := by
  rw [byteAt, List.getElem?_take_of_lt h, byteAt]

theorem wordAt_drop (order : ByteOrder) (memory : List UInt8) (n offset : Nat) :
    wordAt order (memory.drop n) offset = wordAt order memory (n + offset) := by
  simp only [wordAt, byteAt_drop, Nat.add_assoc]

theorem wordAt_take {n offset : Nat} (h : offset + 4 ≤ n) :
    wordAt order (memory.take n) offset = wordAt order memory offset := by
  unfold wordAt
  rw [byteAt_take (by omega), byteAt_take (by omega), byteAt_take (by omega),
    byteAt_take (by omega)]

/-- The words of memory, where there are enough bytes for them. -/
theorem wordsOf_eq {count : Nat} (h : 4 * count ≤ memory.length) :
    wordsOf order count memory = (List.range count).map fun x => wordAt order memory (4 * x) := by
  induction count generalizing memory with
  | zero => rfl
  | succ count ih =>
    match memory, h with
    | b₀ :: b₁ :: b₂ :: b₃ :: rest, h =>
      have hrest : 4 * count ≤ rest.length := by
        simp only [List.length_cons] at h
        omega
      have hnext : ∀ x, wordAt order rest (4 * x) =
          wordAt order (b₀ :: b₁ :: b₂ :: b₃ :: rest) (4 * (x + 1)) := by
        intro x
        rw [show 4 * (x + 1) = 4 + 4 * x by omega, ← wordAt_drop]
        rfl
      rw [wordsOf, ih hrest, List.range_succ_eq_map, List.map_cons, List.map_map]
      simp only [hnext]
      rfl
    | [], h => simp at h
    | [_], h => simp at h; omega
    | [_, _], h => simp at h; omega
    | [_, _, _], h => simp at h; omega

/-! ## Rows -/

def rowBytes (order : ByteOrder) (memory : List UInt8) (width offset : Nat) : List UInt8 :=
  (List.range width).flatMap fun x => unpremultiply (wordAt order memory (offset + 4 * x))

theorem length_unpremultiply (word : Word) : (unpremultiply word).length = 4 := by
  unfold unpremultiply
  dsimp only
  split
  · rfl
  · rfl

/-- An export is the rows of the picture, each at its place in memory. -/
theorem exportRows_eq (hs : 0 < stride) (hw : 4 * width ≤ stride)
    (hm : memory.length = stride * height) :
    exportRows order width stride height memory =
      (List.range height).flatMap fun y => rowBytes order memory width (y * stride) := by
  induction height generalizing memory with
  | zero => rfl
  | succ height ih =>
    rw [Nat.mul_succ] at hm
    have hne : memory ≠ [] := by
      intro hnil
      rw [hnil, List.length_nil] at hm
      omega
    have hdrop : (memory.drop stride).length = stride * height := by
      rw [List.length_drop]
      omega
    have htake : 4 * width ≤ (memory.take stride).length := by
      rw [List.length_take]
      omega
    have hrow : (wordsOf order width (memory.take stride)).flatMap unpremultiply =
        rowBytes order memory width (0 * stride) := by
      rw [wordsOf_eq htake, List.flatMap_map, rowBytes]
      apply List.flatMap_congr
      intro x hx
      have hx := List.mem_range.mp hx
      rw [wordAt_take (by omega)]
      simp only [Nat.zero_mul, Nat.zero_add]
    have hbelow : ∀ y, rowBytes order (memory.drop stride) width (y * stride) =
        rowBytes order memory width ((y + 1) * stride) := by
      intro y
      have hplace : ∀ x, stride + (y * stride + 4 * x) = (y + 1) * stride + 4 * x := by
        intro x
        rw [Nat.add_one_mul y stride]
        omega
      simp only [rowBytes, wordAt_drop, hplace]
    rw [exportRows.eq_3 _ _ _ _ _ hne, hrow, ih hdrop, List.range_succ_eq_map, List.flatMap_cons,
      List.flatMap_map]
    simp only [hbelow]

theorem length_flatMap_of_forall {α β : Type} {f : α → List β} {n : Nat}
    (hf : ∀ a, (f a).length = n) (as : List α) : (as.flatMap f).length = n * as.length := by
  induction as with
  | nil => rfl
  | cons a as ih =>
    rw [List.flatMap_cons, List.length_append, hf, ih, List.length_cons, Nat.mul_succ]
    omega

/-- Where all parts are as long, each is found by its number. -/
theorem take_drop_flatMap {α β : Type} {f : α → List β} {n : Nat} (hf : ∀ a, (f a).length = n)
    {as : List α} {k : Nat} {a : α} (hk : as[k]? = some a) :
    ((as.flatMap f).drop (n * k)).take n = f a := by
  induction as generalizing k with
  | nil => cases hk
  | cons b as ih =>
    rw [List.flatMap_cons]
    cases k with
    | zero =>
      obtain rfl : b = a := by simpa using hk
      rw [Nat.mul_zero, List.drop_zero, List.take_left' (hf b)]
    | succ k =>
      rw [Nat.mul_succ, Nat.add_comm, ← List.drop_drop, List.drop_left' (hf b)]
      exact ih (by simpa using hk)

theorem length_rowBytes (order : ByteOrder) (memory : List UInt8) (width offset : Nat) :
    (rowBytes order memory width offset).length = 4 * width := by
  have h := length_flatMap_of_forall
    (fun x => length_unpremultiply (wordAt order memory (offset + 4 * x))) (List.range width)
  rwa [List.length_range] at h

theorem length_exportRows (hs : 0 < stride) (hw : 4 * width ≤ stride)
    (hm : memory.length = stride * height) :
    (exportRows order width stride height memory).length = 4 * width * height := by
  have h := length_flatMap_of_forall
    (fun y => length_rowBytes order memory width (y * stride)) (List.range height)
  rwa [← exportRows_eq hs hw hm, List.length_range] at h

/-! ## Pixels -/

/-- The four bytes of the pixel in column `x` of row `y`. -/
def Image.pixel (image : Image) (x y : Nat) : List UInt8 :=
  (image.data.drop (4 * (y * image.width + x))).take 4

/-- A pixel of the picture has the colours of the word at its place. -/
theorem pixel_exportImage (hs : 0 < stride) (hw : 4 * width ≤ stride)
    (hm : memory.length = stride * height) {x y : Nat} (hx : x < width) (hy : y < height) :
    (exportImage order width height stride memory).pixel x y =
      unpremultiply (wordAt order memory (y * stride + 4 * x)) := by
  have hrow := take_drop_flatMap (fun y => length_rowBytes order memory width (y * stride))
    (List.getElem?_range hy)
  have hpixel := take_drop_flatMap
    (fun x => length_unpremultiply (wordAt order memory (y * stride + 4 * x)))
    (List.getElem?_range hx)
  rw [← exportRows_eq hs hw hm] at hrow
  rw [← rowBytes, ← hrow] at hpixel
  -- The pixel is within its row, so it does not matter that the rows go on.
  have hwithin : min 4 (4 * width - 4 * x) = 4 := by omega
  have hplace : 4 * (y * width + x) = 4 * width * y + 4 * x := by
    rw [Nat.mul_add, Nat.mul_comm y width, Nat.mul_assoc]
  rw [List.drop_take, List.take_take, List.drop_drop, hwithin] at hpixel
  show ((exportRows order width stride height memory).drop (4 * (y * width + x))).take 4 = _
  rw [hplace, hpixel]

/-- Bytes of memory that are not part of a row have no part in the picture. -/
theorem exportRows_congr {other : List UInt8} (hs : 0 < stride) (hw : 4 * width ≤ stride)
    (hm : memory.length = stride * height) (ho : other.length = stride * height)
    (h : ∀ i, i % stride < 4 * width → other[i]? = memory[i]?) :
    exportRows order width stride height other = exportRows order width stride height memory := by
  rw [exportRows_eq hs hw hm, exportRows_eq hs hw ho]
  apply List.flatMap_congr
  intro y _
  unfold rowBytes
  apply List.flatMap_congr
  intro x hx
  have hx := List.mem_range.mp hx
  have hbyte : ∀ k < 4, byteAt other (y * stride + 4 * x + k) = byteAt memory (y * stride + 4 * x + k) := by
    intro k hk
    have hmod : (y * stride + 4 * x + k) % stride = 4 * x + k := by
      rw [Nat.add_assoc, Nat.add_comm, Nat.add_mul_mod_self_right, Nat.mod_eq_of_lt (by omega)]
    rw [byteAt, h _ (by omega), byteAt]
  have h₀ := hbyte 0 (by omega)
  rw [Nat.add_zero] at h₀
  rw [wordAt, wordAt, h₀, hbyte 1 (by omega), hbyte 2 (by omega), hbyte 3 (by omega)]

/-! ## Alpha -/

def multiplyAlpha (colour alpha : Nat) : Nat :=
  (colour * alpha + 127) / 255

def premultiply (pixel : List UInt8) : Word :=
  match pixel.map UInt8.toNat with
  | [red, green, blue, alpha] =>
    packBytes (multiplyAlpha blue alpha) (multiplyAlpha green alpha) (multiplyAlpha red alpha) alpha
  | _ => 0

/-- No colour of the word is above its alpha. -/
def Premultiplied (word : Word) : Prop :=
  ∀ i < 3, byteOf word i ≤ byteOf word 3

instance (word : Word) : Decidable (Premultiplied word) :=
  inferInstanceAs (Decidable (∀ i < 3, byteOf word i ≤ byteOf word 3))

theorem byteOf_lt (word : Word) (i : Nat) : byteOf word i < 256 :=
  Nat.mod_lt _ (by decide)

/-- A word is made of its bytes. -/
theorem packBytes_byteOf (word : Word) :
    packBytes (byteOf word 0) (byteOf word 1) (byteOf word 2) (byteOf word 3) = word := by
  have hlt : word.toNat < 4294967296 := word.toNat_lt
  have hsum : byteOf word 0 + 256 * (byteOf word 1 + 256 * (byteOf word 2 + 256 * byteOf word 3)) =
      word.toNat := by
    simp only [byteOf, Nat.shiftRight_eq_div_pow]
    omega
  rw [packBytes, hsum, UInt32.ofNat_toNat]

theorem divideAlpha_le {colour alpha : Nat} (h : colour ≤ alpha) : divideAlpha colour alpha ≤ 255 := by
  unfold divideAlpha
  rcases Nat.eq_zero_or_pos alpha with rfl | hpos
  · rw [Nat.div_zero]
    omega
  · have hlt : (colour * 255 + alpha / 2) / alpha < 256 := by
      rw [Nat.div_lt_iff_lt_mul hpos]
      omega
    omega

/-- Multiplying by alpha takes the rounding of the division back. -/
theorem multiplyAlpha_divideAlpha {colour alpha : Nat} (hpos : 0 < alpha) (hle : alpha ≤ 255) :
    multiplyAlpha (divideAlpha colour alpha) alpha = colour := by
  have hbelow : divideAlpha colour alpha * alpha ≤ colour * 255 + alpha / 2 :=
    Nat.div_mul_le_self _ _
  have habove : colour * 255 + alpha / 2 < divideAlpha colour alpha * alpha + alpha :=
    Nat.lt_div_mul_add hpos
  unfold multiplyAlpha
  omega

theorem premultiply_unpremultiply {word : Word} (h : Premultiplied word) :
    premultiply (unpremultiply word) = word := by
  have hred := h 2 (by omega)
  have hgreen := h 1 (by omega)
  have hblue := h 0 (by omega)
  by_cases halpha : byteOf word 3 = 0
  · -- Without alpha there is no colour to be lost.
    have hzero : byteOf word 0 = 0 ∧ byteOf word 1 = 0 ∧ byteOf word 2 = 0 := by omega
    have hword := packBytes_byteOf word
    rw [halpha, hzero.1, hzero.2.1, hzero.2.2] at hword
    rw [unpremultiply, if_pos halpha]
    exact hword
  · have hlt := byteOf_lt word 3
    have hbyte : ∀ n ≤ 255, (UInt8.ofNat n).toNat = n := by
      intro n hn
      exact UInt8.toNat_ofNat_of_lt' (Nat.lt_succ_of_le hn)
    have hback : ∀ colour, multiplyAlpha (divideAlpha colour (byteOf word 3)) (byteOf word 3) = colour := by
      intro colour
      exact multiplyAlpha_divideAlpha (by omega) (by omega)
    rw [unpremultiply, if_neg halpha]
    simp only [premultiply, List.map_cons, List.map_nil, hbyte _ (divideAlpha_le hred),
      hbyte _ (divideAlpha_le hgreen), hbyte _ (divideAlpha_le hblue),
      hbyte _ (Nat.le_of_lt_succ hlt), hback]
    exact packBytes_byteOf word

/-! ## Every picture -/

/-- Two rows of two pixels, with a word between the rows that no surface would hold. -/
def paddedMemory : List UInt8 :=
  [0x80402010, 0x00000000, 0x01FFFFFF, 0xFF102030, 0x03010203, 0x01FFFFFF].flatMap
    ByteOrder.highestFirst.unpack

end SvgDraw.Raster
