/-
  SvgDraw.Raster.Pixel — sizes in pixels and the pixels themselves.

  Surface memory holds rows of words, each four bytes in the order of the machine, and each row
  padded to the stride. A word has alpha in its highest byte and red, green and blue below it,
  already multiplied by alpha. An image has four bytes per pixel, red, green, blue and alpha, with
  the multiplication undone and no padding.
-/

import SvgDraw.Number.Binary

namespace SvgDraw.Raster

def maxPixels : Nat := 0xFFFFFFFF

/-- The pixels a length covers: at least its length if it is finite and positive, else none. -/
def toPixels (length : Float) : Nat :=
  match Number.partsOf length with
  | .finite false mantissa scale => min (Number.ceiling mantissa scale) maxPixels
  | _ => 0

/-! ## Words -/

abbrev Word := UInt32

/-- Byte number `i` of a word, counted from the lowest. -/
def byteOf (word : Word) (i : Nat) : Nat :=
  (word.toNat >>> (8 * i)) % 256

def divideAlpha (colour alpha : Nat) : Nat :=
  (colour * 255 + alpha / 2) / alpha

/-- The red, green, blue and alpha bytes of a word. A colour above its alpha has no such byte and
keeps the low one; without alpha there is no colour. -/
def unpremultiply (word : Word) : List UInt8 :=
  let alpha := byteOf word 3
  if alpha = 0 then [0, 0, 0, 0]
  else
    let channel i := UInt8.ofNat (divideAlpha (byteOf word i) alpha)
    [channel 2, channel 1, channel 0, UInt8.ofNat alpha]

def packBytes (b₀ b₁ b₂ b₃ : Nat) : Word :=
  UInt32.ofNat (b₀ + 256 * (b₁ + 256 * (b₂ + 256 * b₃)))

/-! ## Memory -/

/-- Which byte of a word comes first in memory. -/
inductive ByteOrder where
  | lowestFirst
  | highestFirst
  deriving DecidableEq, Repr

namespace ByteOrder

def pack : ByteOrder → Nat → Nat → Nat → Nat → Word
  | .lowestFirst, b₀, b₁, b₂, b₃ => packBytes b₀ b₁ b₂ b₃
  | .highestFirst, b₀, b₁, b₂, b₃ => packBytes b₃ b₂ b₁ b₀

def unpack (order : ByteOrder) (word : Word) : List UInt8 :=
  let places := match order with
    | .lowestFirst => [0, 1, 2, 3]
    | .highestFirst => [3, 2, 1, 0]
  places.map fun i => UInt8.ofNat (byteOf word i)

end ByteOrder

/-! ## Images -/

/-- The first `count` words of memory, fewer if it ends sooner. -/
def wordsOf (order : ByteOrder) : Nat → List UInt8 → List Word
  | count + 1, b₀ :: b₁ :: b₂ :: b₃ :: rest =>
    order.pack b₀.toNat b₁.toNat b₂.toNat b₃.toNat :: wordsOf order count rest
  | _, _ => []

def exportRows (order : ByteOrder) (width stride : Nat) : Nat → List UInt8 → List UInt8
  | 0, _ => []
  | _, [] => []
  | rows + 1, memory =>
    (wordsOf order width (memory.take stride)).flatMap unpremultiply ++
      exportRows order width stride rows (memory.drop stride)

structure Image where
  width : Nat
  height : Nat
  data : List UInt8
  deriving DecidableEq, Repr

def exportImage (order : ByteOrder) (width height stride : Nat) (memory : List UInt8) : Image :=
  ⟨width, height, exportRows order width stride height memory⟩

end SvgDraw.Raster
