/-
  SvgDraw.Number.Binary — a float taken apart into exact integers, and put together from them.

  A finite float is `mantissa · 2 ^ scale` units of the smallest positive one, `2 ^ (-1074)`.
  Both numbers are natural, so every question about a float's exact value (its decimal text,
  the float nearest to a fraction, its ceiling) becomes arithmetic on `Nat`.
  `nearestBits` gives the bits of the float nearest to a fraction, ties going to the even one.
-/

namespace SvgDraw.Number

inductive Parts where
  | nan
  | infinite (negative : Bool)
  /-- The value `mantissa * 2 ^ scale / 2 ^ 1074`. -/
  | finite (negative : Bool) (mantissa scale : Nat)
  deriving DecidableEq, Repr

def twoTo (n : Nat) : Nat := Nat.pow 2 n

def leadingBit : Nat := twoTo 52

def signBit : Nat := twoTo 63

/-- The number of halvings from one down to the smallest positive float. -/
def unitPlaces : Nat := 1074

/-- The bits of positive infinity, the first pattern that no finite float has. -/
def infinityBits : Nat := 0x7FF * leadingBit

def Parts.ofBits (bits : Nat) : Parts :=
  let negative := bits / signBit % 2 == 1
  let exponent := bits / leadingBit % 0x800
  let fraction := bits % leadingBit
  if exponent = 0x7FF then
    if fraction = 0 then .infinite negative else .nan
  else if exponent = 0 then .finite negative fraction 0
  else .finite negative (leadingBit + fraction) (exponent - 1)

def partsOf (x : Float) : Parts :=
  .ofBits x.toBits.toNat

def isFinite (x : Float) : Bool :=
  match partsOf x with
  | .finite .. => true
  | _ => false

def ofMagnitudeBits (negative : Bool) (bits : Nat) : Float :=
  .ofBits (UInt64.ofNat (if negative then signBit + bits else bits))

/-! ## Rounding -/

/-- The quotient `num / den` rounded to the nearest integer, a half going to the even neighbour. -/
def roundDiv (num den : Nat) : Nat :=
  let quotient := num / den
  let twice := 2 * (num % den)
  if twice < den || (twice == den && quotient % 2 == 0) then quotient else quotient + 1

/-- The bits of the float nearest to `num / den`, a tie going to the even mantissa, infinity from
the middle above the greatest float on. A mantissa that rounds up to the next power of two
carries into the exponent by itself, since the fields are adjacent. -/
def nearestBits (num den : Nat) : Nat :=
  let units := num * twoTo unitPlaces
  let scale := (units / den).log2 - 52
  let mantissa := roundDiv units (den * twoTo scale)
  min (scale * leadingBit + mantissa) infinityBits

/-! ## Ceiling -/

/-- The least integer that is not below `mantissa * 2 ^ scale / 2 ^ 1074`. -/
def ceiling (mantissa scale : Nat) : Nat :=
  (mantissa * twoTo scale + (twoTo unitPlaces - 1)) / twoTo unitPlaces

end SvgDraw.Number
