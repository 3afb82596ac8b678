/-
  SvgDraw.Number.Decimal — decimal numerals: their grammar and the floats they stand for.

  A number is written as an optional sign and then either a name (`inf`, `infinity`, `nan`, in
  any case) or digits with at most one point, followed by an optional exponent. Digits read as a
  coefficient times a power of ten, and the value is the float nearest to it, ties to even.
-/

import SvgDraw.Number.Binary

namespace SvgDraw.Number

/-- The decimal `coefficient * 10 ^ exponent`. -/
structure Decimal where
  coefficient : Nat
  exponent : Int
  deriving DecidableEq, Repr

/-! ## Digits -/

def digitsValue (digits : List Char) : Nat :=
  digits.foldl (fun value c => 10 * value + (c.toNat - '0'.toNat)) 0

def digitsOf (n : Nat) : List Char :=
  Nat.toDigits 10 n

/-! ## Values -/

def tenTo (n : Nat) : Nat := Nat.pow 10 n

/-- Beyond this many places from the point a decimal is infinite or zero as a float. -/
def farPlaces : Nat := 400

/-- The bits of the float nearest to `d`. Far decimals are settled by the place of their first
digit, so no large power of ten is formed. -/
def Decimal.magnitudeBits (d : Decimal) : Nat :=
  let places : Int := (digitsOf d.coefficient).length + d.exponent
  if d.coefficient = 0 || places < -farPlaces then 0
  else if farPlaces < places then infinityBits
  else match d.exponent with
    | .ofNat e => nearestBits (d.coefficient * tenTo e) 1
    | .negSucc e => nearestBits d.coefficient (tenTo (e + 1))

def Decimal.toFloat (negative : Bool) (d : Decimal) : Float :=
  ofMagnitudeBits negative d.magnitudeBits

/-! ## Grammar -/

/-- Split off a sign; the first part says whether it was a minus. -/
def splitSign : List Char → Bool × List Char
  | '-' :: rest => (true, rest)
  | '+' :: rest => (false, rest)
  | cs => (false, cs)

def readExponent? (cs : List Char) : Option Int :=
  let (negative, digits) := splitSign cs
  if digits.isEmpty || !digits.all Char.isDigit then none
  else some (if negative then -(digitsValue digits : Int) else digitsValue digits)

/-- Read digits with at most one point, at least one digit, and an optional exponent. -/
def readDecimal? (cs : List Char) : Option Decimal :=
  let whole := cs.takeWhile Char.isDigit
  let afterWhole := cs.dropWhile Char.isDigit
  let (fraction, rest) :=
    match afterWhole with
    | '.' :: after => (after.takeWhile Char.isDigit, after.dropWhile Char.isDigit)
    | _ => ([], afterWhole)
  if whole.isEmpty && fraction.isEmpty then none
  else
    let unscaled : Decimal := ⟨digitsValue (whole ++ fraction), -(fraction.length : Int)⟩
    match rest with
    | [] => some unscaled
    | mark :: power =>
      if mark = 'e' || mark = 'E' then
        (readExponent? power).map fun e => { unscaled with exponent := unscaled.exponent + e }
      else none

def infinityNames : List (List Char) := ["inf".toList, "infinity".toList]

def nanName : List Char := "nan".toList

def read? (cs : List Char) : Option Float :=
  let (negative, body) := splitSign cs
  let name := body.map Char.toLower
  if infinityNames.contains name then some (ofMagnitudeBits negative infinityBits)
  else if name = nanName then some (0.0 / 0.0)
  else (readDecimal? body).map (Decimal.toFloat negative)

end SvgDraw.Number
