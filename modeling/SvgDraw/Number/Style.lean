/-
  SvgDraw.Number.Style — the two ways floats are written.

  Scripts write every number out in full and have names for the numbers that are not finite.
  Reports (answers and log fields) show that a number is a float, and write very large and very
  small ones with an exponent. Both use the digits of `shortest`.
-/

import SvgDraw.Number.Shortest

namespace SvgDraw.Number

structure Style where
  /-- The powers of ten, by that of the first digit, that are written without an exponent. -/
  positional : Int → Bool
  /-- What follows a whole number that is written without an exponent. -/
  wholeMark : List Char
  /-- A negative zero keeps its sign. -/
  signedZero : Bool
  infinity : List Char
  nan : List Char

/-- Numbers in scripts: always in full, no mark on whole numbers, one zero. -/
def Style.script : Style where
  positional _ := true
  wholeMark := []
  signedZero := false
  infinity := "Infinity".toList
  nan := "NaN".toList

/-- Numbers in reports: in full from `10 ^ (-4)` to below `10 ^ 16`, whole ones ending in `.0`. -/
def Style.report : Style where
  positional power := -4 ≤ power && power < 16
  wholeMark := ".0".toList
  signedZero := true
  infinity := "inf".toList
  nan := "NaN".toList

/-! ## Decimals -/

def Decimal.positional (wholeMark : List Char) (d : Decimal) : List Char :=
  let digits := digitsOf d.coefficient
  match d.exponent with
  | .ofNat zeros => digits ++ List.replicate zeros '0' ++ wholeMark
  | .negSucc n =>
    let places := n + 1
    if places < digits.length then
      digits.take (digits.length - places) ++ '.' :: digits.drop (digits.length - places)
    else '0' :: '.' :: List.replicate (places - digits.length) '0' ++ digits

def Decimal.leadingPower (d : Decimal) : Int :=
  (digitsOf d.coefficient).length - 1 + d.exponent

def signedDigits (n : Int) : List Char :=
  if n < 0 then '-' :: digitsOf n.natAbs else digitsOf n.natAbs

def Decimal.scientific (d : Decimal) : List Char :=
  let mantissa :=
    match digitsOf d.coefficient with
    | first :: more => if more.isEmpty then [first] else first :: '.' :: more
    | [] => []
  mantissa ++ 'e' :: signedDigits d.leadingPower

/-! ## Floats -/

def Style.chars (s : Style) (x : Float) : List Char :=
  match partsOf x with
  | .nan => s.nan
  | .infinite negative => (if negative then ['-'] else []) ++ s.infinity
  | .finite negative mantissa scale =>
    if mantissa = 0 then
      (if negative && s.signedZero then ['-'] else []) ++ '0' :: s.wholeMark
    else
      let d := shortest mantissa scale
      (if negative then ['-'] else []) ++
        if s.positional d.leadingPower then d.positional s.wholeMark else d.scientific

def scriptText (x : Float) : String :=
  .ofList (Style.script.chars x)

def reportText (x : Float) : String :=
  .ofList (Style.report.chars x)

end SvgDraw.Number
