/-
  SvgDraw.Raster.Color — colours as a raster surface reads them.

  A colour is a hash sign and hexadecimal digits, blanks around it aside: three digits (each
  stands for a pair of itself), six, or eight with the opacity in the last pair. A pair may have
  a plus sign in place of its first digit. Every other text is reported and paints opaque black.
-/

import SvgDraw.Text.Basic
import SvgDraw.Log

namespace SvgDraw.Raster

/-- The parts of a colour, each from zero to one. -/
structure Rgba where
  red : Float
  green : Float
  blue : Float
  alpha : Float
  deriving DecidableEq, Repr

def Rgba.solidBlack : Rgba := ⟨0.0, 0.0, 0.0, 1.0⟩

/-- The byte of two digits, or of a plus sign and a digit. -/
def pairByte? (c d : Char) : Option Nat :=
  if c = '+' then hexDigit? d
  else do return 16 * (← hexDigit? c) + (← hexDigit? d)

def channel? (c d : Char) : Option Float :=
  (pairByte? c d).map fun byte => byte.toFloat / 255.0

def hexColor? : List Char → Option Rgba
  | [r, g, b] => do
    return ⟨← channel? r r, ← channel? g g, ← channel? b b, 1.0⟩
  | [r₁, r₂, g₁, g₂, b₁, b₂] => do
    return ⟨← channel? r₁ r₂, ← channel? g₁ g₂, ← channel? b₁ b₂, 1.0⟩
  | [r₁, r₂, g₁, g₂, b₁, b₂, a₁, a₂] => do
    return ⟨← channel? r₁ r₂, ← channel? g₁ g₂, ← channel? b₁ b₂, ← channel? a₁ a₂⟩
  | _ => none

def color? (text : String) : Option Rgba :=
  match trim text.toList with
  | '#' :: digits => hexColor? digits
  | _ => none

def paintColor (text : String) : Rgba :=
  (color? text).getD .solidBlack

def colorJournal (text : String) : List Log.Event :=
  match color? text with
  | some _ => []
  | none => [.unsupportedColor text]

end SvgDraw.Raster
