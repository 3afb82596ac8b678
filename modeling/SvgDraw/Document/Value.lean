/-
  SvgDraw.Document.Value — what attribute values mean.

  Blanks around a value never count. A length is a number with an optional unit of pixels, an
  offset a fraction or a percentage, and a gradient reference `url(#id)` with quotes allowed
  around what stands between the parentheses.
-/

import SvgDraw.Text.Basic
import SvgDraw.Number.Decimal

namespace SvgDraw.Document

def dropTail (tail cs : List Char) : List Char :=
  (beforeTail? tail cs).getD cs

def length? (value : String) : Option Float :=
  Number.read? (trim (dropTail "px".toList (trim value.toList)))

def offset? (value : String) : Option Float :=
  let text := trim value.toList
  match beforeTail? ['%'] text with
  | some percent => (Number.read? (trim percent)).map (· / 100.0)
  | none => Number.read? text

def isQuote (c : Char) : Bool :=
  c = '\'' || c = '"'

def gradientReference? (value : String) : Option String := do
  let opened ← afterHead? "url(".toList (trim value.toList)
  let inner ← beforeTail? [')'] opened
  let target := stripWhile isQuote (trim inner)
  return .ofList ((afterHead? ['#'] target).getD target)

end SvgDraw.Document
