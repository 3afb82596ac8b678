/-
  SvgDraw.Number.Shortest — the shortest decimal that reads back as a given float.

  The reals that round to a float form an interval around it: it reaches half way to each
  neighbour, and its ends belong to it when the mantissa is even. Among the decimals in the
  interval the shortest one has the greatest power of ten; among those of that power the one
  nearest to the float is taken, and of two equally near the greater.

  All of it happens on natural numbers. Let `places` be the number of decimals after which the
  float itself ends. In units of a quarter of `10 ^ (-places)` the float, the ends of its
  interval and every decimal with at most that many places are integers.
-/

import SvgDraw.Number.Decimal

namespace SvgDraw.Number

/-- A positive number and the interval of what rounds to it, in quarters of the last place. -/
structure Interval where
  low : Nat
  centre : Nat
  high : Nat
  /-- The ends themselves round to the number. -/
  closed : Bool
  deriving Repr

def Interval.holds (i : Interval) (n : Nat) : Bool :=
  if i.closed then i.low ≤ n && n ≤ i.high else i.low < n && n < i.high

/-- The decimals after which `mantissa * 2 ^ scale / 2 ^ 1074` ends. -/
def exactPlaces (scale : Nat) : Nat := unitPlaces - scale

/-- The interval of the float with this mantissa and scale. The gap below a power of two is half
the gap above it, unless both neighbours have the smallest scale. -/
def Interval.ofFloat (mantissa scale : Nat) : Interval :=
  let step := if scale < unitPlaces then Nat.pow 5 (exactPlaces scale) else twoTo (scale - unitPlaces)
  let gapBelow := if mantissa = leadingBit && 0 < scale then step else 2 * step
  { low := 4 * mantissa * step - gapBelow
    centre := 4 * mantissa * step
    high := 4 * mantissa * step + 2 * step
    closed := mantissa % 2 == 0 }

/-- The nearer to the centre of the two multiples of `10 ^ power` around it, if one lies in the
interval; as a multiple of `10 ^ power`. -/
def Interval.multiple? (i : Interval) (power : Nat) : Option Nat :=
  let grid := 4 * tenTo power
  let below := i.centre / grid
  let above := below + 1
  match i.holds (below * grid), i.holds (above * grid) with
  | true, true => some (if i.centre - below * grid < above * grid - i.centre then below else above)
  | true, false => some below
  | false, true => some above
  | false, false => none

/-- The multiple of the greatest power of ten, from `power` down, that lies in the interval. -/
def Interval.coarsest (i : Interval) : Nat → Nat × Nat
  | 0 => ((i.multiple? 0).getD (i.centre / 4), 0)
  | power + 1 =>
    match i.multiple? (power + 1) with
    | some n => (n, power + 1)
    | none => i.coarsest power

def powerAbove (n : Nat) : Nat := (n.log2 + 1) * 4 / 13 + 1

/-- The shortest decimal that rounds to `mantissa * 2 ^ scale / 2 ^ 1074`. -/
def shortest (mantissa scale : Nat) : Decimal :=
  let i := Interval.ofFloat mantissa scale
  let (coefficient, power) := i.coarsest (powerAbove i.high)
  ⟨coefficient, (power : Int) - exactPlaces scale⟩

end SvgDraw.Number
