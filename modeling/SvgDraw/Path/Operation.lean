/-
  SvgDraw.Path.Operation — drawing operations with absolute coordinates.
-/

import SvgDraw.Path.Pen

namespace SvgDraw

inductive Operation where
  | moveTo (target : Point)
  | lineTo (target : Point)
  | curveTo (control₁ control₂ target : Point)
  /-- Paint the segment just added. -/
  | stroke
  deriving DecidableEq, Repr

namespace Operation

def name : Operation → String
  | .moveTo _ => "moveTo"
  | .lineTo _ => "lineTo"
  | .curveTo .. => "bezierCurveTo"
  | .stroke => "stroke"

/-- The coordinates, each point's `x` before its `y`. -/
def arguments : Operation → List Float
  | .moveTo p => [p.x, p.y]
  | .lineTo p => [p.x, p.y]
  | .curveTo c₁ c₂ p => [c₁.x, c₁.y, c₂.x, c₂.y, p.x, p.y]
  | .stroke => []

def endpoint? : Operation → Option Point
  | .moveTo p => some p
  | .lineTo p => some p
  | .curveTo _ _ p => some p
  | .stroke => none

end Operation

end SvgDraw
