/-
  SvgDraw.Raster.Styles — the paints of a raster surface, and what it paints with.

  A raster surface keeps its two current paints and the gradients registered so far, the last
  one under each id. A paint whose gradient is not registered is refused and changes nothing.
  A paint is looked up when it is used: a colour is read then, and a gradient is the one that is
  registered under its id by then, with the colours of its stops read.
-/

import SvgDraw.Canvas.Surface
import SvgDraw.Raster.Color
import Std.Data.TreeMap

namespace SvgDraw.Raster

structure Styles where
  fill : Paint
  stroke : Paint
  gradients : Std.TreeMap String LinearGradient

namespace Styles

def start (fill stroke : Paint) : Styles := ⟨fill, stroke, ∅⟩

def refusal? (s : Styles) : Paint → Option Failure
  | .color _ => none
  | .gradient id => if s.gradients.contains id then none else some (.unknownGradient id)

def setFill (s : Styles) (paint : Paint) : Except Failure Styles :=
  match s.refusal? paint with
  | some failure => .error failure
  | none => .ok { s with fill := paint }

def setStroke (s : Styles) (paint : Paint) : Except Failure Styles :=
  match s.refusal? paint with
  | some failure => .error failure
  | none => .ok { s with stroke := paint }

def register (s : Styles) (gradient : LinearGradient) : Styles :=
  { s with gradients := s.gradients.insert gradient.id gradient }

end Styles

/-! ## What pixels are painted with -/

/-- What pixels are painted with: one colour, or colours at fractions of the way along a line. -/
inductive Source where
  | solid (color : Rgba)
  | linear (start finish : Point) (stops : List (Float × Rgba))
  deriving DecidableEq, Repr

def Source.ofGradient (g : LinearGradient) : Source :=
  .linear g.start g.finish (g.stops.map fun stop => (stop.offset, paintColor stop.color))

def Styles.source (s : Styles) : Paint → Except Failure Source
  | .color text => .ok (.solid (paintColor text))
  | .gradient id =>
    match s.gradients[id]? with
    | some gradient => .ok (.ofGradient gradient)
    | none => .error (.unknownGradient id)

end SvgDraw.Raster
