/-
  SvgDraw.Path.Pen — where drawing goes on from.

  A pen has a current point and the points put aside by the scopes that are open. Opening a
  scope puts the current point aside and starts over at the origin; closing it takes the last
  point put aside back, or the origin if no scope is open.
-/

namespace SvgDraw

structure Point where
  x : Float
  y : Float
  deriving DecidableEq, Repr

def Point.origin : Point := ⟨0.0, 0.0⟩

/-- The point `(x, y)` away from `p`. -/
def Point.shift (p : Point) (x y : Float) : Point := ⟨p.x + x, p.y + y⟩

structure Pen where
  point : Point
  /-- The points put aside, the last one first. -/
  saved : List Point
  deriving DecidableEq, Repr

namespace Pen

def fresh : Pen := ⟨.origin, []⟩

def moveTo (pen : Pen) (p : Point) : Pen := { pen with point := p }

def enter (pen : Pen) : Pen := ⟨.origin, pen.point :: pen.saved⟩

def leave (pen : Pen) : Pen :=
  match pen.saved with
  | p :: saved => ⟨p, saved⟩
  | [] => ⟨.origin, []⟩

def depth (pen : Pen) : Nat := pen.saved.length

@[simp] theorem leave_enter (pen : Pen) : pen.enter.leave = pen := rfl

end Pen

end SvgDraw
