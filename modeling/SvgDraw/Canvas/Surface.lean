/-
  SvgDraw.Canvas.Surface — what can be asked of a drawing surface, and how it replies.

  A surface is a way to reply to calls: with its next state, what it reports, and a failure if it
  refuses the call. A refused call may change the state, since a surface may note what it was
  asked: a recorder notes every call, refused ones included.
-/

import SvgDraw.Log
import SvgDraw.Path.Operation

namespace SvgDraw

/-! ## Paints -/

/-- What shapes are filled or stroked with. A colour is kept as it was written, and a gradient
is named by its id. -/
inductive Paint where
  | color (text : String)
  | gradient (id : String)
  deriving DecidableEq, Repr

structure GradientStop where
  /-- The fraction of the way along the gradient. -/
  offset : Float
  color : String
  deriving DecidableEq, Repr

structure LinearGradient where
  id : String
  start : Point
  finish : Point
  stops : List GradientStop
  deriving DecidableEq, Repr

def LinearGradient.addStop (g : LinearGradient) (stop : GradientStop) : LinearGradient :=
  { g with stops := g.stops ++ [stop] }

/-! ## Calls -/

def defaultSize : Float := 800.0

inductive Call where
  | beginPath
  | closePath
  | moveTo (target : Point)
  | lineTo (target : Point)
  | curveTo (control₁ control₂ target : Point)
  | fill
  | stroke
  | setFill (paint : Paint)
  | setStroke (paint : Paint)
  | register (gradient : LinearGradient)
  | resize (width height : Float)
  deriving DecidableEq, Repr

def Operation.call : Operation → Call
  | .moveTo p => .moveTo p
  | .lineTo p => .lineTo p
  | .curveTo c₁ c₂ p => .curveTo c₁ c₂ p
  | .stroke => .stroke

/-! ## Surfaces -/

/-- What comes of asking; `failure` says why the call is refused, if it is. -/
structure Reply (σ : Type) where
  state : σ
  events : List Log.Event
  failure : Option Failure

def Reply.after {σ : Type} (events : List Log.Event) (r : Reply σ) : Reply σ :=
  { r with events := events ++ r.events }

structure Surface (σ : Type) where
  reply : σ → Call → Reply σ

/-- Notes every call. The call with index `n` is refused if `refusal n` gives a reason; it is
noted all the same. -/
def recorder (refusal : Nat → Option Failure) : Surface (Array Call) where
  reply calls call := ⟨calls.push call, [], refusal calls.size⟩

def acceptingRecorder : Surface (Array Call) :=
  recorder fun _ => none

def refusingRecorder (n : Nat) (failure : Failure) : Surface (Array Call) :=
  recorder fun i => if i = n then some failure else none

end SvgDraw
