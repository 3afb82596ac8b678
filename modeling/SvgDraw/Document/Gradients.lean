/-
  SvgDraw.Document.Gradients — the first pass over a document: its gradients.

  A gradient element collects the stops up to its end and is then registered; an empty one is
  registered at once. Only one gradient is collected at a time: a gradient element inside of
  another one takes its place. A stop where no gradient is collected is reported.
-/

import SvgDraw.Canvas.Walk
import SvgDraw.Document.Value
import SvgDraw.Markup.Reading

namespace SvgDraw.Document

abbrev Attributes := List (String × String)

def attributesOf (tag : Markup.Tag) : Walk Attributes :=
  .ofExcept (tag.attributes.mapError .markup)

structure Gradients where
  /-- The gradient that is being collected. -/
  current : Option LinearGradient
  /-- The ids registered so far. -/
  ids : List String
  deriving DecidableEq, Repr

def Gradients.initial : Gradients := ⟨none, []⟩

/-- A coordinate of a gradient, zero if it is missing or no length. -/
def coordinate (attrs : Attributes) (name : String) : Float :=
  ((attrs.lookup name).bind length?).getD 0.0

def gradientOf (attrs : Attributes) : LinearGradient where
  id := (attrs.lookup "id").getD ""
  start := ⟨coordinate attrs "x1", coordinate attrs "y1"⟩
  finish := ⟨coordinate attrs "x2", coordinate attrs "y2"⟩
  stops := []

/-- The offset of a stop, zero if it is missing. One that cannot be read is reported and zero. -/
def stopOffset (attrs : Attributes) : Walk Float :=
  match attrs.lookup "offset" with
  | none => .done 0.0
  | some value =>
    match offset? value with
    | some x => .done x
    | none => do
      Walk.note (.unparsableOffset (.ofList (trim value.toList)))
      return 0.0

namespace Gradients

def addStop (s : Gradients) (attrs : Attributes) : Walk Gradients :=
  match s.current with
  | none => do
    Walk.note .stopOutsideGradient
    return s
  | some g => do
    let offset ← stopOffset attrs
    let color := (attrs.lookup "stop-color").getD "black"
    return { s with current := some (g.addStop ⟨offset, color⟩) }

def finish (s : Gradients) : Walk Gradients :=
  match s.current with
  | none => .done s
  | some g => do
    Walk.ask (.register g)
    return ⟨none, s.ids ++ [g.id]⟩

def begin (s : Gradients) (tag : Markup.Tag) : Walk Gradients := do
  let attrs ← attributesOf tag
  return { s with current := some (gradientOf attrs) }

/-- Meet a tag; `whole` says whether it is a whole element. -/
def meet (s : Gradients) (tag : Markup.Tag) (whole : Bool) : Walk Gradients :=
  match Markup.localName tag.name with
  | "linearGradient" => do
    let begun ← s.begin tag
    if whole then begun.finish else return begun
  | "stop" => do s.addStop (← attributesOf tag)
  | _ => .done s

def visit (s : Gradients) : Markup.Event → Walk Gradients
  | .start tag => s.meet tag false
  | .empty tag => s.meet tag true
  | .finish name => if Markup.localName name = "linearGradient" then s.finish else .done s

end Gradients

end SvgDraw.Document
