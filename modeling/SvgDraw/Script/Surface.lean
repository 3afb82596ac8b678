/-
  SvgDraw.Script.Surface — scripts as drawing surfaces.

  Every call becomes statements, except the one for the size, which the program's beginning
  takes in. The only call that is refused is a paint whose gradient is not defined; a refused
  call leaves the script as it is.
-/

import SvgDraw.Script.Basic

namespace SvgDraw.Script

def statementsFor (s : Script) : Call → Except Failure (List Statement)
  | .beginPath => .ok [.call s.receiver "beginPath" []]
  | .closePath => .ok [.call s.receiver "closePath" []]
  | .moveTo p => .ok [s.operationStatement (.moveTo p)]
  | .lineTo p => .ok [s.operationStatement (.lineTo p)]
  | .curveTo c₁ c₂ p => .ok [s.operationStatement (.curveTo c₁ c₂ p)]
  | .fill => .ok [.call s.receiver "fill" []]
  | .stroke => .ok [s.operationStatement .stroke]
  | .setFill paint => (s.paintLiteral paint).map fun value => [.assign s.receiver "fillStyle" value]
  | .setStroke paint =>
    (s.paintLiteral paint).map fun value => [.assign s.receiver "strokeStyle" value]
  | .register gradient => .ok (s.gradientStatements gradient)
  | .resize _ _ => .ok []

/-- What a call changes besides the statements. -/
def retain (s : Script) : Call → Script
  | .register gradient => s.bindNext gradient.id
  | .resize width height => s.setSize width height
  | _ => s

def callJournal (s : Script) (statements : List Statement) : Call → List Log.Event
  | .register gradient => s.defineJournal gradient
  | _ => emittedEvents statements

def surface : Surface Script where
  reply s call :=
    match s.statementsFor call with
    | .error failure => ⟨s, [], some failure⟩
    | .ok statements =>
      let events := s.callJournal statements call
      ⟨(s.emitAll statements).retain call, events, none⟩

end SvgDraw.Script
