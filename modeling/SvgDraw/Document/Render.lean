/-
  SvgDraw.Document.Render — documents drawn on surfaces.

  A document is gone through twice. The first pass registers its gradients, so a fill may name a
  gradient that stands further down; the second pass draws. An error of the markup ends the pass
  that meets it, after all tags before it, so it always comes up in the first pass.
-/

import SvgDraw.Document.Drawing
import SvgDraw.Script.Surface

namespace SvgDraw.Document

/-- Go through all tags of a reading, and end as it ends. -/
def pass {τ : Type} (visit : τ → Markup.Event → Walk τ) (reading : Markup.Reading) (start : τ) :
    Walk τ := do
  let last ← reading.events.foldlM visit start
  match reading.failure with
  | some error => Walk.fail (.markup error)
  | none => return last

def gradientPass (reading : Markup.Reading) : Walk Gradients :=
  pass Gradients.visit reading .initial

/-- The second pass, with the ids that the first one registered. -/
def drawingPass (options : Options) (ids : List String) (reading : Markup.Reading) :
    Walk Drawing :=
  pass (Drawing.visit options ids) reading .initial

/-- What rendering a reading does, with a report of the counts at its end. -/
def renderReading (options : Options) (reading : Markup.Reading) : Walk Unit := do
  let gradients ← gradientPass reading
  let drawing ← drawingPass options gradients.ids reading
  Walk.note (.rendered drawing.paths drawing.skipped)

def replyTo {σ : Type} (surface : Surface σ) (options : Options) (reading : Markup.Reading)
    (state : σ) : Reply σ :=
  (renderReading options reading).runOn surface state

def render {σ : Type} (surface : Surface σ) (options : Options) (source : String) (state : σ) :
    Reply σ :=
  replyTo surface options (Markup.read source) state

def compile (options : Options) (source : String) : Reply Script :=
  render Script.surface options source (.empty Script.defaultReceiver)

end SvgDraw.Document
