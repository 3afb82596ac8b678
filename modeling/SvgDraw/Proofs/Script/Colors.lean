/-
  SvgDraw.Proofs.Script.Colors — colours have no part in what a run does.

  `uncolored` puts an empty colour in the place of every colour, in edits and in statements. A run
  of edits without their colours comes to the script of the run, without its colours
  (`run_uncolored`). So runs that differ in colours only emit the same statements but for the
  colours in them (`statements_of_uncolored_eq`).
-/

import SvgDraw.Proofs.Script.Run

namespace SvgDraw

def Literal.uncolored : Literal → Literal
  | .text _ => .text ""
  | value => value

def Statement.uncolored : Statement → Statement
  | .call target method arguments => .call target method (arguments.map Literal.uncolored)
  | .assign target property value => .assign target property value.uncolored
  | .declare name target method arguments =>
    .declare name target method (arguments.map Literal.uncolored)

def Paint.uncolored : Paint → Paint
  | .color _ => .color ""
  | .gradient id => .gradient id

def LinearGradient.uncolored (g : LinearGradient) : LinearGradient :=
  { g with stops := g.stops.map fun stop => { stop with color := "" } }

def Call.uncolored : Call → Call
  | .setFill paint => .setFill paint.uncolored
  | .setStroke paint => .setStroke paint.uncolored
  | .register gradient => .register gradient.uncolored
  | call => call

namespace Script

def Edit.uncolored : Edit → Edit
  | .define gradient => .define gradient.uncolored
  | .ask call => .ask call.uncolored

def Effect.uncolored : Effect → Effect
  | .define gradient => .define gradient.uncolored
  | .style property paint => .style property paint.uncolored
  | effect => effect

theorem Edit.uncolored_effect (e : Edit) : e.uncolored.effect = e.effect.uncolored := by
  cases e with
  | define gradient => rfl
  | ask call => cases call <;> rfl

def uncolored (s : Script) : Script :=
  { s with statements := s.statements.map Statement.uncolored }

theorem gradientStatements_uncolored (s : Script) (g : LinearGradient) :
    s.uncolored.gradientStatements g.uncolored =
      (s.gradientStatements g).map Statement.uncolored := by
  simp [gradientStatements, LinearGradient.uncolored, uncolored, nextName, Statement.uncolored,
    Literal.uncolored, Function.comp_def]

theorem paintLiteral_uncolored (s : Script) (paint : Paint) :
    s.uncolored.paintLiteral paint.uncolored =
      (s.paintLiteral paint).map Literal.uncolored := by
  cases paint with
  | color text => rfl
  | gradient id =>
    show (s.resolve id).map Literal.raw = ((s.resolve id).map Literal.raw).map Literal.uncolored
    cases s.resolve id with
    | error failure => rfl
    | ok name => rfl

theorem enact_uncolored (s : Script) (effect : Effect) :
    (s.uncolored.enact effect.uncolored).state = (s.enact effect).state.uncolored := by
  cases effect with
  | define gradient =>
    show s.uncolored.define gradient.uncolored = (s.define gradient).uncolored
    simp only [define, emitAll_eq, gradientStatements_uncolored]
    simp [uncolored, bindNext, LinearGradient.uncolored]
  | invoke method numbers =>
    have hnumbers : Literal.uncolored ∘ Literal.number = Literal.number := rfl
    simp [enact, Effect.uncolored, call, emit, uncolored, Statement.uncolored, hnumbers]
  | style property paint =>
    simp only [enact, Effect.uncolored, paintLiteral_uncolored]
    cases s.paintLiteral paint with
    | error failure => rfl
    | ok value => simp [Except.map, assign, emit, uncolored, Statement.uncolored]
  | resize width height => rfl

/-- Without its colours a run goes the same way. -/
theorem run_uncolored (s : Script) (edits : List Edit) :
    s.uncolored.run (edits.map Edit.uncolored) = (s.run edits).uncolored := by
  induction edits generalizing s with
  | nil => rfl
  | cons e edits ih =>
    rw [List.map_cons, run_cons, run_cons, ← ih, edit_eq_enact, edit_eq_enact,
      Edit.uncolored_effect, enact_uncolored]

theorem statements_of_uncolored_eq (receiver : String) {edits₁ edits₂ : List Edit}
    (h : edits₁.map Edit.uncolored = edits₂.map Edit.uncolored) :
    ((empty receiver).run edits₁).statements.map Statement.uncolored =
      ((empty receiver).run edits₂).statements.map Statement.uncolored := by
  have hrun : ((empty receiver).run edits₁).uncolored = ((empty receiver).run edits₂).uncolored := by
    rw [← run_uncolored, ← run_uncolored, h]
  exact congrArg Script.statements hrun

end Script

end SvgDraw
