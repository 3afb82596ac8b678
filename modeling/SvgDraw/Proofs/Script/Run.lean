/-
  SvgDraw.Proofs.Script.Run — runs of edits on a script.

  A script is edited by defining a gradient directly or by a call of its surface. What an edit
  does is one of four effects (`edit_eq_enact`): a gradient is defined, a method is called with
  numbers, a style is set, or the size is. An effect only appends statements
  (`enact_statements`), so every statement of a run stays where it is (`run_statements`).
-/

import SvgDraw.Script.Surface

namespace SvgDraw.Script

inductive Edit where
  | define (gradient : LinearGradient)
  | ask (call : Call)

def edit (s : Script) : Edit → Reply Script
  | .define gradient => ⟨s.define gradient, s.defineJournal gradient, none⟩
  | .ask call => surface.reply s call

/-- The script after a list of edits, refused ones included. -/
def run (s : Script) (edits : List Edit) : Script :=
  edits.foldl (fun s e => (s.edit e).state) s

@[simp] theorem run_nil (s : Script) : s.run [] = s := rfl

@[simp] theorem run_cons (s : Script) (e : Edit) (edits : List Edit) :
    s.run (e :: edits) = (s.edit e).state.run edits := rfl

theorem run_concat (s : Script) (edits : List Edit) (e : Edit) :
    s.run (edits ++ [e]) = ((s.run edits).edit e).state := by
  simp only [run, List.foldl_append, List.foldl_cons, List.foldl_nil]

/-! ## Effects -/

inductive Effect where
  /-- A gradient is created and its id bound. -/
  | define (gradient : LinearGradient)
  /-- A method of the drawing context is called. -/
  | invoke (method : String) (numbers : List Float)
  /-- A style of the drawing context is set. -/
  | style (property : String) (paint : Paint)
  | resize (width height : Float)

def Edit.effect : Edit → Effect
  | .define gradient => .define gradient
  | .ask .beginPath => .invoke "beginPath" []
  | .ask .closePath => .invoke "closePath" []
  | .ask (.moveTo p) => .invoke "moveTo" [p.x, p.y]
  | .ask (.lineTo p) => .invoke "lineTo" [p.x, p.y]
  | .ask (.curveTo c₁ c₂ p) => .invoke "bezierCurveTo" [c₁.x, c₁.y, c₂.x, c₂.y, p.x, p.y]
  | .ask .fill => .invoke "fill" []
  | .ask .stroke => .invoke "stroke" []
  | .ask (.setFill paint) => .style "fillStyle" paint
  | .ask (.setStroke paint) => .style "strokeStyle" paint
  | .ask (.register gradient) => .define gradient
  | .ask (.resize width height) => .resize width height

def added (s : Script) : Effect → List Statement
  | .define gradient => s.gradientStatements gradient
  | .invoke method numbers => [.call s.receiver method (numbers.map .number)]
  | .style property paint =>
    match s.paintLiteral paint with
    | .error _ => []
    | .ok value => [.assign s.receiver property value]
  | .resize _ _ => []

def enact (s : Script) (effect : Effect) : Reply Script :=
  match effect with
  | .define gradient => ⟨s.define gradient, s.defineJournal gradient, none⟩
  | .invoke method numbers =>
    ⟨s.call method (numbers.map .number), emittedEvents (s.added effect), none⟩
  | .style property paint =>
    match s.paintLiteral paint with
    | .error failure => ⟨s, [], some failure⟩
    | .ok value => ⟨s.assign property value, emittedEvents (s.added effect), none⟩
  | .resize width height => ⟨s.setSize width height, [], none⟩

/-- A call that becomes the assignment of a paint has the effect of setting a style. -/
theorem reply_style (s : Script) (property : String) (paint : Paint) (call : Call)
    (hs : s.statementsFor call =
      (s.paintLiteral paint).map fun value => [.assign s.receiver property value])
    (hr : ∀ t : Script, t.retain call = t)
    (hj : ∀ statements, s.callJournal statements call = emittedEvents statements) :
    surface.reply s call = s.enact (.style property paint) := by
  simp only [surface, enact, added, hs]
  cases s.paintLiteral paint with
  | error failure => rfl
  | ok value =>
    simp only [Except.map, hr, hj]
    rfl

/-- Edits do what their effects do. -/
theorem edit_eq_enact (s : Script) (e : Edit) : s.edit e = s.enact e.effect := by
  cases e with
  | define gradient => rfl
  | ask call =>
    cases call with
    | setFill paint => exact s.reply_style _ _ _ rfl (fun _ => rfl) fun _ => rfl
    | setStroke paint => exact s.reply_style _ _ _ rfl (fun _ => rfl) fun _ => rfl
    | _ => rfl

theorem reply_eq_enact (s : Script) (call : Call) :
    surface.reply s call = s.enact (Edit.ask call).effect :=
  s.edit_eq_enact (.ask call)

/-! ## Statements are only appended -/

theorem emitAll_eq (s : Script) (statements : List Statement) :
    s.emitAll statements = { s with statements := s.statements ++ statements.toArray } := by
  induction statements generalizing s with
  | nil => simp [emitAll]
  | cons statement statements ih =>
    show (s.emit statement).emitAll statements = _
    rw [ih]
    simp [emit]

theorem define_eq (s : Script) (g : LinearGradient) :
    s.define g = { s with
      statements := s.statements ++ (s.gradientStatements g).toArray
      bindings := s.bindings.insert g.id s.definitions
      definitions := s.definitions + 1 } := by
  simp [define, bindNext, emitAll_eq]

theorem enact_statements (s : Script) (effect : Effect) :
    (s.enact effect).state.statements.toList = s.statements.toList ++ s.added effect := by
  cases effect with
  | define gradient => simp [enact, added, define_eq]
  | invoke method numbers => simp [enact, added, call, emit]
  | style property paint =>
    simp only [enact, added]
    cases s.paintLiteral paint with
    | error failure => simp
    | ok value => simp [assign, emit]
  | resize width height => simp [enact, added, setSize]

/-- A run keeps the statements that were there before it. -/
theorem run_statements (s : Script) (edits : List Edit) :
    s.statements.toList <+: (s.run edits).statements.toList := by
  induction edits generalizing s with
  | nil => exact List.prefix_refl _
  | cons e edits ih =>
    have h : s.statements.toList <+: (s.edit e).state.statements.toList := by
      rw [edit_eq_enact, enact_statements]
      exact List.prefix_append _ _
    exact h.trans (ih _)

/-- No effect changes the name of the drawing context. -/
theorem enact_receiver (s : Script) (effect : Effect) :
    (s.enact effect).state.receiver = s.receiver := by
  cases effect with
  | define gradient => simp [enact, define_eq]
  | invoke method numbers => rfl
  | style property paint =>
    simp only [enact]
    cases s.paintLiteral paint with
    | error failure => rfl
    | ok value => rfl
  | resize width height => rfl

theorem run_receiver (s : Script) (edits : List Edit) : (s.run edits).receiver = s.receiver := by
  induction edits generalizing s with
  | nil => rfl
  | cons e edits ih => rw [run_cons, ih, edit_eq_enact, enact_receiver]

end SvgDraw.Script
