/-
  SvgDraw.Proofs.Script.Engine — what a drawing context makes of a script's statements.

  `Engine` is what the context knows: the gradient that each constant holds, and the value of
  each style. `Engine.exec` carries one statement out, so the context after a script is a fold
  over its statements (`engine`). A style that holds a constant paints with that constant's
  gradient (`Engine.painted`).

  An effect on a script acts on the context by the statements it appends (`engine_enact`): a
  definition lets the next constant hold the gradient and changes nothing else
  (`engine_define`), and a paint that is not refused sets its style and changes nothing else
  (`engine_style`). No two definitions share a constant (`gradientName_injective`), so a
  constant holds for good what it was declared with (`Declares.define`, `Declares.style`).
-/

import Mathlib.Logic.Function.Basic
import SvgDraw.Proofs.Script.Gradients

namespace SvgDraw

/-- What a gradient looks like: all of it but the id. -/
structure Ramp where
  start : Point
  finish : Point
  stops : List GradientStop
  deriving DecidableEq, Repr

def LinearGradient.ramp (g : LinearGradient) : Ramp := ⟨g.start, g.finish, g.stops⟩

namespace Script

/-! ## The drawing context -/

structure Engine where
  /-- The gradient that a constant holds. -/
  ramps : String → Option Ramp
  /-- What was last assigned to a property. -/
  styles : String → Option Literal

namespace Engine

def start : Engine := ⟨fun _ => none, fun _ => none⟩

def hold (e : Engine) (name : String) (ramp : Ramp) : Engine :=
  { e with ramps := Function.update e.ramps name (some ramp) }

def style (e : Engine) (property : String) (value : Literal) : Engine :=
  { e with styles := Function.update e.styles property (some value) }

/-- A statement is carried out. What is no gradient and no assignment to the context tells
    nothing about paints. -/
def exec (context : String) (e : Engine) : Statement → Engine
  | .declare name target method arguments =>
    match arguments with
    | [.number x₁, .number y₁, .number x₂, .number y₂] =>
      if target = context ∧ method = "createLinearGradient" then
        e.hold name ⟨⟨x₁, y₁⟩, ⟨x₂, y₂⟩, []⟩
      else e
    | _ => e
  | .call target method arguments =>
    match arguments, e.ramps target with
    | [.number offset, .text color], some ramp =>
      if method = "addColorStop" then
        e.hold target { ramp with stops := ramp.stops ++ [⟨offset, color⟩] }
      else e
    | _, _ => e
  | .assign target property value => if target = context then e.style property value else e

def painted (e : Engine) (property : String) : Option Ramp :=
  match e.styles property with
  | some (.raw name) => e.ramps name
  | _ => none

@[simp] theorem hold_styles (e : Engine) (name : String) (ramp : Ramp) :
    (e.hold name ramp).styles = e.styles := rfl

@[simp] theorem hold_ramps_self (e : Engine) (name : String) (ramp : Ramp) :
    (e.hold name ramp).ramps name = some ramp :=
  Function.update_self ..

theorem hold_ramps_of_ne (e : Engine) {name other : String} (h : other ≠ name) (ramp : Ramp) :
    (e.hold name ramp).ramps other = e.ramps other :=
  Function.update_of_ne h ..

@[simp] theorem hold_hold (e : Engine) (name : String) (r₁ r₂ : Ramp) :
    (e.hold name r₁).hold name r₂ = e.hold name r₂ := by
  simp [hold]

@[simp] theorem style_ramps (e : Engine) (property : String) (value : Literal) :
    (e.style property value).ramps = e.ramps := rfl

@[simp] theorem style_styles_self (e : Engine) (property : String) (value : Literal) :
    (e.style property value).styles property = some value :=
  Function.update_self ..

theorem style_styles_of_ne (e : Engine) {property other : String} (h : other ≠ property)
    (value : Literal) : (e.style property value).styles other = e.styles other :=
  Function.update_of_ne h ..

end Engine

def engine (s : Script) : Engine :=
  s.statements.toList.foldl (Engine.exec s.receiver) .start

/-! ## Definitions -/

/-- Stops are added to a constant one after the other. -/
theorem exec_stops (context name : String) (stops : List GradientStop) (e : Engine)
    (ramp : Ramp) :
    (stops.map fun stop => Statement.call name "addColorStop"
        [.number stop.offset, .text stop.color]).foldl (Engine.exec context) (e.hold name ramp) =
      e.hold name { ramp with stops := ramp.stops ++ stops } := by
  induction stops generalizing ramp with
  | nil => simp
  | cons stop stops ih =>
    have hstep : Engine.exec context (e.hold name ramp)
        (.call name "addColorStop" [.number stop.offset, .text stop.color]) =
          e.hold name { ramp with stops := ramp.stops ++ [stop] } := by
      simp [Engine.exec]
    rw [List.map_cons, List.foldl_cons, hstep, ih, List.append_assoc, List.singleton_append]

/-- The statements of a definition let its constant hold the gradient. -/
theorem exec_gradientStatements (s : Script) (g : LinearGradient) (e : Engine) :
    (s.gradientStatements g).foldl (Engine.exec s.receiver) e = e.hold s.nextName g.ramp := by
  have hdeclare : Engine.exec s.receiver e (.declare s.nextName s.receiver "createLinearGradient"
      [.number g.start.x, .number g.start.y, .number g.finish.x, .number g.finish.y]) =
        e.hold s.nextName ⟨g.start, g.finish, []⟩ := by
    simp [Engine.exec]
  rw [gradientStatements, List.foldl_cons, hdeclare, exec_stops]
  rfl

/-! ## Effects -/

/-- An effect acts on the context by the statements it appends. -/
theorem engine_enact (s : Script) (effect : Effect) :
    (s.enact effect).state.engine = (s.added effect).foldl (Engine.exec s.receiver) s.engine := by
  rw [engine, enact_statements, enact_receiver, List.foldl_append]
  rfl

theorem engine_define (s : Script) (g : LinearGradient) :
    (s.enact (.define g)).state.engine = s.engine.hold s.nextName g.ramp := by
  rw [engine_enact]
  exact s.exec_gradientStatements g s.engine

theorem engine_style (s : Script) (property : String) {paint : Paint} {value : Literal}
    (h : s.paintLiteral paint = .ok value) :
    (s.enact (.style property paint)).state.engine = s.engine.style property value := by
  rw [engine_enact, added, h]
  simp [Engine.exec]

theorem engine_style_refused (s : Script) (property : String) {paint : Paint} {failure : Failure}
    (h : s.paintLiteral paint = .error failure) :
    (s.enact (.style property paint)).state.engine = s.engine := by
  rw [engine_enact, added, h]
  rfl

/-- Setting a style leaves the constants as they are. -/
theorem ramps_style (s : Script) (property : String) (paint : Paint) :
    (s.enact (.style property paint)).state.engine.ramps = s.engine.ramps := by
  cases h : s.paintLiteral paint with
  | error failure => rw [s.engine_style_refused property h]
  | ok value => rw [s.engine_style property h, Engine.style_ramps]

/-- Setting a style leaves the other properties as they are. -/
theorem styles_style_of_ne (s : Script) {property other : String} (hne : other ≠ property)
    (paint : Paint) :
    (s.enact (.style property paint)).state.engine.styles other = s.engine.styles other := by
  cases h : s.paintLiteral paint with
  | error failure => rw [s.engine_style_refused property h]
  | ok value => rw [s.engine_style property h, Engine.style_styles_of_ne _ hne]

/-! ## Constants -/

/-- The constant of definition `k` is declared, and holds this gradient. -/
def Declares (s : Script) (k : Nat) (ramp : Ramp) : Prop :=
  k < s.definitions ∧ s.engine.ramps (gradientName k) = some ramp

theorem declares_define_self (s : Script) (g : LinearGradient) :
    (s.enact (.define g)).state.Declares s.definitions g.ramp := by
  constructor
  · show s.definitions < (s.define g).definitions
    rw [define_eq]
    exact Nat.lt_succ_self _
  · rw [engine_define]
    exact Engine.hold_ramps_self ..

theorem Declares.define {s : Script} {k : Nat} {ramp : Ramp} (h : s.Declares k ramp)
    (g : LinearGradient) : (s.enact (.define g)).state.Declares k ramp := by
  obtain ⟨hk, hr⟩ := h
  constructor
  · show k < (s.define g).definitions
    rw [define_eq]
    exact Nat.lt_succ_of_lt hk
  · -- The new constant is another one.
    have hne : gradientName k ≠ s.nextName := by
      intro heq
      have := gradientName_injective heq
      omega
    rw [engine_define, Engine.hold_ramps_of_ne _ hne, hr]

theorem Declares.style {s : Script} {k : Nat} {ramp : Ramp} (h : s.Declares k ramp)
    (property : String) (paint : Paint) :
    (s.enact (.style property paint)).state.Declares k ramp := by
  obtain ⟨hk, hr⟩ := h
  constructor
  · rw [(s.enact_gradients rfl).1]
    exact hk
  · rw [ramps_style, hr]

end Script

end SvgDraw
