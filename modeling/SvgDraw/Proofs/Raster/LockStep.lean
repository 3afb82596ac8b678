/-
  SvgDraw.Proofs.Raster.LockStep — a script and a raster surface accept the same paints.

  The two keep different things under a gradient's id: a script the number of the constant that
  holds it, a raster surface the gradient. To a call about paints they reply by the same rule
  over the ids they know (`StyleCall.refusal?`): a gradient paint is refused if its id is not
  known, and a refused call changes nothing. Both learn an id by the same calls
  (`StyleCall.learns`).

  Each rule is shown for each surface (`script_failure`, `script_knows`, `raster_failure`,
  `raster_knows`). So two surfaces that know the same ids reply the same and go on knowing the
  same ids (`Pair.Agree.step`), and from their starts they do so for good (`replies_agree`).
-/

import SvgDraw.Raster.Styles
import SvgDraw.Proofs.Script.Gradients

namespace SvgDraw

open Raster (Styles)

/-! ## Calls about paints -/

inductive StyleCall where
  | register (gradient : LinearGradient)
  | setFill (paint : Paint)
  | setStroke (paint : Paint)

namespace StyleCall

def call : StyleCall → Call
  | .register gradient => .register gradient
  | .setFill paint => .setFill paint
  | .setStroke paint => .setStroke paint

def paint? : StyleCall → Option Paint
  | .register _ => none
  | .setFill paint => some paint
  | .setStroke paint => some paint

def learns : StyleCall → String → Bool
  | .register gradient, id => gradient.id == id
  | _, _ => false

def refusal? (c : StyleCall) (known : String → Bool) : Option Failure :=
  match c.paint? with
  | some (.gradient id) => if known id then none else some (.unknownGradient id)
  | _ => none

end StyleCall

theorem contains_insert {α : Type} (m : Std.TreeMap String α) (key : String) (value : α)
    (id : String) : (m.insert key value).contains id = (key == id || m.contains id) := by
  rw [Std.TreeMap.contains_insert]
  congr 1
  rw [Bool.eq_iff_iff, beq_iff_eq, beq_iff_eq, Std.LawfulEqOrd.compare_eq_iff_eq]

/-! ## Scripts -/

def Script.knows (s : Script) (id : String) : Bool := (s.boundName? id).isSome

namespace Script

theorem knows_eq (s : Script) (id : String) : s.knows id = s.bindings.contains id := by
  rw [knows, boundName?, Option.isSome_map, Std.TreeMap.contains_eq_isSome_getElem?]

theorem failure_style (s : Script) (property : String) (paint : Paint) :
    (s.enact (.style property paint)).failure = (StyleCall.setFill paint).refusal? s.knows := by
  cases paint with
  | color text => rfl
  | gradient id =>
    have hk : s.knows id = (s.boundName? id).isSome := rfl
    cases hb : s.boundName? id with
    | none =>
      rw [hb] at hk
      simp [enact, paintLiteral, resolve, hb, Except.map, StyleCall.refusal?, StyleCall.paint?, hk]
    | some name =>
      rw [hb] at hk
      simp [enact, paintLiteral, resolve, hb, Except.map, StyleCall.refusal?, StyleCall.paint?, hk]

theorem bindings_style (s : Script) (property : String) (paint : Paint) :
    (s.enact (.style property paint)).state.bindings = s.bindings :=
  (s.enact_gradients rfl).2

theorem script_failure (s : Script) (c : StyleCall) :
    (surface.reply s c.call).failure = c.refusal? s.knows := by
  rw [reply_eq_enact]
  cases c with
  | register gradient => rfl
  | setFill paint => exact s.failure_style "fillStyle" paint
  | setStroke paint => exact s.failure_style "strokeStyle" paint

theorem script_knows (s : Script) (c : StyleCall) (id : String) :
    (surface.reply s c.call).state.knows id = (c.learns id || s.knows id) := by
  rw [knows_eq, knows_eq, reply_eq_enact]
  cases c with
  | register gradient =>
    show (s.define gradient).bindings.contains id = _
    rw [define_eq]
    exact contains_insert _ _ _ _
  | setFill paint =>
    show (s.enact (.style "fillStyle" paint)).state.bindings.contains id = _
    rw [bindings_style]
    rfl
  | setStroke paint =>
    show (s.enact (.style "strokeStyle" paint)).state.bindings.contains id = _
    rw [bindings_style]
    rfl

end Script

/-! ## Raster surfaces -/

namespace Raster.Styles

def knows (t : Styles) (id : String) : Bool := t.gradients.contains id

def ask (t : Styles) : StyleCall → Except Failure Styles
  | .register gradient => .ok (t.register gradient)
  | .setFill paint => t.setFill paint
  | .setStroke paint => t.setStroke paint

/-- What comes of a call. A refused call changes nothing. -/
def reply (t : Styles) (c : StyleCall) : Reply Styles :=
  match t.ask c with
  | .ok next => ⟨next, [], none⟩
  | .error failure => ⟨t, [], some failure⟩

theorem refusal?_eq (t : Styles) (paint : Paint) :
    t.refusal? paint = (StyleCall.setFill paint).refusal? t.knows := by
  cases paint with
  | color text => rfl
  | gradient id => rfl

theorem raster_failure (t : Styles) (c : StyleCall) :
    (t.reply c).failure = c.refusal? t.knows := by
  cases c with
  | register gradient => rfl
  | setFill paint =>
    simp only [reply, ask, setFill, refusal?_eq]
    cases (StyleCall.setFill paint).refusal? t.knows with
    | none => rfl
    | some failure => rfl
  | setStroke paint =>
    show _ = (StyleCall.setFill paint).refusal? t.knows
    simp only [reply, ask, setStroke, refusal?_eq]
    cases (StyleCall.setFill paint).refusal? t.knows with
    | none => rfl
    | some failure => rfl

theorem raster_knows (t : Styles) (c : StyleCall) (id : String) :
    (t.reply c).state.knows id = (c.learns id || t.knows id) := by
  cases c with
  | register gradient => exact contains_insert _ _ _ _
  | setFill paint =>
    simp only [reply, ask, setFill]
    cases t.refusal? paint with
    | none => rfl
    | some failure => rfl
  | setStroke paint =>
    simp only [reply, ask, setStroke]
    cases t.refusal? paint with
    | none => rfl
    | some failure => rfl

end Raster.Styles

/-! ## Both -/

structure Pair where
  script : Script
  raster : Styles

namespace Pair

def start (receiver : String) (fill stroke : Paint) : Pair :=
  ⟨.empty receiver, .start fill stroke⟩

def step (p : Pair) (c : StyleCall) : Pair :=
  ⟨(Script.surface.reply p.script c.call).state, (p.raster.reply c).state⟩

def run (p : Pair) (calls : List StyleCall) : Pair :=
  calls.foldl step p

def Agree (p : Pair) : Prop := ∀ id, p.script.knows id = p.raster.knows id

theorem agree_start (receiver : String) (fill stroke : Paint) :
    (start receiver fill stroke).Agree := by
  intro id
  rw [Script.knows_eq]
  rfl

theorem Agree.failure {p : Pair} (h : p.Agree) (c : StyleCall) :
    (Script.surface.reply p.script c.call).failure = (p.raster.reply c).failure := by
  rw [Script.script_failure, Styles.raster_failure, funext h]

theorem Agree.step {p : Pair} (h : p.Agree) (c : StyleCall) : (p.step c).Agree := by
  intro id
  show (Script.surface.reply p.script c.call).state.knows id = (p.raster.reply c).state.knows id
  rw [Script.script_knows, Styles.raster_knows, h id]

theorem Agree.run {p : Pair} (h : p.Agree) (calls : List StyleCall) : (p.run calls).Agree := by
  induction calls generalizing p with
  | nil => exact h
  | cons c calls ih => exact ih (h.step c)

theorem run_knows (p : Pair) (calls : List StyleCall) (id : String) :
    (p.run calls).raster.knows id = (calls.any (·.learns id) || p.raster.knows id) := by
  induction calls generalizing p with
  | nil => rfl
  | cons c calls ih =>
    show ((p.step c).run calls).raster.knows id = _
    rw [ih]
    show (_ || (p.raster.reply c).state.knows id) = _
    rw [Styles.raster_knows, List.any_cons, Bool.or_left_comm, Bool.or_assoc]

end Pair

/-- After any calls about paints a script and a raster surface know the same ids, those of the
    gradients registered so far. To any further call both reply the same: it is refused exactly if
    its paint is a gradient that neither knows, and the failure names that gradient. -/
theorem replies_agree (receiver : String) (fill stroke : Paint) (calls : List StyleCall) :
    let p := (Pair.start receiver fill stroke).run calls
    (∀ id, p.script.knows id = p.raster.knows id ∧
      (p.raster.knows id = true ↔ ∃ g, .register g ∈ calls ∧ g.id = id)) ∧
    (∀ c, (Script.surface.reply p.script c.call).failure = (p.raster.reply c).failure) ∧
    (∀ c failure, (p.raster.reply c).failure = some failure ↔
      ∃ id, c.paint? = some (.gradient id) ∧ p.raster.knows id = false ∧
        failure = .unknownGradient id) := by
  intro p
  have h : p.Agree := (Pair.agree_start receiver fill stroke).run calls
  refine ⟨fun id => ⟨h id, ?_⟩, h.failure, ?_⟩
  · have hstart : (Pair.start receiver fill stroke).raster.knows id = false := rfl
    rw [Pair.run_knows, hstart, Bool.or_false, List.any_eq_true]
    constructor
    · rintro ⟨c, hc, hl⟩
      cases c with
      | register g => exact ⟨g, hc, by simpa [StyleCall.learns] using hl⟩
      | setFill paint => cases hl
      | setStroke paint => cases hl
    · rintro ⟨g, hg, rfl⟩
      exact ⟨_, hg, by simp [StyleCall.learns]⟩
  · intro c failure
    rw [Styles.raster_failure, StyleCall.refusal?]
    cases c.paint? with
    | none => simp
    | some paint =>
      cases paint with
      | color text => simp
      | gradient id =>
        simp only [Option.some.injEq, Paint.gradient.injEq, exists_eq_left']
        cases p.raster.knows id with
        | true => simp
        | false => simp [eq_comm]

end SvgDraw
