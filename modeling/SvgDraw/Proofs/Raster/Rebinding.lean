/-
  SvgDraw.Proofs.Raster.Rebinding — when a script and a raster surface paint with the same
  gradient.

  A script looks a gradient paint's id up when the paint is set: it assigns the constant of the
  gradient last registered under the id by then. A raster surface keeps the id and looks it up
  when it paints, so it uses the gradient last registered under it by now. The two are asked the
  same and refuse the same, and still differ where an id is registered again while it is the
  current paint.

  `Told` says what both keep under an id, and every call keeps it (`told_run`). A script paints
  with the gradient of the last setting (`Told.paintsWith_set`) until a later one is accepted
  (`Script.PaintsWith.run`), and what a raster surface has as its paint comes from such a setting
  (`exists_setting`). So after any calls both gradients are known (`paints_alike_iff`): they look
  the same exactly if the id was not registered since its setting, or last as a gradient that
  looks the same. `paints_alike_iff_rebound` is the shortest run where they differ.
-/

import SvgDraw.Proofs.Raster.LockStep
import SvgDraw.Proofs.Script.Engine

namespace SvgDraw

open Raster (Styles)

/-! ## The gradient last registered under an id -/

namespace StyleCall

def registers? (id : String) : StyleCall → Option LinearGradient
  | .register gradient => if gradient.id = id then some gradient else none
  | _ => none

/-- The gradient that a list of calls last registers under an id. -/
def latest? (id : String) (calls : List StyleCall) : Option LinearGradient :=
  calls.reverse.findSome? (registers? id)

@[simp] theorem latest?_nil (id : String) : latest? id [] = none := rfl

theorem latest?_append (id : String) (before after : List StyleCall) :
    latest? id (before ++ after) = (latest? id after).or (latest? id before) := by
  simp [latest?, List.findSome?_append]

theorem latest?_concat (id : String) (calls : List StyleCall) (c : StyleCall) :
    latest? id (calls ++ [c]) = (c.registers? id).or (latest? id calls) := by
  rw [latest?_append]
  simp [latest?]

end StyleCall

open StyleCall (latest? registers?)

/-! ## The two paints -/

inductive Side where
  | fill
  | stroke
  deriving DecidableEq, Repr

namespace Side

def property : Side → String
  | .fill => "fillStyle"
  | .stroke => "strokeStyle"

def set : Side → Paint → StyleCall
  | .fill, paint => .setFill paint
  | .stroke, paint => .setStroke paint

def paint : Side → Styles → Paint
  | .fill, t => t.fill
  | .stroke, t => t.stroke

def put : Side → Paint → Styles → Styles
  | .fill, paint, t => { t with fill := paint }
  | .stroke, paint, t => { t with stroke := paint }

@[simp] theorem paint_put (side : Side) (paint : Paint) (t : Styles) :
    side.paint (side.put paint t) = paint := by
  cases side <;> rfl

theorem paint_put_of_ne {side other : Side} (h : side ≠ other) (paint : Paint) (t : Styles) :
    side.paint (other.put paint t) = side.paint t := by
  cases side <;> cases other <;> first | rfl | exact absurd rfl h

@[simp] theorem gradients_put (side : Side) (paint : Paint) (t : Styles) :
    (side.put paint t).gradients = t.gradients := by
  cases side <;> rfl

theorem property_ne {side other : Side} (h : side ≠ other) : side.property ≠ other.property := by
  revert h
  cases side <;> cases other <;> decide

theorem effect_set (side : Side) (paint : Paint) :
    (Script.Edit.ask (side.set paint).call).effect = .style side.property paint := by
  cases side <;> rfl

@[simp] theorem registers?_set (id : String) (side : Side) (paint : Paint) :
    registers? id (side.set paint) = none := by
  cases side <;> rfl

theorem latest?_set (id : String) (side : Side) (paint : Paint) (before after : List StyleCall) :
    latest? id (before ++ side.set paint :: after) =
      (latest? id after).or (latest? id before) := by
  rw [List.append_cons, StyleCall.latest?_append, StyleCall.latest?_concat, registers?_set,
    Option.none_or]

@[simp] theorem paint?_set (side : Side) (paint : Paint) :
    (side.set paint).paint? = some paint := by
  cases side <;> rfl

theorem set_ne {side other : Side} (h : side ≠ other) (paint paint' : Paint) :
    other.set paint ≠ side.set paint' := by
  cases side <;> cases other <;> first | exact absurd rfl h | exact StyleCall.noConfusion

theorem register_ne_set (g : LinearGradient) (side : Side) (paint : Paint) :
    .register g ≠ side.set paint := by
  cases side <;> exact StyleCall.noConfusion

/-- A call registers a gradient or sets a paint. -/
theorem call_cases (c : StyleCall) :
    (∃ g, c = .register g) ∨ ∃ side : Side, ∃ paint, c = side.set paint := by
  cases c with
  | register g => exact .inl ⟨g, rfl⟩
  | setFill paint => exact .inr ⟨.fill, paint, rfl⟩
  | setStroke paint => exact .inr ⟨.stroke, paint, rfl⟩

end Side

def Raster.Styles.painted (t : Styles) (side : Side) : Option Ramp :=
  match side.paint t with
  | .gradient id => (t.gradients[id]?).map LinearGradient.ramp
  | .color _ => none

/-! ## What a call changes -/

theorem Raster.Styles.reply_set (t : Styles) (side : Side) (paint : Paint) :
    t.reply (side.set paint) =
      match t.refusal? paint with
      | some failure => ⟨t, [], some failure⟩
      | none => ⟨side.put paint t, [], none⟩ := by
  cases side with
  | fill =>
    simp only [reply, Side.set, ask, setFill]
    cases t.refusal? paint with
    | none => rfl
    | some failure => rfl
  | stroke =>
    simp only [reply, Side.set, ask, setStroke]
    cases t.refusal? paint with
    | none => rfl
    | some failure => rfl

namespace Pair

theorem run_concat (p : Pair) (calls : List StyleCall) (c : StyleCall) :
    p.run (calls ++ [c]) = (p.run calls).step c := by
  simp only [run, List.foldl_append, List.foldl_cons, List.foldl_nil]

theorem run_append (p : Pair) (before after : List StyleCall) :
    p.run (before ++ after) = (p.run before).run after :=
  List.foldl_append

theorem step_register_script (p : Pair) (g : LinearGradient) :
    (p.step (.register g)).script = (p.script.enact (.define g)).state := rfl

theorem step_set_script (p : Pair) (side : Side) (paint : Paint) :
    (p.step (side.set paint)).script = (p.script.enact (.style side.property paint)).state := by
  show (Script.surface.reply p.script (side.set paint).call).state = _
  rw [Script.reply_eq_enact, side.effect_set]

/-- A paint that is set is refused, or becomes the current one. -/
theorem step_set_raster (p : Pair) (side : Side) (paint : Paint) :
    ((p.raster.reply (side.set paint)).failure ≠ none ∧
        (p.step (side.set paint)).raster = p.raster) ∨
      ((p.raster.reply (side.set paint)).failure = none ∧
        (p.step (side.set paint)).raster = side.put paint p.raster) := by
  rw [step, Styles.reply_set]
  cases p.raster.refusal? paint with
  | none => exact .inr ⟨rfl, rfl⟩
  | some failure => exact .inl ⟨by simp, rfl⟩

/-- A refused call leaves the script as it is, too. -/
theorem Agree.step_refused_script {p : Pair} (h : p.Agree) {c : StyleCall}
    (hr : (p.raster.reply c).failure ≠ none) : (p.step c).script = p.script := by
  rw [← h.failure] at hr
  exact Script.edit_state_of_failure (e := .ask c.call) hr

end Pair

/-! ## What both keep under an id -/

/-- What a script and a raster surface keep of the gradients that `calls` registered. -/
structure Told (calls : List StyleCall) (p : Pair) : Prop where
  agree : p.Agree
  /-- The raster surface has the gradient itself. -/
  held : ∀ id, p.raster.gradients[id]? = latest? id calls
  /-- The script has a constant that holds it. -/
  bound : ∀ id k, p.script.bindings[id]? = some k →
    ∃ g, latest? id calls = some g ∧ p.script.Declares k g.ramp

theorem told_start (receiver : String) (fill stroke : Paint) :
    Told [] (.start receiver fill stroke) := by
  refine ⟨Pair.agree_start receiver fill stroke, ?_, ?_⟩
  · intro id
    simp [Pair.start, Styles.start]
  · intro id k h
    simp [Pair.start, Script.empty] at h

variable {calls : List StyleCall} {p : Pair}

theorem Told.step_register (h : Told calls p) (g : LinearGradient) :
    Told (calls ++ [.register g]) (p.step (.register g)) := by
  refine ⟨h.agree.step _, ?_, ?_⟩
  · intro id
    show (p.raster.gradients.insert g.id g)[id]? = _
    rw [StyleCall.latest?_concat, registers?, Std.TreeMap.getElem?_insert, h.held]
    simp only [Std.LawfulEqOrd.compare_eq_iff_eq]
    split <;> simp
  · intro id k hk
    replace hk : (p.script.define g).bindings[id]? = some k := hk
    rw [Script.define_eq] at hk
    simp only [Std.TreeMap.getElem?_insert, Std.LawfulEqOrd.compare_eq_iff_eq] at hk
    rw [StyleCall.latest?_concat, registers?]
    split at hk
    · -- The id now stands for the new constant.
      rename_i heq
      cases hk
      exact ⟨g, by simp [heq], p.script.declares_define_self g⟩
    · rename_i hne
      obtain ⟨g', hg', hd⟩ := h.bound id k hk
      exact ⟨g', by simp [hne, hg'], hd.define g⟩

theorem Told.step_set (h : Told calls p) (side : Side) (paint : Paint) :
    Told (calls ++ [side.set paint]) (p.step (side.set paint)) := by
  have hlatest : ∀ id, latest? id (calls ++ [side.set paint]) = latest? id calls := by
    intro id
    rw [StyleCall.latest?_concat, Side.registers?_set, Option.none_or]
  refine ⟨h.agree.step _, ?_, ?_⟩
  · intro id
    rw [hlatest, ← h.held]
    rcases p.step_set_raster side paint with ⟨-, hr⟩ | ⟨-, hr⟩
    · rw [hr]
    · rw [hr, Side.gradients_put]
  · intro id k hk
    rw [Pair.step_set_script] at hk ⊢
    rw [Script.bindings_style] at hk
    obtain ⟨g, hg, hd⟩ := h.bound id k hk
    exact ⟨g, (hlatest id).trans hg, hd.style side.property paint⟩

theorem told_run (receiver : String) (fill stroke : Paint) (calls : List StyleCall) :
    Told calls ((Pair.start receiver fill stroke).run calls) := by
  induction calls using List.reverseRecOn with
  | nil => exact told_start receiver fill stroke
  | append_singleton calls c ih =>
    rw [Pair.run_concat]
    rcases Side.call_cases c with ⟨g, rfl⟩ | ⟨side, paint, rfl⟩
    · exact ih.step_register g
    · exact ih.step_set side paint

/-! ## The last setting of a paint -/

/-- A script paints with a gradient that one of its constants holds. -/
def Script.PaintsWith (s : Script) (property : String) (ramp : Ramp) : Prop :=
  ∃ k, s.engine.styles property = some (.raw (gradientName k)) ∧ s.Declares k ramp

theorem Script.PaintsWith.painted {s : Script} {property : String} {ramp : Ramp}
    (h : s.PaintsWith property ramp) : s.engine.painted property = some ramp := by
  obtain ⟨k, hs, hd⟩ := h
  rw [Engine.painted, hs]
  exact hd.2

/-- A script goes on painting with the same gradient until another paint is set. -/
theorem Script.PaintsWith.step {side : Side} {ramp : Ramp} (hp : p.Agree)
    (h : p.script.PaintsWith side.property ramp) {c : StyleCall}
    (hc : ∀ paint, c = side.set paint → (p.raster.reply c).failure ≠ none) :
    (p.step c).script.PaintsWith side.property ramp := by
  obtain ⟨k, hs, hd⟩ := h
  rcases Side.call_cases c with ⟨g, rfl⟩ | ⟨other, paint, rfl⟩
  · rw [Pair.step_register_script]
    refine ⟨k, ?_, hd.define g⟩
    rw [engine_define, Engine.hold_styles, hs]
  · by_cases hside : side = other
    · subst hside
      rw [hp.step_refused_script (hc paint rfl)]
      exact ⟨k, hs, hd⟩
    · rw [Pair.step_set_script]
      refine ⟨k, ?_, hd.style other.property paint⟩
      rw [styles_style_of_ne _ (Side.property_ne hside), hs]

/-- A script has a constant that holds the gradient last registered under an id. -/
theorem Told.exists_bound (h : Told calls p) {id : String} {g : LinearGradient}
    (hg : latest? id calls = some g) :
    ∃ k, p.script.bindings[id]? = some k ∧ p.script.Declares k g.ramp := by
  have hknown : p.raster.knows id = true := by
    rw [Styles.knows, Std.TreeMap.contains_eq_isSome_getElem?, h.held, hg]
    rfl
  rw [← h.agree id, Script.knows_eq, Std.TreeMap.contains_eq_isSome_getElem?,
    Option.isSome_iff_exists] at hknown
  obtain ⟨k, hk⟩ := hknown
  obtain ⟨g', hg', hd⟩ := h.bound id k hk
  obtain rfl : g = g' := Option.some.inj (hg.symm.trans hg')
  exact ⟨k, hk, hd⟩

/-- A gradient paint that is set is, for the script, the gradient its id stands for by then. -/
theorem Told.paintsWith_set (h : Told calls p) (side : Side) {id : String} {g : LinearGradient}
    (hg : latest? id calls = some g) :
    (p.step (side.set (.gradient id))).script.PaintsWith side.property g.ramp := by
  obtain ⟨k, hk, hd⟩ := h.exists_bound hg
  have hvalue : p.script.paintLiteral (.gradient id) = .ok (.raw (Script.gradientName k)) := by
    simp [Script.paintLiteral, Script.resolve, Script.boundName?, hk, Except.map]
  rw [Pair.step_set_script]
  refine ⟨k, ?_, hd.style side.property _⟩
  rw [Script.engine_style _ _ hvalue, Script.Engine.style_styles_self]

/-- In `after`, no call that sets the paint of `side` is accepted. -/
def Unset (p : Pair) (side : Side) (after : List StyleCall) : Prop :=
  ∀ early paint late, after = early ++ side.set paint :: late →
    ((p.run early).raster.reply (side.set paint)).failure ≠ none

theorem unset_nil (p : Pair) (side : Side) : Unset p side [] := by
  intro early paint late h
  simp at h

theorem Unset.concat {side : Side} {after : List StyleCall} (h : Unset p side after)
    {c : StyleCall}
    (hc : ∀ paint, c = side.set paint → ((p.run after).raster.reply c).failure ≠ none) :
    Unset p side (after ++ [c]) := by
  intro early paint late heq
  rcases late.eq_nil_or_concat with rfl | ⟨late, last, rfl⟩
  · obtain ⟨rfl, hlast⟩ := List.append_inj' heq rfl
    obtain rfl : c = side.set paint := by simpa using hlast
    exact hc paint rfl
  · rw [List.concat_eq_append, ← List.cons_append, ← List.append_assoc] at heq
    exact h early paint late (List.append_inj' heq rfl).1

theorem Unset.of_concat {side : Side} {after : List StyleCall} {c : StyleCall}
    (h : Unset p side (after ++ [c])) :
    Unset p side after ∧
      ∀ paint, c = side.set paint → ((p.run after).raster.reply c).failure ≠ none := by
  constructor
  · intro early paint late heq
    exact h early paint (late ++ [c]) (by simp [heq])
  · rintro paint rfl
    exact h after paint [] rfl

/-- While no paint is set, a script paints with the same gradient. -/
theorem Script.PaintsWith.run {side : Side} {ramp : Ramp} (hp : p.Agree)
    (h : p.script.PaintsWith side.property ramp) {after : List StyleCall}
    (hu : Unset p side after) : (p.run after).script.PaintsWith side.property ramp := by
  induction after using List.reverseRecOn with
  | nil => exact h
  | append_singleton after c ih =>
    obtain ⟨hu, hc⟩ := hu.of_concat
    rw [Pair.run_concat]
    exact (ih hu).step (hp.run after) hc

/-- The id of a gradient paint that is accepted was registered. -/
theorem Told.exists_latest (h : Told calls p) {side : Side} {id : String}
    (hf : (p.raster.reply (side.set (.gradient id))).failure = none) :
    ∃ g, latest? id calls = some g := by
  rw [Styles.raster_failure, StyleCall.refusal?, Side.paint?_set] at hf
  have hknown : p.raster.knows id = true := by
    by_contra hne
    simp [hne] at hf
  rw [Styles.knows, Std.TreeMap.contains_eq_isSome_getElem?, h.held] at hknown
  exact Option.isSome_iff_exists.mp hknown

/-- The last accepted setting of the paint of `side` among the calls made to `fresh`: it is to the
    gradient `id`, registered before, and stands between `before` and `after`. -/
structure Setting (fresh : Pair) (side : Side) (id : String)
    (calls before after : List StyleCall) : Prop where
  split : calls = before ++ side.set (.gradient id) :: after
  registered : ∃ g, latest? id before = some g
  unset : Unset (fresh.run (before ++ [side.set (.gradient id)])) side after

/-- A call that does not set the paint leaves its last setting where it is. -/
theorem Setting.concat {fresh : Pair} {side : Side} {id : String} {before after : List StyleCall}
    (h : Setting fresh side id calls before after) {c : StyleCall}
    (hc : ∀ paint, c = side.set paint → ((fresh.run calls).raster.reply c).failure ≠ none) :
    Setting fresh side id (calls ++ [c]) before (after ++ [c]) := by
  obtain ⟨rfl, hg, hu⟩ := h
  refine ⟨by simp, hg, hu.concat ?_⟩
  rw [← Pair.run_append, ← List.append_cons]
  exact hc

/-- A raster surface that started with colours and has a gradient as its paint has it from the
    last setting that was accepted. -/
theorem exists_setting (receiver fill stroke : String) (calls : List StyleCall) (side : Side)
    (id : String) :
    let fresh := Pair.start receiver (.color fill) (.color stroke)
    side.paint (fresh.run calls).raster = .gradient id →
    ∃ before after, Setting fresh side id calls before after := by
  intro fresh h
  induction calls using List.reverseRecOn with
  | nil => cases side <;> cases h
  | append_singleton calls c ih =>
    -- A call that does not set the paint must have found it as it is.
    have hkeep : side.paint (fresh.run calls).raster = .gradient id →
        (∀ paint, c = side.set paint → ((fresh.run calls).raster.reply c).failure ≠ none) →
        ∃ before after, Setting fresh side id (calls ++ [c]) before after := by
      intro hp hc
      obtain ⟨before, after, hset⟩ := ih hp
      exact ⟨before, after ++ [c], hset.concat hc⟩
    rw [Pair.run_concat] at h
    rcases Side.call_cases c with ⟨g, rfl⟩ | ⟨other, paint, rfl⟩
    · refine hkeep ?_ fun paint heq => absurd heq (Side.register_ne_set g side paint)
      rw [← h]
      cases side <;> rfl
    · rcases (fresh.run calls).step_set_raster other paint with ⟨hf, hr⟩ | ⟨hf, hr⟩
      · rw [hr] at h
        exact hkeep h fun _ _ => hf
      · rw [hr] at h
        by_cases hside : side = other
        · subst hside
          rw [Side.paint_put] at h
          subst h
          have hg := (told_run receiver (.color fill) (.color stroke) calls).exists_latest hf
          exact ⟨calls, [], rfl, hg, unset_nil _ _⟩
        · rw [Side.paint_put_of_ne hside] at h
          exact hkeep h fun paint' heq => absurd heq (Side.set_ne hside paint paint')

/-! ## What both paint with -/

/-- The gradients that a script and a raster surface paint with, after any calls that leave a
    gradient as the current paint. The paint was set by some call, accepted, and no later setting
    was. The script paints with the gradient that the id stood for then, the raster surface with
    the one that it stands for now. So they paint the same exactly if the id was not registered
    since, or last as a gradient that looks the same. -/
theorem paints_alike_iff (receiver fill stroke : String) (calls : List StyleCall) (side : Side)
    (id : String) :
    let fresh := Pair.start receiver (.color fill) (.color stroke)
    let p := fresh.run calls
    side.paint p.raster = .gradient id →
    ∃ before after bound, calls = before ++ side.set (.gradient id) :: after ∧
      (∀ early paint late, after = early ++ side.set paint :: late →
        ((fresh.run (before ++ side.set (.gradient id) :: early)).raster.reply
          (side.set paint)).failure ≠ none) ∧
      latest? id before = some bound ∧
      p.script.engine.painted side.property = some bound.ramp ∧
      p.raster.painted side = some ((latest? id after).getD bound).ramp ∧
      (p.script.engine.painted side.property = p.raster.painted side ↔
        ∀ g, latest? id after = some g → g.ramp = bound.ramp) := by
  intro fresh p hp
  obtain ⟨before, after, ⟨rfl, ⟨bound, hbound⟩, hu⟩⟩ :=
    exists_setting receiver fill stroke calls side id hp
  have hrun : ∀ tail, (fresh.run (before ++ [side.set (.gradient id)])).run tail =
      fresh.run (before ++ side.set (.gradient id) :: tail) := by
    intro tail
    rw [← Pair.run_append, List.append_assoc, List.singleton_append]
  have hscript : p.script.engine.painted side.property = some bound.ramp := by
    have hset := (told_run receiver (.color fill) (.color stroke) before).paintsWith_set side hbound
    rw [← Pair.run_concat] at hset
    have hagree : (fresh.run (before ++ [side.set (.gradient id)])).Agree :=
      (told_run receiver (.color fill) (.color stroke) _).agree
    have hlast := hset.run hagree hu
    rw [hrun] at hlast
    exact hlast.painted
  have hraster : p.raster.painted side = some ((latest? id after).getD bound).ramp := by
    rw [Styles.painted, hp]
    show (p.raster.gradients[id]?).map _ = _
    rw [(told_run receiver (.color fill) (.color stroke) _).held, side.latest?_set, hbound]
    cases latest? id after with
    | none => rfl
    | some g => rfl
  refine ⟨before, after, bound, rfl, ?_, hbound, hscript, hraster, ?_⟩
  · intro early paint late heq
    rw [← hrun]
    exact hu early paint late heq
  · rw [hscript, hraster, Option.some.injEq]
    cases latest? id after with
    | none => simp
    | some g => simp [eq_comm]

/-- A gradient is registered, set as the fill and registered again, twice as long: the script
    fills with the first, the raster surface with the second. -/
theorem paints_alike_iff_rebound :
    let short : LinearGradient := ⟨"g", ⟨0, 0⟩, ⟨1, 0⟩, []⟩
    let long : LinearGradient := ⟨"g", ⟨0, 0⟩, ⟨2, 0⟩, []⟩
    let p := (Pair.start "ctx" (.color "#000000") (.color "#000000")).run
      [.register short, .setFill (.gradient "g"), .register long]
    Side.fill.paint p.raster = .gradient "g" ∧
      p.script.engine.painted "fillStyle" = some short.ramp ∧
      p.raster.painted .fill = some long.ramp ∧
      p.script.engine.painted "fillStyle" ≠ p.raster.painted .fill := by
  intro short long p
  have hpaint : Side.fill.paint p.raster = .gradient "g" := by decide +kernel
  obtain ⟨before, after, bound, hsplit, -, hbound, hscript, hraster, -⟩ :=
    paints_alike_iff "ctx" "#000000" "#000000" _ .fill "g" hpaint
  have hparts : before = [.register short] ∧ after = [.register long] := by
    rcases before with _ | ⟨c, _ | ⟨d, _ | ⟨e, rest⟩⟩⟩ <;> simp_all [Side.set]
  obtain ⟨rfl, rfl⟩ := hparts
  obtain rfl : short = bound := Option.some.inj hbound
  refine ⟨hpaint, hscript, hraster, ?_⟩
  rw [show p.script.engine.painted "fillStyle" = _ from hscript, hraster]
  decide +kernel

end SvgDraw
