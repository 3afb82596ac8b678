/-
  SvgDraw.Proofs.Raster.Resolvable — the paints of a raster surface can always be used.

  A call about paints registers a gradient, sets a paint, or is refused and changes nothing
  (`reply_cases`). A paint is set only if its gradient is registered, and a gradient stays
  registered, though not as the same one: so if the paints can be resolved, they can be after any
  call (`Resolvable.reply`). A surface starts with colours, hence never meets an unknown gradient
  when it fills or strokes (`paints_stay_resolvable`).
-/

import SvgDraw.Raster.Styles
import SvgDraw.Proofs.Raster.Rebinding

namespace SvgDraw.Raster.Styles

open StyleCall (latest?)

variable {t : Styles}

def run (t : Styles) (calls : List StyleCall) : Styles :=
  calls.foldl (fun t c => (t.reply c).state) t

/-! ## What a call changes -/

theorem refusal?_gradient (t : Styles) (id : String) :
    t.refusal? (.gradient id) =
      match t.gradients[id]? with
      | some _ => none
      | none => some (.unknownGradient id) := by
  rw [refusal?, Std.TreeMap.contains_eq_isSome_getElem?]
  cases t.gradients[id]? with
  | some g => rfl
  | none => rfl

/-- The gradient of the paint is registered, if it is one. -/
def Registered (t : Styles) (paint : Paint) : Prop :=
  ∀ id, paint = .gradient id → ∃ g, t.gradients[id]? = some g

/-- A call registers a gradient, sets a paint that can be used, or is refused since the gradient
    of its paint is not registered. -/
theorem reply_cases (t : Styles) (c : StyleCall) :
    (∃ g, c = .register g ∧ t.reply c = ⟨t.register g, [], none⟩) ∨
      (∃ side paint, c = Side.set side paint ∧ t.Registered paint ∧
        t.reply c = ⟨side.put paint t, [], none⟩) ∨
      ∃ side id, c = Side.set side (.gradient id) ∧ t.gradients[id]? = none ∧
        t.reply c = ⟨t, [], some (.unknownGradient id)⟩ := by
  rcases Side.call_cases c with ⟨g, rfl⟩ | ⟨side, paint, rfl⟩
  · exact .inl ⟨g, rfl, rfl⟩
  · right
    rw [reply_set]
    cases paint with
    | color text =>
      left
      exact ⟨side, .color text, rfl, fun _ h => (nomatch h), rfl⟩
    | gradient id =>
      rw [refusal?_gradient]
      cases hg : t.gradients[id]? with
      | some g =>
        left
        refine ⟨side, .gradient id, rfl, ?_, rfl⟩
        rintro _ ⟨⟩
        exact ⟨g, hg⟩
      | none =>
        right
        exact ⟨side, id, rfl, hg, rfl⟩

theorem getElem?_register (t : Styles) (g : LinearGradient) (id : String) :
    (t.register g).gradients[id]? = if g.id = id then some g else t.gradients[id]? := by
  show (t.gradients.insert g.id g)[id]? = _
  simp only [Std.TreeMap.getElem?_insert, Std.LawfulEqOrd.compare_eq_iff_eq]

/-- What an accepted call changes: the paint it sets, or the entry of the id it registers. -/
def Carried (t next : Styles) : StyleCall → Prop
  | .setFill paint => next.fill = paint ∧ next.stroke = t.stroke ∧ next.gradients = t.gradients
  | .setStroke paint => next.stroke = paint ∧ next.fill = t.fill ∧ next.gradients = t.gradients
  | .register g =>
    next.fill = t.fill ∧ next.stroke = t.stroke ∧
      ∀ id, next.gradients[id]? = if g.id = id then some g else t.gradients[id]?

theorem carried_put (t : Styles) (side : Side) (paint : Paint) :
    Carried t (side.put paint t) (side.set paint) := by
  cases side with
  | fill => exact ⟨rfl, rfl, rfl⟩
  | stroke => exact ⟨rfl, rfl, rfl⟩

/-! ## The paints -/

def Resolvable (t : Styles) : Prop :=
  ∀ side, t.Registered (Side.paint side t)

theorem resolvable_start (fill stroke : String) :
    (start (.color fill) (.color stroke)).Resolvable := by
  rintro (_ | _) id h
  · cases h
  · cases h

/-- A gradient stays registered, as itself or as another one. -/
theorem Registered.register {paint : Paint} (h : t.Registered paint) (g : LinearGradient) :
    (t.register g).Registered paint := by
  intro id hid
  rw [getElem?_register]
  by_cases hsame : g.id = id
  · exact ⟨g, if_pos hsame⟩
  · rw [if_neg hsame]
    exact h id hid

theorem Resolvable.put (h : t.Resolvable) {side : Side} {paint : Paint} (hp : t.Registered paint) :
    (side.put paint t).Resolvable := by
  intro other id hid
  rw [Side.gradients_put]
  by_cases hsame : other = side
  · subst hsame
    rw [Side.paint_put] at hid
    exact hp id hid
  · rw [Side.paint_put_of_ne hsame] at hid
    exact h other id hid

/-- One call keeps the paints resolvable, whether or not it is refused. -/
theorem Resolvable.reply (h : t.Resolvable) (c : StyleCall) : (t.reply c).state.Resolvable := by
  rcases t.reply_cases c with ⟨g, -, hr⟩ | ⟨side, paint, -, hp, hr⟩ | ⟨side, id, -, -, hr⟩
  · rw [hr]
    intro side
    have hside : Side.paint side (t.register g) = Side.paint side t := by
      cases side <;> rfl
    rw [hside]
    exact (h side).register g
  · rw [hr]
    exact h.put hp
  · rw [hr]
    exact h

theorem Resolvable.run (h : t.Resolvable) (calls : List StyleCall) : (t.run calls).Resolvable := by
  induction calls generalizing t with
  | nil => exact h
  | cons c calls ih => exact ih (h.reply c)

/-- What can be resolved has a source. -/
theorem Registered.source {paint : Paint} (h : t.Registered paint) :
    ∃ source, t.source paint = .ok source := by
  cases paint with
  | color text => exact ⟨_, rfl⟩
  | gradient id =>
    obtain ⟨g, hg⟩ := h id rfl
    exact ⟨.ofGradient g, by rw [Styles.source, hg]⟩

/-! ## The gradients -/

/-- A raster surface by itself goes as it does beside a script. -/
theorem run_eq_raster (p : Pair) (calls : List StyleCall) :
    (p.run calls).raster = p.raster.run calls := by
  induction calls generalizing p with
  | nil => rfl
  | cons c calls ih => exact ih (p.step c)

theorem getElem?_run (fill stroke : Paint) (calls : List StyleCall) (id : String) :
    ((start fill stroke).run calls).gradients[id]? = latest? id calls := by
  have htold := (told_run "" fill stroke calls).held id
  rw [run_eq_raster] at htold
  exact htold

/-! ## All runs -/

/-- After any calls to a surface that starts with colours and without gradients, refused calls
    included: a gradient that is a current paint is registered, so filling and stroking find what
    to paint with; under each id stands the gradient last registered with it; a call is refused
    exactly if it sets a gradient paint whose id is not registered, and then nothing changes; and a
    call that is accepted changes only the paint that it sets or the entry of its id. -/
theorem paints_stay_resolvable (fill stroke : String) (calls : List StyleCall) :
    let t := (start (.color fill) (.color stroke)).run calls
    (∀ side id, Side.paint side t = .gradient id →
      ∃ g, t.gradients[id]? = some g ∧ t.source (.gradient id) = .ok (.ofGradient g)) ∧
    (∀ side, ∃ source, t.source (Side.paint side t) = .ok source) ∧
    (∀ id, t.gradients[id]? = latest? id calls) ∧
    ∀ c, ((t.reply c).failure ≠ none ↔
        ∃ id, c.paint? = some (.gradient id) ∧ t.gradients[id]? = none) ∧
      ((t.reply c).failure ≠ none → (t.reply c).state = t) ∧
      ((t.reply c).failure = none → Carried t (t.reply c).state c) := by
  intro t
  have hresolvable : t.Resolvable := (resolvable_start fill stroke).run calls
  refine ⟨?_, fun side => (hresolvable side).source, getElem?_run _ _ calls, fun c => ?_⟩
  · intro side id hid
    obtain ⟨g, hg⟩ := hresolvable side id hid
    exact ⟨g, hg, by rw [Styles.source, hg]⟩
  · rcases t.reply_cases c with
      ⟨g, rfl, hr⟩ | ⟨side, paint, rfl, hp, hr⟩ | ⟨side, id, rfl, hnone, hr⟩
    · rw [hr]
      refine ⟨by simp [StyleCall.paint?], fun h => absurd rfl h, fun _ => ?_⟩
      exact ⟨rfl, rfl, getElem?_register t g⟩
    · rw [hr, Side.paint?_set]
      refine ⟨⟨fun h => absurd rfl h, ?_⟩, fun h => absurd rfl h, fun _ => carried_put t side paint⟩
      rintro ⟨id, hid, hnone⟩
      obtain ⟨g, hg⟩ := hp id (Option.some.inj hid)
      rw [hg] at hnone
      cases hnone
    · rw [hr, Side.paint?_set]
      exact ⟨⟨fun _ => ⟨id, rfl, hnone⟩, by simp⟩, fun _ => rfl, by simp⟩

/-- The fill is a gradient, a stroke is refused, and the gradient of the fill is replaced: what is
    filled with is the later gradient, and the stroke would be refused again. -/
theorem paints_stay_resolvable_replaced :
    let short : LinearGradient := ⟨"g", ⟨0, 0⟩, ⟨1, 0⟩, []⟩
    let long : LinearGradient := ⟨"g", ⟨0, 0⟩, ⟨2, 0⟩, []⟩
    let t := (start (.color "#000000") (.color "#000000")).run
      [.register short, .setFill (.gradient "g"), .setStroke (.gradient "h"), .register long]
    Side.paint .fill t = .gradient "g" ∧ t.source (.gradient "g") = .ok (.ofGradient long) ∧
      Side.paint .stroke t = .color "#000000" ∧
      (t.reply (.setStroke (.gradient "h"))).failure ≠ none := by
  intro short long t
  have hfill : Side.paint .fill t = .gradient "g" := by decide +kernel
  have hstroke : Side.paint .stroke t = .color "#000000" := by decide +kernel
  obtain ⟨hsource, -, hlatest, hreply⟩ := paints_stay_resolvable "#000000" "#000000"
    [.register short, .setFill (.gradient "g"), .setStroke (.gradient "h"), .register long]
  obtain ⟨g, hg, hs⟩ := hsource .fill "g" hfill
  have hlong : long = g := Option.some.inj ((hlatest "g").symm.trans hg)
  refine ⟨hfill, hlong ▸ hs, hstroke, ?_⟩
  exact (hreply (.setStroke (.gradient "h"))).1.mpr ⟨"h", rfl, hlatest "h"⟩

end SvgDraw.Raster.Styles
