/-
  SvgDraw.Proofs.Canvas.Journal — what playing actions reports.

  The events of a play are the notes among the actions and what the surface reports of each call.
  `muted` is the surface without its reports; it replies as the surface does otherwise
  (`play_muted`), so its events are the notes alone: those of all actions if no call is refused
  (`events_muted_of_accepted`), and in any case no others (`note_mem_of_events_muted`). Events of a
  kind that the surface does not report are the same with its reports and without
  (`filter_events_of_neverReports`).
-/

import SvgDraw.Proofs.Canvas.Refusal

namespace SvgDraw

def Action.event? : Action → Option Log.Event
  | .note event => some event
  | .perform _ => none

namespace Surface

variable {σ : Type} {surface : Surface σ}

def muted (surface : Surface σ) : Surface σ where
  reply state call := { surface.reply state call with events := [] }

def NeverReports (surface : Surface σ) (p : Log.Event → Bool) : Prop :=
  ∀ state call, ∀ event ∈ (surface.reply state call).events, p event = false

/-- Reporting nothing changes nothing else. -/
theorem play_muted (surface : Surface σ) (actions : List Action) (state : σ) :
    (surface.muted.play actions state).state = (surface.play actions state).state ∧
      (surface.muted.play actions state).failure = (surface.play actions state).failure := by
  induction actions generalizing state with
  | nil => exact ⟨rfl, rfl⟩
  | cons action actions ih =>
    cases action with
    | note event => exact ih state
    | perform call =>
      simp only [play, muted]
      cases hr : (surface.reply state call).failure with
      | some failure => exact ⟨rfl, hr.symm⟩
      | none => exact ih (surface.reply state call).state

/-- Actions after others are carried out if no call among those is refused. -/
theorem play_append (surface : Surface σ) (as bs : List Action) (state : σ) :
    surface.play (as ++ bs) state =
      match (surface.play as state).failure with
      | some _ => surface.play as state
      | none =>
        (surface.play bs (surface.play as state).state).after (surface.play as state).events := by
  induction as generalizing state with
  | nil => rfl
  | cons action as ih =>
    cases action with
    | note event =>
      simp only [List.cons_append, play, ih]
      cases hr : (surface.play as state).failure with
      | some failure => simp [Reply.after, hr]
      | none => simp [Reply.after, hr]
    | perform call =>
      simp only [List.cons_append, play]
      cases hr : (surface.reply state call).failure with
      | some failure => simp [hr]
      | none =>
        simp only [ih]
        cases hs : (surface.play as (surface.reply state call).state).failure with
        | some failure => simp [Reply.after, hs]
        | none => simp [Reply.after, hs]

/-- Without its reports, what a surface leaves to be reported is noted by the actions. -/
theorem note_mem_of_events_muted {actions : List Action} {state : σ} {event : Log.Event}
    (h : event ∈ (surface.muted.play actions state).events) : .note event ∈ actions := by
  induction actions generalizing state with
  | nil => cases h
  | cons action actions ih =>
    cases action with
    | note first =>
      rcases List.mem_cons.mp h with rfl | h
      · exact List.mem_cons_self
      · exact List.mem_cons_of_mem _ (ih h)
    | perform call =>
      refine List.mem_cons_of_mem _ ?_
      simp only [play, muted] at h
      cases hr : (surface.reply state call).failure with
      | some failure => simp [hr] at h
      | none =>
        simp only [hr, Reply.after, List.nil_append] at h
        exact ih h

/-- If no call is refused, all notes are reported. -/
theorem events_muted_of_accepted {actions : List Action} {state : σ}
    (h : (surface.play actions state).failure = none) :
    (surface.muted.play actions state).events = actions.filterMap Action.event? := by
  induction actions generalizing state with
  | nil => rfl
  | cons action actions ih =>
    cases action with
    | note event => exact congrArg (event :: ·) (ih h)
    | perform call =>
      simp only [play] at h
      simp only [play, muted, List.filterMap_cons, Action.event?]
      cases hr : (surface.reply state call).failure with
      | some failure => simp [hr] at h
      | none =>
        rw [hr] at h
        exact ih h

/-- Events that the surface does not report are reported by the actions. -/
theorem filter_events_of_neverReports {p : Log.Event → Bool} (h : surface.NeverReports p)
    (actions : List Action) (state : σ) :
    (surface.play actions state).events.filter p =
      (surface.muted.play actions state).events.filter p := by
  have hnone : ∀ state call, (surface.reply state call).events.filter p = [] := by
    intro state call
    exact List.filter_eq_nil_iff.mpr fun event he => by simp [h state call event he]
  induction actions generalizing state with
  | nil => rfl
  | cons action actions ih =>
    cases action with
    | note event => simp only [play, Reply.after, List.filter_append, ih]
    | perform call =>
      simp only [play, muted]
      cases hr : (surface.reply state call).failure with
      | some failure => exact hnone state call
      | none =>
        simp only [Reply.after, List.filter_append, hnone, List.nil_append, ih]
        rfl

end Surface

end SvgDraw
