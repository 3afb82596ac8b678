/-
  SvgDraw.Proofs.Document.Refusal — renderings that a surface breaks off.

  Every call site of a rendering hands a refusal on: each part of the two passes propagates
  (`Gradients.visit_propagates`, `Drawing.visit_propagates`), beside the handler that takes other
  failures of a path and goes on. So a rendering makes its calls up to the first that is refused,
  and ends with that refusal or else as it ends by itself (`callsFor_eq_asked`, `replyTo_outcome`):
  a refusal is never taken for a path that can be skipped, and nothing is done after it
  (`render_of_refusesAt`).
-/

import SvgDraw.Document.Render
import SvgDraw.Proofs.Canvas.Walk

namespace SvgDraw.Document

open Walk (propagates_ask propagates_note propagates_pure)

variable {σ τ : Type}

/-! ## The first pass -/

theorem attributesOf_propagates (tag : Markup.Tag) : (attributesOf tag).Propagates :=
  Walk.propagates_ofExcept _

theorem stopOffset_propagates (attrs : Attributes) : (stopOffset attrs).Propagates := by
  unfold stopOffset
  split
  · exact .done _
  · split
    · exact .done _
    · exact (propagates_note _).bind fun _ => propagates_pure _

namespace Gradients

theorem addStop_propagates (s : Gradients) (attrs : Attributes) :
    (s.addStop attrs).Propagates := by
  unfold addStop
  split
  · exact (propagates_note _).bind fun _ => propagates_pure _
  · exact (stopOffset_propagates attrs).bind fun _ => propagates_pure _

theorem finish_propagates (s : Gradients) : s.finish.Propagates := by
  unfold finish
  split
  · exact .done _
  · exact (propagates_ask _).bind fun _ => propagates_pure _

theorem meet_propagates (s : Gradients) (tag : Markup.Tag) (whole : Bool) :
    (s.meet tag whole).Propagates := by
  have hbegin : (s.begin tag).Propagates :=
    (attributesOf_propagates tag).bind fun _ => propagates_pure _
  unfold meet
  split
  · refine hbegin.bind fun begun => ?_
    cases whole with
    | true => exact begun.finish_propagates
    | false => exact propagates_pure begun
  · exact (attributesOf_propagates tag).bind s.addStop_propagates
  · exact .done s

theorem visit_propagates (s : Gradients) (event : Markup.Event) : (s.visit event).Propagates := by
  cases event with
  | start tag => exact s.meet_propagates tag false
  | empty tag => exact s.meet_propagates tag true
  | finish name =>
    simp only [visit]
    split
    · exact s.finish_propagates
    · exact .done s

end Gradients

/-! ## The second pass -/

theorem askFill_propagates (fill : Option Paint) : (askFill fill).Propagates := by
  cases fill with
  | none => exact .done ()
  | some paint => exact propagates_ask _

theorem setSide_propagates (name value : String) (set : Float → Drawing) (s : Drawing)
    (sized : Bool) : (setSide name value set s sized).Propagates := by
  unfold setSide
  split
  · exact .done _
  · exact (propagates_note _).bind fun _ => propagates_pure _

theorem takeSide_propagates (sized : Drawing × Bool) (attr : String × String) :
    (takeSide sized attr).Propagates := by
  simp only [takeSide]
  split
  · exact setSide_propagates ..
  · exact setSide_propagates ..
  · exact .done _

/-- The calls of a path are made one after the other, and the first refusal ends them. -/
theorem drawPath_propagates (operations : List Operation) (fill : Option Paint) :
    (drawPath operations fill).Propagates := by
  refine (propagates_ask _).bind fun _ => ?_
  refine (Walk.propagates_apply operations).bind fun _ => ?_
  refine (askFill_propagates fill).bind fun _ => ?_
  exact (propagates_ask _).bind fun _ => propagates_ask _

namespace Drawing

variable (options : Options) (ids : List String)

theorem root_propagates (s : Drawing) (attrs : Attributes) : (s.root ids attrs).Propagates := by
  have hfill : ∀ t : Drawing, (do
      askFill (← Walk.ofExcept (fillPaint ids attrs))
      return t : Walk Drawing).Propagates := by
    intro t
    refine (Walk.propagates_ofExcept _).bind fun fill => ?_
    exact (askFill_propagates fill).bind fun _ => propagates_pure t
  refine (Walk.propagates_foldlM takeSide_propagates attrs _).bind fun (t, sized) => ?_
  cases sized with
  | true => exact (propagates_ask _).bind fun _ => hfill t
  | false => exact hfill t

/-- Skipping a path takes the failures of its data and its fill, and no refusal: those come up
    where the path is drawn, after the handler. -/
theorem path_propagates (s : Drawing) (attrs : Attributes) :
    (s.path options ids attrs).Propagates := by
  refine (Walk.propagates_noteAll _).bind fun _ => ?_
  split
  · exact (drawPath_propagates _ _).bind fun _ => propagates_pure _
  · split
    · exact (propagates_note _).bind fun _ => propagates_pure _
    · exact .fail _

theorem meet_propagates (s : Drawing) (tag : Markup.Tag) (whole : Bool) :
    (s.meet options ids tag whole).Propagates := by
  have hattrs := attributesOf_propagates tag
  unfold meet
  split
  · exact hattrs.bind (root_propagates ids s)
  · exact .done _
  · split
    · exact (propagates_note _).bind fun _ => propagates_pure s
    · exact hattrs.bind (path_propagates options ids s)
  · exact (propagates_note _).bind fun _ => propagates_pure s

theorem visit_propagates (s : Drawing) (event : Markup.Event) :
    (s.visit options ids event).Propagates := by
  cases event with
  | start tag => exact meet_propagates options ids s tag false
  | empty tag => exact meet_propagates options ids s tag true
  | finish name => exact .done _

end Drawing

/-! ## Renderings -/

theorem pass_propagates {visit : τ → Markup.Event → Walk τ}
    (h : ∀ t event, (visit t event).Propagates) (reading : Markup.Reading) (start : τ) :
    (pass visit reading start).Propagates := by
  refine (Walk.propagates_foldlM h reading.events start).bind fun last => ?_
  split
  · exact .fail _
  · exact propagates_pure last

theorem gradientPass_propagates (reading : Markup.Reading) : (gradientPass reading).Propagates :=
  pass_propagates Gradients.visit_propagates reading _

theorem drawingPass_propagates (options : Options) (ids : List String) (reading : Markup.Reading) :
    (drawingPass options ids reading).Propagates :=
  pass_propagates (Drawing.visit_propagates options ids) reading _

theorem renderReading_propagates (options : Options) (reading : Markup.Reading) :
    (renderReading options reading).Propagates := by
  refine (gradientPass_propagates reading).bind fun gradients => ?_
  refine (drawingPass_propagates options gradients.ids reading).bind fun drawing => ?_
  exact propagates_note _

/-- A pass that gets to the end has met no error of the markup. -/
theorem failure_of_pass_ok {visit : τ → Markup.Event → Walk τ} {reading : Markup.Reading}
    {start last : τ} (h : (pass visit reading start).result = .ok last) :
    reading.failure = none := by
  obtain ⟨t, -, hend⟩ := Walk.result_bind_eq_ok h
  cases hr : reading.failure with
  | none => rfl
  | some error =>
    rw [hr] at hend
    cases hend

/-- The calls that rendering a reading makes on a surface, a refused one included. -/
def callsFor (surface : Surface σ) (options : Options) (reading : Markup.Reading) (state : σ) :
    List Call :=
  (replyTo surface.traced options reading (state, [])).state.2

theorem callsFor_eq_asked (surface : Surface σ) (options : Options) (reading : Markup.Reading)
    (state : σ) :
    callsFor surface options reading state =
      surface.asked state (renderReading options reading).calls :=
  (renderReading_propagates options reading).runOn_traced surface state []

theorem replyTo_outcome (surface : Surface σ) (options : Options) (reading : Markup.Reading)
    (state : σ) :
    (replyTo surface options reading state).state =
        surface.after state (callsFor surface options reading state) ∧
      (replyTo surface options reading state).failure =
        (surface.refusal state (renderReading options reading).calls).or
          (renderReading options reading).failure? := by
  rw [callsFor_eq_asked]
  exact (renderReading_propagates options reading).runOn_outcome surface state

/-- A rendering that does not fail has made all its calls. -/
theorem callsFor_of_ok {surface : Surface σ} {options : Options} {reading : Markup.Reading}
    {state : σ} (h : (replyTo surface options reading state).failure = none) :
    callsFor surface options reading state = (renderReading options reading).calls := by
  rw [(replyTo_outcome surface options reading state).2, Option.or_eq_none_iff] at h
  rw [callsFor_eq_asked, Surface.asked_of_refusal_eq_none h.1]

theorem callsFor_of_accepting {surface : Surface σ} (h : surface.Accepting) (options : Options)
    (reading : Markup.Reading) (state : σ) :
    callsFor surface options reading state = (renderReading options reading).calls :=
  (renderReading_propagates options reading).runOn_traced_of_accepting h state []

theorem failure_of_accepting {surface : Surface σ} (h : surface.Accepting) (options : Options)
    (reading : Markup.Reading) (state : σ) :
    (replyTo surface options reading state).failure = (renderReading options reading).failure? :=
  (renderReading_propagates options reading).runOn_failure_of_accepting h state

/-- Where a surface refuses call number `n` of those that a rendering makes on a surface that
    refuses nothing, the rendering makes the calls up to that one and ends with the refusal, in
    the state that the refused call leaves. If there are not that many calls, it goes as on the
    surface that refuses nothing. -/
theorem render_of_refusesAt {accepting : Surface τ} (accepts : accepting.Accepting)
    (surface : Surface σ) (options : Options) (reading : Markup.Reading) (start : τ) (state : σ)
    (n : Nat) (failure : Failure)
    (h : surface.RefusesAt state (callsFor accepting options reading start) n failure) :
    let calls := callsFor accepting options reading start
    let reply := replyTo surface options reading state
    (n < calls.length →
      callsFor surface options reading state = calls.take (n + 1) ∧
        reply.failure = some failure ∧
        reply.state = surface.after state (calls.take (n + 1))) ∧
    (calls.length ≤ n →
      callsFor surface options reading state = calls ∧
        reply.failure = (replyTo accepting options reading start).failure ∧
        reply.state = surface.after state calls) := by
  intro calls reply
  have hcalls : calls = (renderReading options reading).calls := callsFor_of_accepting accepts ..
  have hasked : callsFor surface options reading state = calls.take (n + 1) := by
    rw [callsFor_eq_asked, ← hcalls]
    exact Surface.asked_of_refusesAt h
  have hrefusal := Surface.refusal_of_refusesAt h
  obtain ⟨hstate, hfailure⟩ : reply.state = _ ∧ reply.failure = _ :=
    replyTo_outcome surface options reading state
  rw [hasked] at hstate
  rw [← hcalls, hrefusal] at hfailure
  constructor
  · intro hn
    rw [if_pos hn] at hfailure
    exact ⟨hasked, hfailure, hstate⟩
  · intro hn
    have hall : calls.take (n + 1) = calls := List.take_of_length_le (by omega)
    rw [hall] at hasked hstate
    rw [if_neg (Nat.not_lt.mpr hn)] at hfailure
    exact ⟨hasked, hfailure.trans (failure_of_accepting accepts ..).symm, hstate⟩

/-- A document with a path that cannot be read and one that can be drawn. -/
def onePath : String :=
  "<svg><path d='Q'/><path d='z' fill='red'/></svg>"

theorem render_of_refusesAt_onePath :
    acceptingRecorder.Accepting ∧
      (refusingRecorder 2 (.unknownGradient "g")).RefusesAt #[]
        (callsFor acceptingRecorder ⟨true⟩ (Markup.read onePath) #[]) 2 (.unknownGradient "g") ∧
      callsFor (refusingRecorder 2 (.unknownGradient "g")) ⟨true⟩ (Markup.read onePath) #[] =
        [.beginPath, .setFill (.color "red"), .fill] ∧
      (replyTo (refusingRecorder 2 (.unknownGradient "g")) ⟨true⟩ (Markup.read onePath) #[]).failure =
        some (.unknownGradient "g") := by
  have accepts : acceptingRecorder.Accepting := fun _ _ => rfl
  have hat := refusingRecorder_refusesAt 2 (.unknownGradient "g")
    (callsFor acceptingRecorder ⟨true⟩ (Markup.read onePath) #[])
  have hcalls : callsFor acceptingRecorder ⟨true⟩ (Markup.read onePath) #[] =
      [.beginPath, .setFill (.color "red"), .fill, .closePath] := by
    decide +kernel
  have hstops := (render_of_refusesAt accepts (refusingRecorder 2 (.unknownGradient "g")) ⟨true⟩
    (Markup.read onePath) #[] #[] 2 (.unknownGradient "g") hat).1
  rw [hcalls] at hstops
  obtain ⟨hmade, hfailure, -⟩ := hstops (by decide)
  exact ⟨accepts, hat, hmade, hfailure⟩

end SvgDraw.Document
