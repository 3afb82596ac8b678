/-
  SvgDraw.Proofs.Canvas.Walk — what walks come to, and how they are carried out.

  While no call is refused a walk goes one way: `actions` is what it reports and asks along it,
  and `result` what it comes to. `Comes w calls result` says which calls these are and what the
  walk comes to; what it reports is left out. Walks that follow each other add their calls up
  (`Comes.bind`), and a failure ends them (`Comes.bind_error`).

  What a walk does with a refusal is another matter. `Propagates` says that it fails as the
  surface does wherever it makes a call, and holds of walks that are made of others if it holds of
  those (`Propagates.bind`, `propagates_foldlM`). Such a walk plays its actions up to the first
  call that is refused and ends with that refusal, or else as it ends by itself
  (`Propagates.runOn_eq`), so the calls it makes and its end are told by its calls alone
  (`Propagates.runOn_traced`, `Propagates.runOn_outcome`).
-/

import SvgDraw.Canvas.Walk
import SvgDraw.Proofs.Canvas.Refusal

namespace SvgDraw.Walk

variable {α β σ : Type} {w : Walk α} {f : α → Walk β} {cs ds : List Call}

@[simp] theorem done_bind (a : α) (f : α → Walk β) : Walk.done a >>= f = f a := rfl

@[simp] theorem fail_bind (failure : Failure) (f : α → Walk β) :
    Walk.fail failure >>= f = .fail failure := rfl

@[simp] theorem report_bind (event : Log.Event) (w : Walk α) (f : α → Walk β) :
    Walk.report event w >>= f = .report event (w >>= f) := rfl

@[simp] theorem attempt_bind (call : Call) (next : Option Failure → Walk α) (f : α → Walk β) :
    Walk.attempt call next >>= f = .attempt call fun refusal => next refusal >>= f := rfl

instance : LawfulMonad Walk := by
  refine LawfulMonad.mk' Walk ?_ ?_ ?_
  · intro α w
    show w >>= (done ∘ id) = w
    induction w with
    | done a => rfl
    | fail failure => rfl
    | report event next ih => rw [report_bind, ih]
    | attempt call next ih => simp only [attempt_bind, ih]
  · intro α β a f
    rfl
  · intro α β γ w f g
    induction w with
    | done a => rfl
    | fail failure => rfl
    | report event next ih => simp only [report_bind, ih]
    | attempt call next ih => simp only [attempt_bind, ih]

/-! ## The way without a refusal -/

/-- What the walk does while nothing is refused. -/
def actions : Walk α → List Action
  | .done _ => []
  | .fail _ => []
  | .report event next => .note event :: next.actions
  | .attempt call next => .perform call :: (next none).actions

def result : Walk α → Except Failure α
  | .done a => .ok a
  | .fail failure => .error failure
  | .report _ next => next.result
  | .attempt _ next => (next none).result

def calls (w : Walk α) : List Call := w.actions.filterMap Action.call?

def failure? (w : Walk α) : Option Failure :=
  match w.result with
  | .error failure => some failure
  | .ok _ => none

theorem bind_of_ok {a : α} (h : w.result = .ok a) :
    (w >>= f).actions = w.actions ++ (f a).actions ∧ (w >>= f).result = (f a).result := by
  induction w with
  | done b =>
    cases h
    exact ⟨rfl, rfl⟩
  | fail failure => cases h
  | report event next ih =>
    obtain ⟨hactions, hresult⟩ := ih h
    exact ⟨congrArg (Action.note event :: ·) hactions, hresult⟩
  | attempt call next ih =>
    obtain ⟨hactions, hresult⟩ := ih none h
    exact ⟨congrArg (Action.perform call :: ·) hactions, hresult⟩

theorem bind_of_error {failure : Failure} (h : w.result = .error failure) :
    (w >>= f).actions = w.actions ∧ (w >>= f).result = .error failure := by
  induction w with
  | done a => cases h
  | fail other =>
    cases h
    exact ⟨rfl, rfl⟩
  | report event next ih =>
    obtain ⟨hactions, hresult⟩ := ih h
    exact ⟨congrArg (Action.note event :: ·) hactions, hresult⟩
  | attempt call next ih =>
    obtain ⟨hactions, hresult⟩ := ih none h
    exact ⟨congrArg (Action.perform call :: ·) hactions, hresult⟩

/-- What comes to a value has got past its first part. -/
theorem result_bind_eq_ok {b : β} (h : (w >>= f).result = .ok b) :
    ∃ a, w.result = .ok a ∧ (f a).result = .ok b := by
  cases hr : w.result with
  | error failure =>
    rw [(bind_of_error hr).2] at h
    cases h
  | ok a =>
    rw [(bind_of_ok hr).2] at h
    exact ⟨a, rfl, h⟩

theorem actions_noteAll (events : List Log.Event) :
    (noteAll events).actions = events.map .note := by
  induction events with
  | nil => rfl
  | cons event events ih => exact congrArg (Action.note event :: ·) ih

/-! ## Calls and results -/

/-- The walk makes these calls and comes to this, if nothing is refused. -/
structure Comes (w : Walk α) (cs : List Call) (result : Except Failure α) : Prop where
  calls_eq : w.calls = cs
  result_eq : w.result = result

theorem comes_self (w : Walk α) : Comes w w.calls w.result := ⟨rfl, rfl⟩

theorem comes_pure (a : α) : Comes (pure a) [] (.ok a) := ⟨rfl, rfl⟩

theorem comes_done (a : α) : Comes (done a) [] (.ok a) := ⟨rfl, rfl⟩

theorem comes_note (event : Log.Event) : Comes (note event) [] (.ok ()) := ⟨rfl, rfl⟩

theorem comes_noteAll (events : List Log.Event) : Comes (noteAll events) [] (.ok ()) := by
  induction events with
  | nil => exact comes_done ()
  | cons event events ih => exact ⟨ih.calls_eq, ih.result_eq⟩

theorem comes_ask (call : Call) : Comes (ask call) [call] (.ok ()) := ⟨rfl, rfl⟩

theorem comes_fail (failure : Failure) : Comes (fail failure : Walk α) [] (.error failure) :=
  ⟨rfl, rfl⟩

theorem comes_ofExcept (result : Except Failure α) : Comes (ofExcept result) [] result := by
  cases result with
  | error failure => exact comes_fail failure
  | ok a => exact comes_done a

theorem Comes.bind {a : α} {result : Except Failure β} (hw : Comes w cs (.ok a))
    (hf : Comes (f a) ds result) : Comes (w >>= f) (cs ++ ds) result := by
  obtain ⟨hactions, hresult⟩ := bind_of_ok (f := f) hw.result_eq
  refine ⟨?_, hresult.trans hf.result_eq⟩
  rw [calls, hactions, List.filterMap_append, ← hw.calls_eq, ← hf.calls_eq]
  rfl

theorem Comes.bind_error {failure : Failure} (hw : Comes w cs (.error failure)) :
    Comes (w >>= f) cs (.error failure) := by
  obtain ⟨hactions, hresult⟩ := bind_of_error (f := f) hw.result_eq
  refine ⟨?_, hresult⟩
  rw [calls, hactions]
  exact hw.calls_eq

/-- What makes no call adds none. -/
theorem calls_bind_of_quiet (h : ∀ a, (f a).calls = []) : (w >>= f).calls = w.calls := by
  have hw := comes_self w
  cases hr : w.result with
  | error failure =>
    rw [hr] at hw
    exact hw.bind_error.calls_eq
  | ok a =>
    rw [hr] at hw
    rw [(hw.bind (comes_self (f a))).calls_eq, h a, List.append_nil]

/-- A walk that only reports changes nothing of what follows it. -/
theorem Comes.bind_quiet {a : α} {result : Except Failure β} (hw : Comes w [] (.ok a))
    (hf : Comes (f a) ds result) : Comes (w >>= f) ds result :=
  hw.bind hf

theorem Comes.bind_pure {a : α} {g : α → β} (hw : Comes w cs (.ok a)) :
    Comes (w >>= fun x => pure (g x)) cs (.ok (g a)) := by
  simpa using hw.bind (f := fun x => pure (g x)) (comes_pure (g a))

/-- Walks that make the same calls and come to the same stay so with what follows them. -/
theorem Comes.bind_of_ok {v : Walk α} {g : α → Walk β} (hw : Comes w v.calls v.result)
    (hf : ∀ a, v.result = .ok a → Comes (f a) (g a).calls (g a).result) :
    Comes (w >>= f) (v >>= g).calls (v >>= g).result := by
  have hv := comes_self v
  cases hr : v.result with
  | error failure =>
    rw [hr] at hw hv
    have hend : Comes (v >>= g) v.calls (.error failure) := hv.bind_error
    rw [hend.calls_eq, hend.result_eq]
    exact hw.bind_error
  | ok a =>
    rw [hr] at hw hv
    have hnext := hv.bind (comes_self (g a))
    rw [hnext.calls_eq, hnext.result_eq]
    exact hw.bind (hf a hr)

/-- Operations are carried out one after the other. -/
theorem comes_apply (operations : List Operation) :
    Comes (operations.forM Operation.apply) (operations.map Operation.call) (.ok ()) := by
  induction operations with
  | nil => exact comes_pure ()
  | cons operation operations ih => exact (comes_ask operation.call).bind ih

/-! ## What becomes of a refusal -/

/-- Wherever the walk makes a call, it fails as the surface refuses it and does nothing more. -/
inductive Propagates : Walk α → Prop
  | done (a : α) : Propagates (.done a)
  | fail (failure : Failure) : Propagates (.fail failure)
  | report (event : Log.Event) {next : Walk α} : Propagates next → Propagates (.report event next)
  | attempt (call : Call) {next : Option Failure → Walk α} : Propagates (next none) →
      (∀ failure, next (some failure) = .fail failure) → Propagates (.attempt call next)

theorem Propagates.bind (hw : w.Propagates) (hf : ∀ a, (f a).Propagates) :
    (w >>= f).Propagates := by
  induction hw with
  | done a => exact hf a
  | fail failure => exact .fail failure
  | report event _ ih => exact .report event ih
  | @attempt call next _ hrefused ih =>
    refine .attempt call ih ?_
    intro failure
    show next (some failure) >>= f = _
    rw [hrefused, fail_bind]

theorem propagates_pure (a : α) : (pure a : Walk α).Propagates := .done a

theorem propagates_note (event : Log.Event) : (note event).Propagates := .report event (.done ())

theorem propagates_noteAll (events : List Log.Event) : (noteAll events).Propagates := by
  induction events with
  | nil => exact .done ()
  | cons event events ih => exact .report event ih

theorem propagates_ask (call : Call) : (ask call).Propagates :=
  .attempt call (.done ()) fun _ => rfl

theorem propagates_ofExcept (result : Except Failure α) : (ofExcept result).Propagates := by
  cases result with
  | error failure => exact .fail failure
  | ok a => exact .done a

theorem propagates_foldlM {step : β → α → Walk β} (h : ∀ b a, (step b a).Propagates)
    (as : List α) (b : β) : (as.foldlM step b).Propagates := by
  induction as generalizing b with
  | nil => exact .done b
  | cons a as ih =>
    rw [List.foldlM_cons]
    exact (h b a).bind ih

theorem propagates_apply (operations : List Operation) :
    (operations.forM Operation.apply).Propagates := by
  induction operations with
  | nil => exact .done ()
  | cons operation operations ih => exact (propagates_ask operation.call).bind fun _ => ih

/-- What follows a walk that propagates matters only for the value it comes to. -/
theorem Propagates.bind_congr {g : α → Walk β} (hw : w.Propagates)
    (h : ∀ a, w.result = .ok a → f a = g a) : w >>= f = w >>= g := by
  induction hw with
  | done a => exact h a rfl
  | fail failure => rfl
  | report event _ ih => rw [report_bind, report_bind, ih h]
  | attempt call _ hrefused ih =>
    rw [attempt_bind, attempt_bind]
    congr 1
    funext refusal
    cases refusal with
    | none => exact ih h
    | some failure => rw [hrefused, fail_bind, fail_bind]

/-! ## Carrying out -/

/-- The actions are played up to the first call that is refused. A refusal comes before the failure
    that a walk ends with by itself, since that stands at its end. -/
theorem Propagates.runOn_eq (hw : w.Propagates) (surface : Surface σ) (state : σ) :
    w.runOn surface state =
      { surface.play w.actions state with
        failure := (surface.play w.actions state).failure.or w.failure? } := by
  induction hw generalizing state with
  | done a => rfl
  | fail failure => rfl
  | report event _ ih =>
    simp only [runOn, ih]
    rfl
  | attempt call _ hrefused ih =>
    simp only [runOn, actions, Surface.play]
    cases hr : (surface.reply state call).failure with
    | some failure => simp [hrefused, hr, runOn, Reply.after]
    | none =>
      simp only [ih]
      rfl

-- Walks are free to do otherwise: this one is refused and goes on.
example : (runOn (refusingRecorder 0 (.unknownGradient "g"))
    (.attempt .fill fun _ => ask .closePath) #[]).failure = none := rfl

variable {surface : Surface σ}

/-- The calls that a walk makes on a surface are its calls up to the first that is refused. -/
theorem Propagates.runOn_traced (hw : w.Propagates) (surface : Surface σ) (state : σ)
    (noted : List Call) :
    (w.runOn surface.traced (state, noted)).state.2 = noted ++ surface.asked state w.calls := by
  rw [hw.runOn_eq]
  exact surface.trace_eq_asked w.actions state noted

theorem Propagates.runOn_outcome (hw : w.Propagates) (surface : Surface σ) (state : σ) :
    (w.runOn surface state).state = surface.after state (surface.asked state w.calls) ∧
      (w.runOn surface state).failure = (surface.refusal state w.calls).or w.failure? := by
  rw [hw.runOn_eq, calls, ← surface.play_failure]
  exact ⟨surface.play_state w.actions state, rfl⟩

theorem Propagates.runOn_traced_of_accepting (hw : w.Propagates) (h : surface.Accepting)
    (state : σ) (noted : List Call) :
    (w.runOn surface.traced (state, noted)).state.2 = noted ++ w.calls := by
  rw [hw.runOn_traced, Surface.asked_of_refusal_eq_none (Surface.refusal_of_accepting h state _)]

theorem Propagates.runOn_failure_of_accepting (hw : w.Propagates) (h : surface.Accepting)
    (state : σ) : (w.runOn surface state).failure = w.failure? := by
  rw [(hw.runOn_outcome surface state).2, Surface.refusal_of_accepting h state]
  rfl

end SvgDraw.Walk
