/-
  SvgDraw.Proofs.Canvas.Refusal — how far calls get on a surface that may refuse them.

  Actions are reports and calls, and are played in order up to the first call that is refused
  (`play`). `asked` is the calls that get made of a list, the refused one included, `refusal` is why
  that one is refused, and `after` is the state that calls leave behind. Playing actions comes to
  these three of the calls among them (`play_failure`, `play_state`, `trace_eq_asked`), so whatever
  is said of plays can be said of lists of calls.

  `RefusesAt` says where a list of calls breaks off, without saying what the surface does
  otherwise; `asked_of_refusesAt` and `refusal_of_refusesAt` give what is made of the list then.
-/

import SvgDraw.Canvas.Surface

namespace SvgDraw

inductive Action where
  | note (event : Log.Event)
  | perform (call : Call)
  deriving DecidableEq, Repr

def Action.call? : Action → Option Call
  | .note _ => none
  | .perform call => some call

namespace Surface

variable {σ : Type} {surface : Surface σ} {state : σ}

/-- Carry out actions in order, up to the first call that is refused. -/
def play (surface : Surface σ) : List Action → σ → Reply σ
  | [], state => ⟨state, [], none⟩
  | .note event :: rest, state => (surface.play rest state).after [event]
  | .perform call :: rest, state =>
    let r := surface.reply state call
    match r.failure with
    | some _ => r
    | none => (surface.play rest r.state).after r.events

def traced (surface : Surface σ) : Surface (σ × List Call) where
  reply s call :=
    let r := surface.reply s.1 call
    ⟨(r.state, s.2 ++ [call]), r.events, r.failure⟩

def Accepting (surface : Surface σ) : Prop :=
  ∀ state call, (surface.reply state call).failure = none

def after (surface : Surface σ) (state : σ) (calls : List Call) : σ :=
  calls.foldl (fun s call => (surface.reply s call).state) state

def refusal (surface : Surface σ) (state : σ) : List Call → Option Failure
  | [] => none
  | call :: calls =>
    match (surface.reply state call).failure with
    | some failure => some failure
    | none => surface.refusal (surface.reply state call).state calls

/-- The calls up to the first that is refused, and that one. -/
def asked (surface : Surface σ) (state : σ) : List Call → List Call
  | [] => []
  | call :: calls =>
    match (surface.reply state call).failure with
    | some _ => [call]
    | none => call :: surface.asked (surface.reply state call).state calls

@[simp] theorem after_nil : surface.after state [] = state := rfl

@[simp] theorem after_cons (call : Call) (calls : List Call) :
    surface.after state (call :: calls) =
      surface.after (surface.reply state call).state calls := rfl

theorem after_append (as bs : List Call) :
    surface.after state (as ++ bs) = surface.after (surface.after state as) bs :=
  List.foldl_append

/-! ## Plays -/

theorem play_failure (surface : Surface σ) (actions : List Action) (state : σ) :
    (surface.play actions state).failure =
      surface.refusal state (actions.filterMap Action.call?) := by
  induction actions generalizing state with
  | nil => rfl
  | cons action actions ih =>
    cases action with
    | note event => exact ih state
    | perform call =>
      simp only [play, List.filterMap_cons, Action.call?, refusal]
      cases hr : (surface.reply state call).failure with
      | some failure => exact hr
      | none => exact ih _

theorem play_state (surface : Surface σ) (actions : List Action) (state : σ) :
    (surface.play actions state).state =
      surface.after state (surface.asked state (actions.filterMap Action.call?)) := by
  induction actions generalizing state with
  | nil => rfl
  | cons action actions ih =>
    cases action with
    | note event => exact ih state
    | perform call =>
      simp only [play, List.filterMap_cons, Action.call?, asked]
      cases hr : (surface.reply state call).failure with
      | some failure => rfl
      | none => exact ih _

/-- Noting the calls does not change which calls get made. -/
theorem asked_traced (state : σ) (noted calls : List Call) :
    surface.traced.asked (state, noted) calls = surface.asked state calls := by
  induction calls generalizing state noted with
  | nil => rfl
  | cons call calls ih =>
    simp only [asked, traced]
    cases (surface.reply state call).failure with
    | some failure => rfl
    | none => exact congrArg (call :: ·) (ih _ _)

theorem after_traced (state : σ) (noted calls : List Call) :
    surface.traced.after (state, noted) calls = (surface.after state calls, noted ++ calls) := by
  induction calls generalizing state noted with
  | nil => simp
  | cons call calls ih =>
    rw [after_cons, after_cons]
    exact (ih _ _).trans (by simp)

/-- The calls that a play makes. -/
theorem trace_eq_asked (surface : Surface σ) (actions : List Action) (state : σ)
    (noted : List Call) :
    (surface.traced.play actions (state, noted)).state.2 =
      noted ++ surface.asked state (actions.filterMap Action.call?) := by
  rw [play_state, asked_traced, after_traced]

/-- Nothing else is asked than what was to be. -/
theorem asked_prefix (surface : Surface σ) (state : σ) (calls : List Call) :
    surface.asked state calls <+: calls := by
  induction calls generalizing state with
  | nil => exact List.prefix_rfl
  | cons call calls ih =>
    simp only [asked]
    cases (surface.reply state call).failure with
    | some failure => exact (List.prefix_cons_inj call).mpr calls.nil_prefix
    | none => exact (List.prefix_cons_inj call).mpr (ih _)

/-- What is left out after a refusal has no part in it. -/
theorem refusal_asked (state : σ) (calls : List Call) :
    surface.refusal state (surface.asked state calls) = surface.refusal state calls := by
  induction calls generalizing state with
  | nil => rfl
  | cons call calls ih =>
    simp only [asked, refusal]
    cases hr : (surface.reply state call).failure with
    | some failure => simp only [refusal, hr]
    | none => simp only [refusal, hr, ih]

/-! ## Calls that are all accepted -/

/-- Calls are all accepted if each is where the calls before it lead. -/
theorem refusal_eq_none {calls : List Call}
    (h : ∀ earlier call later, calls = earlier ++ call :: later →
      (surface.reply (surface.after state earlier) call).failure = none) :
    surface.refusal state calls = none := by
  induction calls generalizing state with
  | nil => rfl
  | cons call calls ih =>
    have hfirst : (surface.reply state call).failure = none := h [] call calls rfl
    simp only [refusal, hfirst]
    refine ih fun earlier next later he => ?_
    exact h (call :: earlier) next later (congrArg (call :: ·) he)

theorem asked_of_refusal_eq_none {calls : List Call} (h : surface.refusal state calls = none) :
    surface.asked state calls = calls := by
  induction calls generalizing state with
  | nil => rfl
  | cons call calls ih =>
    simp only [refusal] at h
    simp only [asked]
    cases hr : (surface.reply state call).failure with
    | some failure => simp [hr] at h
    | none =>
      rw [hr] at h
      exact congrArg (call :: ·) (ih h)

theorem refusal_of_accepting (h : surface.Accepting) (state : σ) (calls : List Call) :
    surface.refusal state calls = none :=
  refusal_eq_none fun _ call _ _ => h _ call

/-! ## The call that is refused -/

/-- Made in order, the calls before number `n` are accepted, and number `n` is refused if there is
    one. Nothing is said of the replies to any other calls. -/
structure RefusesAt (surface : Surface σ) (state : σ) (calls : List Call) (n : Nat)
    (failure : Failure) : Prop where
  accepts : ∀ i < n, ∀ call, calls[i]? = some call →
    (surface.reply (surface.after state (calls.take i)) call).failure = none
  refuses : ∀ call, calls[n]? = some call →
    (surface.reply (surface.after state (calls.take n)) call).failure = some failure

variable {call : Call} {calls : List Call} {n : Nat} {failure : Failure}

theorem RefusesAt.head (h : surface.RefusesAt state (call :: calls) (n + 1) failure) :
    (surface.reply state call).failure = none :=
  h.accepts 0 (Nat.succ_pos n) call rfl

theorem RefusesAt.tail (h : surface.RefusesAt state (call :: calls) (n + 1) failure) :
    surface.RefusesAt (surface.reply state call).state calls n failure where
  accepts i hi c hc := h.accepts (i + 1) (Nat.succ_lt_succ hi) c hc
  refuses c hc := h.refuses c hc

theorem asked_of_refusesAt (h : surface.RefusesAt state calls n failure) :
    surface.asked state calls = calls.take (n + 1) := by
  induction calls generalizing state n with
  | nil => rfl
  | cons call calls ih =>
    cases n with
    | zero =>
      have hr : (surface.reply state call).failure = some failure := h.refuses call rfl
      simp [asked, hr]
    | succ n => simp only [asked, h.head, ih h.tail, List.take_succ_cons]

theorem refusal_of_refusesAt (h : surface.RefusesAt state calls n failure) :
    surface.refusal state calls = if n < calls.length then some failure else none := by
  induction calls generalizing state n with
  | nil => rfl
  | cons call calls ih =>
    cases n with
    | zero =>
      have hr : (surface.reply state call).failure = some failure := h.refuses call rfl
      simp [refusal, hr]
    | succ n => simp [refusal, h.head, ih h.tail]

end Surface

theorem toList_after_recorder (refusal : Nat → Option Failure) (noted : Array Call)
    (calls : List Call) :
    ((recorder refusal).after noted calls).toList = noted.toList ++ calls := by
  induction calls generalizing noted with
  | nil => simp
  | cons call calls ih =>
    rw [Surface.after_cons, ih]
    simp [recorder]

/-- The recorder refuses the call it is told to refuse, whatever calls are made. -/
theorem refusingRecorder_refusesAt (n : Nat) (failure : Failure) (calls : List Call) :
    (refusingRecorder n failure).RefusesAt #[] calls n failure := by
  have hsize : ∀ i call, calls[i]? = some call →
      ((refusingRecorder n failure).after #[] (calls.take i)).size = i := by
    intro i call hi
    obtain ⟨hlt, -⟩ := List.getElem?_eq_some_iff.mp hi
    rw [← Array.length_toList, refusingRecorder, toList_after_recorder]
    simp
    omega
  constructor
  · intro i hi call hc
    have hne : i ≠ n := by omega
    show (if _ = n then some failure else none) = none
    rw [hsize i call hc, if_neg hne]
  · intro call hc
    show (if _ = n then some failure else none) = some failure
    rw [hsize n call hc, if_pos rfl]

end SvgDraw
