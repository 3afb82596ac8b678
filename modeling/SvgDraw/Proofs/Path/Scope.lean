/-
  SvgDraw.Proofs.Path.Scope — tokens are resolved in the innermost scope only.

  Resolving reads and moves the pen's point and leaves the points put aside alone
  (`resolveTokens_withSaved`), whether it gets to the end or not. So path data compiled in a new
  scope comes to what it comes to on a fresh pen (`compilePath_enter`), and closing the scope
  gives back the pen as it was (`leave_compilePath_enter`).

  The same holds of everything that can be done with a pen in between, with scopes inside the
  scope, as long as every scope that is closed there was opened there (`Pen.WellNested`). Such
  steps only ever add to the points put aside and take back what they added (`Pen.Above.run`), so
  the scope around them ends with the pen it began with (`Pen.scope_restores`).
-/

import SvgDraw.Path.Resolve

namespace SvgDraw

def Pen.withSaved (pen : Pen) (saved : List Point) : Pen := { pen with saved := saved }

@[simp] theorem Pen.base_withSaved (pen : Pen) (saved : List Point) (mode : Mode) :
    (pen.withSaved saved).base mode = pen.base mode := by
  cases mode <;> rfl

theorem Pen.enter_eq (pen : Pen) : pen.enter = Pen.fresh.withSaved (pen.point :: pen.saved) := rfl

theorem Token.resolve_withSaved (t : Token) (pen : Pen) (saved : List Point) :
    t.resolve (pen.withSaved saved) =
      (t.resolve pen).map fun r => (r.1, r.2.withSaved saved) := by
  have hpoint : (pen.withSaved saved).point = pen.point := rfl
  have hmove : ∀ p, (pen.withSaved saved).moveTo p = (pen.moveTo p).withSaved saved := by
    intro p
    rfl
  unfold Token.resolve
  split <;> simp [Except.map, Pen.drawLine, hpoint, hmove]

theorem resolveTokens_withSaved (ts : List Token) (pen : Pen) (saved : List Point) :
    resolveTokens ts (pen.withSaved saved) =
      ((resolveTokens ts pen).1, (resolveTokens ts pen).2.withSaved saved) := by
  induction ts generalizing pen with
  | nil => rfl
  | cons t ts ih =>
    simp only [resolveTokens, Token.resolve_withSaved]
    cases t.resolve pen with
    | error e => rfl
    | ok r => simp only [Except.map, ih]

theorem compilePath_withSaved (data : String) (pen : Pen) (saved : List Point) :
    compilePath data (pen.withSaved saved) =
      ((compilePath data pen).1, (compilePath data pen).2.withSaved saved) := by
  unfold compilePath
  split
  · rfl
  · simp only [resolveTokens_withSaved]

/-- In a new scope path data comes to what it comes to on a fresh pen. -/
theorem compilePath_enter (data : String) (pen : Pen) :
    (compilePath data pen.enter).1 = (compilePath data .fresh).1 := by
  rw [Pen.enter_eq, compilePath_withSaved]

/-- Closing the scope that path data was compiled in restores the pen. -/
theorem leave_compilePath_enter (data : String) (pen : Pen) :
    (compilePath data pen.enter).2.leave = pen := by
  rw [Pen.enter_eq, compilePath_withSaved]
  rfl

/-! ## Scopes inside a scope -/

theorem resolveTokens_saved (ts : List Token) (pen : Pen) :
    (resolveTokens ts pen).2.saved = pen.saved :=
  congrArg (fun r => r.2.saved) (resolveTokens_withSaved ts pen pen.saved)

theorem compilePath_saved (data : String) (pen : Pen) :
    (compilePath data pen).2.saved = pen.saved :=
  congrArg (fun r => r.2.saved) (compilePath_withSaved data pen pen.saved)

namespace Pen

inductive Step where
  | goTo (p : Point)
  | enter
  | leave
  | compile (data : String)
  | resolve (tokens : List Token)
  deriving DecidableEq, Repr

/-- The pen after a step. Compiling and resolving may fail; the pen stays where they left it. -/
def step (pen : Pen) : Step → Pen
  | .goTo p => pen.moveTo p
  | .enter => pen.enter
  | .leave => pen.leave
  | .compile data => (compilePath data pen).2
  | .resolve tokens => (resolveTokens tokens pen).2

def run (pen : Pen) (steps : List Step) : Pen := steps.foldl step pen

/-- How many of the scopes opened by steps are open after one more, if `n` were. There is no answer
    if the step closes a scope that was open before all of them. -/
def Step.openScopes : Nat → Step → Option Nat
  | n, .enter => some (n + 1)
  | 0, .leave => none
  | n + 1, .leave => some n
  | n, _ => some n

/-- Every scope that the steps close was opened by them, and the other way round. -/
def WellNested (steps : List Step) : Prop := steps.foldlM Step.openScopes 0 = some 0

instance (steps : List Step) : Decidable (WellNested steps) :=
  inferInstanceAs (Decidable (steps.foldlM Step.openScopes 0 = some 0))

/-- The pen has put `n` points aside on top of `base`. -/
def Above (base : List Point) (n : Nat) (pen : Pen) : Prop :=
  ∃ top, top.length = n ∧ pen.saved = top ++ base

theorem Above.of_saved {base : List Point} {n : Nat} {pen moved : Pen} (h : Above base n pen)
    (hs : moved.saved = pen.saved) : Above base n moved := by
  obtain ⟨top, hlen, htop⟩ := h
  exact ⟨top, hlen, hs.trans htop⟩

theorem Above.step {base : List Point} {n m : Nat} {pen : Pen} (h : Above base n pen) (s : Step)
    (hm : s.openScopes n = some m) : Above base m (pen.step s) := by
  cases s with
  | goTo p =>
    cases hm
    exact h.of_saved rfl
  | enter =>
    cases hm
    obtain ⟨top, hlen, htop⟩ := h
    exact ⟨pen.point :: top, by simp [hlen], by simp [Pen.step, Pen.enter, htop]⟩
  | leave =>
    -- a scope is open above `base`, so the point taken back is not one of `base`
    obtain ⟨top, hlen, htop⟩ := h
    cases top with
    | nil =>
      subst hlen
      cases hm
    | cons p top =>
      subst hlen
      cases hm
      exact ⟨top, rfl, by simp [Pen.step, Pen.leave, htop]⟩
  | compile data =>
    cases hm
    exact h.of_saved (compilePath_saved data pen)
  | resolve tokens =>
    cases hm
    exact h.of_saved (resolveTokens_saved tokens pen)

theorem Above.run {base : List Point} {n m : Nat} {pen : Pen} (h : Above base n pen)
    {steps : List Step} (hm : steps.foldlM Step.openScopes n = some m) :
    Above base m (pen.run steps) := by
  induction steps generalizing n pen with
  | nil =>
    cases hm
    exact h
  | cons s steps ih =>
    rw [List.foldlM_cons, Option.bind_eq_bind, Option.bind_eq_some_iff] at hm
    obtain ⟨k, hk, hrest⟩ := hm
    exact ih (h.step s hk) hrest

theorem WellNested.saved_run {steps : List Step} (h : WellNested steps) (pen : Pen) :
    (pen.run steps).saved = pen.saved := by
  have habove : Above pen.saved 0 pen := ⟨[], rfl, rfl⟩
  obtain ⟨top, hlen, hsaved⟩ := habove.run h
  rw [hsaved, List.length_eq_zero_iff.mp hlen, List.nil_append]

/-- A scope around well-nested steps gives back the pen as it was, point and points put aside,
    whether what was compiled and resolved in it succeeded or failed. -/
theorem scope_restores {steps : List Step} (h : WellNested steps) (pen : Pen) :
    pen.run (.enter :: steps ++ [.leave]) = pen := by
  have hsaved : (pen.enter.run steps).saved = pen.point :: pen.saved := h.saved_run pen.enter
  have hleave : pen.run (.enter :: steps ++ [.leave]) = (pen.enter.run steps).leave := by
    simp [run, step]
  rw [hleave, leave, hsaved]

/-- A scope inside, tokens of which the second does not fit, and path data that cannot be read. -/
def stumblingSteps : List Step :=
  [.goTo ⟨2.0, 2.0⟩, .enter, .resolve [⟨.line .absolute, [3.0, 4.0]⟩, ⟨.close, [1.0]⟩], .leave,
    .compile "m5 6", .compile "M0 0Q"]

/-- The steps move the pen, and two of them fail; the scope around them gives it back. -/
theorem scope_restores_stumblingSteps :
    WellNested stumblingSteps ∧
      run ⟨⟨9.0, 9.0⟩, [⟨1.0, 1.0⟩]⟩ (.enter :: stumblingSteps) =
        ⟨⟨7.0, 8.0⟩, [⟨9.0, 9.0⟩, ⟨1.0, 1.0⟩]⟩ ∧
      run ⟨⟨9.0, 9.0⟩, [⟨1.0, 1.0⟩]⟩ (.enter :: stumblingSteps ++ [.leave]) =
        ⟨⟨9.0, 9.0⟩, [⟨1.0, 1.0⟩]⟩ := by
  have hnested : WellNested stumblingSteps := by decide
  exact ⟨hnested, by decide +kernel, scope_restores hnested _⟩

end Pen

end SvgDraw
