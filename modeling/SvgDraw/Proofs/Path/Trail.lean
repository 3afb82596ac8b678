/-
  SvgDraw.Proofs.Path.Trail — where resolving tokens leaves the pen.

  The pen follows the operations that tokens are resolved to (`resolveTokens_along`): it goes to
  the endpoint of the last move, line or curve, or nowhere if there is none, and no scope is opened
  or closed (`resolveTokens_leaves`). Tokens are resolved up to the first one that does not fit its
  command, and that one does nothing (`resolveTokens_of_misfit`). Both together are
  `resolveTokens_trail`, for every list of tokens, also for one that no path data is read as.
-/

import Mathlib.Data.List.Induction
import SvgDraw.Proofs.Path.Concat
import SvgDraw.Proofs.Path.Scope

namespace SvgDraw

/-! ## Strokes and endpoints -/

def Operation.stroked : Operation → List Operation
  | .moveTo p => [.moveTo p]
  | .lineTo p => [.lineTo p, .stroke]
  | .curveTo c₁ c₂ p => [.curveTo c₁ c₂ p, .stroke]
  | .stroke => []

/-- A stroke stands behind every line and every curve, and nowhere else. -/
def Stroked (operations : List Operation) : Prop :=
  operations.flatMap Operation.stroked = operations

theorem Stroked.append {as bs : List Operation} (ha : Stroked as) (hb : Stroked bs) :
    Stroked (as ++ bs) := by
  rw [Stroked, List.flatMap_append, ha, hb]

def Pen.along (pen : Pen) (operations : List Operation) : Pen :=
  (operations.filterMap Operation.endpoint?).foldl Pen.moveTo pen

theorem Pen.along_append (pen : Pen) (as bs : List Operation) :
    pen.along (as ++ bs) = (pen.along as).along bs := by
  simp [along, List.filterMap_append, List.foldl_append]

theorem Pen.point_along (pen : Pen) (operations : List Operation) :
    (pen.along operations).point =
      (operations.filterMap Operation.endpoint?).getLast?.getD pen.point := by
  unfold along
  induction operations.filterMap Operation.endpoint? using List.reverseRec with
  | nil => rfl
  | append_singleton ps p ih => simp [Pen.moveTo]

/-! ## Along the operations -/

/-- One command gives operations with their strokes, and the pen follows them. -/
theorem Token.resolve_along {t : Token} {pen moved : Pen} {operations : List Operation}
    (h : t.resolve pen = .ok (operations, moved)) :
    Stroked operations ∧ moved = pen.along operations := by
  unfold Token.resolve at h
  split at h
  all_goals cases h
  all_goals exact ⟨rfl, rfl⟩

theorem resolveTokens_along {tokens : List Token} {pen : Pen} {operations : List Operation}
    (h : (resolveTokens tokens pen).1 = .ok operations) :
    Stroked operations ∧ (resolveTokens tokens pen).2 = pen.along operations := by
  induction tokens generalizing pen operations with
  | nil =>
    cases h
    exact ⟨rfl, rfl⟩
  | cons t tokens ih =>
    obtain ⟨first, moved, more, hr, hm, rfl⟩ := resolveTokens_cons_eq_ok_iff.mp (Prod.ext h rfl)
    obtain ⟨hs, rfl⟩ := Token.resolve_along hr
    obtain ⟨hmore, hlast⟩ := ih (congrArg Prod.fst hm)
    refine ⟨hs.append hmore, ?_⟩
    rw [Pen.along_append, ← hlast, hm]

/-- Compiled operations have their strokes, and the pen follows them. -/
theorem compilePath_along {data : String} {pen : Pen} {operations : List Operation}
    (h : (compilePath data pen).1 = .ok operations) :
    Stroked operations ∧ (compilePath data pen).2 = pen.along operations := by
  unfold compilePath at h ⊢
  split at h
  · cases h
  · rename_i tokens ht
    apply resolveTokens_along
    cases hr : (resolveTokens tokens pen).1 with
    | error e => simp [hr, Except.mapError] at h
    | ok more =>
      simp only [hr, Except.mapError, Except.ok.injEq] at h
      rw [h]

/-! ## The first token that does not fit -/

/-- Either all tokens fit, or there is a first one that does not. -/
theorem fits_or_misfit (tokens : List Token) :
    (∀ t ∈ tokens, t.Fits) ∨
      ∃ done t rest, tokens = done ++ t :: rest ∧ (∀ u ∈ done, u.Fits) ∧ ¬ t.Fits := by
  cases hfind : tokens.find? (fun t => !decide t.Fits) with
  | none =>
    left
    intro t ht
    simpa using List.find?_eq_none.mp hfind t ht
  | some t =>
    right
    obtain ⟨ht, done, rest, hsplit, hdone⟩ := List.find?_eq_some_iff_append.mp hfind
    refine ⟨done, t, rest, hsplit, ?_, by simpa using ht⟩
    intro u hu
    simpa using hdone u hu

/-- A token that does not fit ends the resolving; the pen stays where the tokens before it left
    it. -/
theorem resolveTokens_of_misfit {done : List Token} {pen last : Pen} {operations : List Operation}
    (hd : resolveTokens done pen = (.ok operations, last)) {t : Token} (ht : ¬ t.Fits)
    (rest : List Token) :
    resolveTokens (done ++ t :: rest) pen = (.error ⟨t.command, t.arguments.length⟩, last) := by
  rw [resolveTokens_append hd]
  simp only [resolveTokens, Token.resolve_of_not_fits ht, Except.map]

theorem resolveTokens_leaves {tokens : List Token} {pen last : Pen} {operations : List Operation}
    (h : resolveTokens tokens pen = (.ok operations, last)) :
    last.saved = pen.saved ∧
      last.point = (operations.filterMap Operation.endpoint?).getLast?.getD pen.point := by
  have hsaved := resolveTokens_saved tokens pen
  have hpoint := congrArg Pen.point (resolveTokens_along (congrArg Prod.fst h)).2
  rw [h] at hsaved hpoint
  exact ⟨hsaved, hpoint.trans (pen.point_along operations)⟩

/-- Resolving fails exactly if a token does not fit, with the command, the arity and the count of
    numbers of the first such token, and the tokens before it have been resolved. Whether it fails
    or not, the pen is as the resolved tokens leave it: at the endpoint of the last move, line or
    curve they are drawn as, or where it was, and with the same points put aside. -/
theorem resolveTokens_trail (tokens : List Token) (pen : Pen) :
    ((∃ e, (resolveTokens tokens pen).1 = .error e) ↔
      ∃ t ∈ tokens, t.arguments.length ≠ t.command.arity) ∧
    ∃ done operations last,
      resolveTokens done pen = (.ok operations, last) ∧
      (done = tokens ∨
        ∃ t rest e, tokens = done ++ t :: rest ∧
          (∀ u ∈ done, u.arguments.length = u.command.arity) ∧
          t.arguments.length ≠ t.command.arity ∧
          resolveTokens tokens pen = (.error e, last) ∧
          e.command = t.command ∧ e.expected = t.command.arity ∧ e.found = t.arguments.length) ∧
      last.saved = pen.saved ∧
      last.point = (operations.filterMap Operation.endpoint?).getLast?.getD pen.point := by
  rcases fits_or_misfit tokens with hfits | ⟨done, t, rest, rfl, hdone, ht⟩
  · obtain ⟨operations, hr⟩ := resolveTokens_of_fits hfits pen
    have hall : resolveTokens tokens pen = (.ok operations, (resolveTokens tokens pen).2) :=
      Prod.ext hr rfl
    refine ⟨⟨?_, ?_⟩, tokens, operations, _, hall, .inl rfl, resolveTokens_leaves hall⟩
    · rintro ⟨e, he⟩
      rw [hr] at he
      cases he
    · rintro ⟨t, hmem, ht⟩
      exact absurd (hfits t hmem) ht
  · obtain ⟨operations, hr⟩ := resolveTokens_of_fits hdone pen
    have hbefore : resolveTokens done pen = (.ok operations, (resolveTokens done pen).2) :=
      Prod.ext hr rfl
    have hstop := resolveTokens_of_misfit hbefore ht rest
    refine ⟨⟨?_, ?_⟩, done, operations, _, hbefore,
      .inr ⟨t, rest, _, rfl, hdone, ht, hstop, rfl, rfl, rfl⟩, resolveTokens_leaves hbefore⟩
    · intro _
      exact ⟨t, by simp, ht⟩
    · intro _
      exact ⟨_, congrArg Prod.fst hstop⟩

end SvgDraw
