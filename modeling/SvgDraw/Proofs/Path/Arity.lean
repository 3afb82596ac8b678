/-
  SvgDraw.Proofs.Path.Arity — tokens of path data always fit their commands.

  A token fits if it carries as many numbers as its command takes. Tokens that fit can be resolved
  (`resolveTokens_of_fits`), a token that does not fit cannot (`Token.resolve_of_not_fits`), and the
  tokens that path data is read as all fit (`fits_of_tokenize`), so the only path data that cannot
  be compiled is the one that cannot be read (`compilePath_eq_error_iff`).
-/

import SvgDraw.Path.Resolve
import SvgDraw.Proofs.Path.Grammar

namespace SvgDraw

def Token.Fits (t : Token) : Prop :=
  t.arguments.length = t.command.arity

instance (t : Token) : Decidable t.Fits :=
  inferInstanceAs (Decidable (t.arguments.length = t.command.arity))

/-- What a token that fits looks like, command by command. -/
@[elab_as_elim]
theorem Token.Fits.byCommand {motive : (t : Token) → t.Fits → Prop}
    (move : ∀ m x y, motive ⟨.move m, [x, y]⟩ rfl)
    (horizontal : ∀ m x, motive ⟨.horizontal m, [x]⟩ rfl)
    (vertical : ∀ m y, motive ⟨.vertical m, [y]⟩ rfl)
    (line : ∀ m x y, motive ⟨.line m, [x, y]⟩ rfl)
    (curve : ∀ m x₁ y₁ x₂ y₂ x y, motive ⟨.curve m, [x₁, y₁, x₂, y₂, x, y]⟩ rfl)
    (close : motive ⟨.close, []⟩ rfl) {t : Token} (h : t.Fits) : motive t h := by
  obtain ⟨command, arguments⟩ := t
  cases command with
  | move m =>
    obtain ⟨x, y, rfl⟩ := List.length_eq_two.mp h
    exact move m x y
  | horizontal m =>
    obtain ⟨x, rfl⟩ := List.length_eq_one_iff.mp h
    exact horizontal m x
  | vertical m =>
    obtain ⟨y, rfl⟩ := List.length_eq_one_iff.mp h
    exact vertical m y
  | line m =>
    obtain ⟨x, y, rfl⟩ := List.length_eq_two.mp h
    exact line m x y
  | curve m =>
    match arguments, h with
    | [x₁, y₁, x₂, y₂, x, y], _ => exact curve m x₁ y₁ x₂ y₂ x y
  | close =>
    obtain rfl := List.length_eq_zero_iff.mp h
    exact close

theorem Token.resolve_of_fits {t : Token} (h : t.Fits) (pen : Pen) :
    ∃ r, t.resolve pen = .ok r := by
  cases h using Token.Fits.byCommand with
  | move m x y => exact ⟨_, rfl⟩
  | horizontal m x => exact ⟨_, rfl⟩
  | vertical m y => exact ⟨_, rfl⟩
  | line m x y => exact ⟨_, rfl⟩
  | curve m x₁ y₁ x₂ y₂ x y => exact ⟨_, rfl⟩
  | close => exact ⟨_, rfl⟩

/-- A token that does not fit is refused, with its command and its count of numbers. -/
theorem Token.resolve_of_not_fits {t : Token} (h : ¬ t.Fits) (pen : Pen) :
    t.resolve pen = .error ⟨t.command, t.arguments.length⟩ := by
  unfold Token.resolve
  split
  case h_7 => rfl
  all_goals
    rename_i hc ha
    refine absurd ?_ h
    rw [Fits, hc, ha]
    rfl

/-- Tokens can be resolved if the first one can and the others can from where it leaves the pen. -/
theorem resolveTokens_cons_eq_ok_iff {t : Token} {tokens : List Token} {pen last : Pen}
    {operations : List Operation} :
    resolveTokens (t :: tokens) pen = (.ok operations, last) ↔
      ∃ first moved more, t.resolve pen = .ok (first, moved) ∧
        resolveTokens tokens moved = (.ok more, last) ∧ operations = first ++ more := by
  constructor
  · intro h
    simp only [resolveTokens] at h
    split at h
    · cases h
    · rename_i first moved hr
      cases hm : (resolveTokens tokens moved).1 with
      | error e => simp [hm, Except.map] at h
      | ok more =>
        simp only [hm, Except.map, Prod.mk.injEq, Except.ok.injEq] at h
        exact ⟨first, moved, more, hr, Prod.ext hm h.2, h.1.symm⟩
  · rintro ⟨first, moved, more, hr, hm, rfl⟩
    simp only [resolveTokens, hr, hm, Except.map]

theorem resolveTokens_of_fits {tokens : List Token} (h : ∀ t ∈ tokens, t.Fits) (pen : Pen) :
    ∃ operations, (resolveTokens tokens pen).1 = .ok operations := by
  induction tokens generalizing pen with
  | nil => exact ⟨[], rfl⟩
  | cons t tokens ih =>
    obtain ⟨⟨operations, moved⟩, hr⟩ := Token.resolve_of_fits (h t List.mem_cons_self) pen
    obtain ⟨more, hm⟩ := ih (fun u hu => h u (List.mem_cons_of_mem t hu)) moved
    refine ⟨operations ++ more, ?_⟩
    simp only [resolveTokens, hr, hm, Except.map]

/-- The grammar gives every command its numbers. -/
theorem PathData.fits {tokens : List Token} {cs : List Char} (h : PathData tokens cs) :
    ∀ t ∈ tokens, t.Fits := by
  induction h with
  | done => simp
  | blank _ _ ih => exact ih
  | @command _ command texts values _ _ _ _ hlen _ hvalues _ ih =>
    intro t ht
    rcases List.mem_cons.mp ht with rfl | ht
    · exact hvalues.length_eq.symm.trans hlen
    · exact ih t ht

theorem fits_of_tokenize {data : String} {tokens : List Token} (h : tokenize data = .ok tokens) :
    ∀ t ∈ tokens, t.Fits := by
  simp only [tokenize, scan] at h
  split at h
  · cases h
  · rename_i he
    cases h
    exact ((Cursor.start data.toList).scan_sound he).fits

/-- Path data fails to compile exactly if it cannot be read, and for the same reason. -/
theorem compilePath_eq_error_iff (data : String) (pen : Pen) (failure : Failure) :
    (compilePath data pen).1 = .error failure ↔
      ∃ e, tokenize data = .error e ∧ failure = .lex e := by
  unfold compilePath
  cases ht : tokenize data with
  | error e => simp [eq_comm]
  | ok tokens =>
    obtain ⟨operations, hr⟩ := resolveTokens_of_fits (fits_of_tokenize ht) pen
    simp [hr, Except.mapError]

end SvgDraw
