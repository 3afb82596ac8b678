/-
  SvgDraw.Proofs.Path.Outline — what path data is drawn as, apart from where.

  The command of a token decides which operations it is drawn as: a move is one operation, a line
  in any of its forms and a curve are followed by a stroke, a close is nothing (`Command.kinds`).
  Resolved tokens are these operations, token by token (`resolveTokens_kinds`). So strokes stand
  right behind lines and curves (`strokesBehind_kinds`), and the commands tell how many
  operations there are (`length_kinds`).

  Path data either cannot be read, and leaves the pen alone, or is drawn in this way
  (`compilePath_outline`).
-/

import SvgDraw.Proofs.Path.Concat

namespace SvgDraw

inductive Operation.Kind where
  | move
  | line
  | curve
  | stroke
  deriving DecidableEq, Repr

def Operation.kind : Operation → Operation.Kind
  | .moveTo _ => .move
  | .lineTo _ => .line
  | .curveTo .. => .curve
  | .stroke => .stroke

def Command.kinds : Command → List Operation.Kind
  | .move _ => [.move]
  | .horizontal _ => [.line, .stroke]
  | .vertical _ => [.line, .stroke]
  | .line _ => [.line, .stroke]
  | .curve _ => [.curve, .stroke]
  | .close => []

def Command.isMove : Command → Bool
  | .move _ => true
  | _ => false

def Command.isSegment : Command → Bool
  | .move _ => false
  | .close => false
  | _ => true

/-! ## Operations of tokens -/

theorem Token.resolve_kinds {t : Token} {pen moved : Pen} {operations : List Operation}
    (h : t.resolve pen = .ok (operations, moved)) :
    operations.map Operation.kind = t.command.kinds := by
  unfold Token.resolve at h
  split at h
  case h_7 => cases h
  all_goals
    rename_i hc _
    cases h
    rw [hc]
    rfl

theorem resolveTokens_kinds {tokens : List Token} {pen last : Pen} {operations : List Operation}
    (h : resolveTokens tokens pen = (.ok operations, last)) :
    operations.map Operation.kind = tokens.flatMap fun t => t.command.kinds := by
  induction tokens generalizing pen operations with
  | nil =>
    cases h
    rfl
  | cons t tokens ih =>
    obtain ⟨first, moved, more, hfirst, hmore, rfl⟩ := resolveTokens_cons_eq_ok_iff.mp h
    rw [List.map_append, Token.resolve_kinds hfirst, ih hmore, List.flatMap_cons]

/-! ## Strokes and counts -/

/-- By position: the first operation is no stroke, and a later one is a stroke exactly if it comes
    right behind a line or a curve. -/
def StrokesBehind (kinds : List Operation.Kind) : Prop :=
  kinds[0]? ≠ some .stroke ∧
    ∀ i, kinds[i + 1]? = some .stroke ↔ kinds[i]? = some .line ∨ kinds[i]? = some .curve

theorem strokesBehind_nil : StrokesBehind [] := by
  exact ⟨by simp, fun i => by simp⟩

theorem StrokesBehind.move {kinds : List Operation.Kind} (h : StrokesBehind kinds) :
    StrokesBehind (.move :: kinds) := by
  refine ⟨by simp, fun i => ?_⟩
  cases i with
  | zero => simpa using h.1
  | succ i => exact h.2 i

theorem StrokesBehind.segment {kinds : List Operation.Kind} (h : StrokesBehind kinds)
    {kind : Operation.Kind} (hk : kind = .line ∨ kind = .curve) :
    StrokesBehind (kind :: .stroke :: kinds) := by
  refine ⟨?_, fun i => ?_⟩
  · rcases hk with rfl | rfl <;> simp
  · -- right behind the new stroke comes the first of `kinds`, which is none
    match i with
    | 0 => simpa using hk
    | 1 => simpa using h.1
    | i + 2 => exact h.2 i

theorem strokesBehind_kinds (tokens : List Token) :
    StrokesBehind (tokens.flatMap fun t => t.command.kinds) := by
  induction tokens with
  | nil => exact strokesBehind_nil
  | cons t tokens ih =>
    rw [List.flatMap_cons]
    cases t.command with
    | move m => exact ih.move
    | horizontal m => exact ih.segment (.inl rfl)
    | vertical m => exact ih.segment (.inl rfl)
    | line m => exact ih.segment (.inl rfl)
    | curve m => exact ih.segment (.inr rfl)
    | close => exact ih

theorem Command.length_kinds (c : Command) :
    c.kinds.length = (if c.isMove then 1 else 0) + 2 * (if c.isSegment then 1 else 0) := by
  cases c <;> rfl

theorem length_kinds (tokens : List Token) :
    (tokens.flatMap fun t => t.command.kinds).length =
      tokens.countP (·.command.isMove) + 2 * tokens.countP (·.command.isSegment) := by
  induction tokens with
  | nil => rfl
  | cons t tokens ih =>
    rw [List.flatMap_cons, List.length_append, ih, t.command.length_kinds, List.countP_cons,
      List.countP_cons]
    omega

/-- Path data that cannot be read fails for that reason and leaves the pen alone; there is no other
    failure. All other path data is drawn as its commands say, one after the other: with a stroke
    right behind every line and every curve and nowhere else, one operation for each move and two
    for each line or curve. -/
theorem compilePath_outline (data : String) (pen : Pen) :
    (∃ e, tokenize data = .error e ∧ compilePath data pen = (.error (.lex e), pen)) ∨
    ∃ tokens operations last,
      tokenize data = .ok tokens ∧ compilePath data pen = (.ok operations, last) ∧
      operations.map Operation.kind = tokens.flatMap (fun t => t.command.kinds) ∧
      StrokesBehind (operations.map Operation.kind) ∧
      operations.length =
        tokens.countP (·.command.isMove) + 2 * tokens.countP (·.command.isSegment) := by
  cases ht : tokenize data with
  | error e =>
    left
    exact ⟨e, rfl, by simp only [compilePath, ht]⟩
  | ok tokens =>
    right
    obtain ⟨operations, last, hr⟩ := resolveTokens_of_tokenize ht pen
    have hkinds := resolveTokens_kinds hr
    refine ⟨tokens, operations, last, rfl, compilePath_of_resolveTokens ht hr, hkinds, ?_, ?_⟩
    · rw [hkinds]
      exact strokesBehind_kinds tokens
    · rw [← length_kinds, ← hkinds, List.length_map]

end SvgDraw
