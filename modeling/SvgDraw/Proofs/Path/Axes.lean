/-
  SvgDraw.Proofs.Path.Axes — the two axes never mix.

  Some numbers of a command are coordinates on the one axis, the others on the other
  (`Command.places`). Seen along one axis, a token is drawn from its numbers there and from where
  the pen is there, and from nothing else (`Token.resolve_axis`): it leads through its numbers,
  counted from the origin or from the pen, or stays where the pen is if it has none
  (`Command.track`).

  So two lists of tokens that are alike on an axis are drawn alike on that axis, whatever they are
  on the other one (`axes_apart`).
-/

import SvgDraw.Proofs.Path.Outline

namespace SvgDraw

inductive Axis where
  | x
  | y
  deriving DecidableEq, Repr

def Point.coordinate (p : Point) : Axis → Float
  | .x => p.x
  | .y => p.y

def Operation.points : Operation → List Point
  | .moveTo p => [p]
  | .lineTo p => [p]
  | .curveTo c₁ c₂ p => [c₁, c₂, p]
  | .stroke => []

def Operation.coordinates (o : Operation) (axis : Axis) : List Float :=
  o.points.map (·.coordinate axis)

/-- Which numbers of a command are coordinates on the axis. -/
def Command.places : Command → Axis → List Nat
  | .move _, .x => [0]
  | .move _, .y => [1]
  | .horizontal _, .x => [0]
  | .horizontal _, .y => []
  | .vertical _, .x => []
  | .vertical _, .y => [0]
  | .line _, .x => [0]
  | .line _, .y => [1]
  | .curve _, .x => [0, 2, 4]
  | .curve _, .y => [1, 3, 5]
  | .close, _ => []

/-! ## One axis of a token -/

def Token.numbers (t : Token) (axis : Axis) : List Float :=
  (t.command.places axis).filterMap (t.arguments[·]?)

/-- Where a command with these numbers on an axis leads on it, if the pen is at `position`. -/
def Command.track (c : Command) (numbers : List Float) (position : Float) : List Float :=
  match numbers, c.mode with
  | [], _ => [position]
  | _, .absolute => numbers.map (0.0 + ·)
  | _, .relative => numbers.map (position + ·)

/-- On an axis, a token that fits is drawn along its track, and the pen goes to the end of it. -/
theorem Token.resolve_axis {t : Token} (h : t.Fits) (pen : Pen) (axis : Axis) :
    ∃ operations moved, t.resolve pen = .ok (operations, moved) ∧
      operations.map (·.coordinates axis) = t.command.kinds.map (fun kind =>
        if kind = .stroke then [] else
          t.command.track (t.numbers axis) (pen.point.coordinate axis)) ∧
      (t.command.track (t.numbers axis) (pen.point.coordinate axis)).getLast? =
        some (moved.point.coordinate axis) := by
  cases h using Token.Fits.byCommand with
  | move m x y => cases m <;> cases axis <;> exact ⟨_, _, rfl, rfl, rfl⟩
  | horizontal m x => cases m <;> cases axis <;> exact ⟨_, _, rfl, rfl, rfl⟩
  | vertical m y => cases m <;> cases axis <;> exact ⟨_, _, rfl, rfl, rfl⟩
  | line m x y => cases m <;> cases axis <;> exact ⟨_, _, rfl, rfl, rfl⟩
  | curve m x₁ y₁ x₂ y₂ x y => cases m <;> cases axis <;> exact ⟨_, _, rfl, rfl, rfl⟩
  | close => cases axis <;> exact ⟨_, _, rfl, rfl, rfl⟩

/-! ## Two runs -/

/-- The tokens have one command and one count of numbers, and the same numbers on the axis. -/
structure Token.AlikeOn (axis : Axis) (t u : Token) : Prop where
  command : t.command = u.command
  count : t.arguments.length = u.arguments.length
  numbers : ∀ i ∈ t.command.places axis, t.arguments[i]? = u.arguments[i]?

theorem Token.AlikeOn.fits_iff {axis : Axis} {t u : Token} (h : t.AlikeOn axis u) :
    t.Fits ↔ u.Fits := by
  rw [Fits, Fits, h.command, h.count]

theorem Token.AlikeOn.numbers_eq {axis : Axis} {t u : Token} (h : t.AlikeOn axis u) :
    t.numbers axis = u.numbers axis := by
  unfold Token.numbers
  rw [← h.command]
  exact List.filterMap_congr h.numbers

structure DrawnAlike (axis : Axis) (as bs : List Operation) : Prop where
  kinds : as.map Operation.kind = bs.map Operation.kind
  coordinates : as.map (·.coordinates axis) = bs.map (·.coordinates axis)

theorem DrawnAlike.append {axis : Axis} {as bs as' bs' : List Operation}
    (h : DrawnAlike axis as bs) (h' : DrawnAlike axis as' bs') :
    DrawnAlike axis (as ++ as') (bs ++ bs') where
  kinds := by rw [List.map_append, List.map_append, h.kinds, h'.kinds]
  coordinates := by rw [List.map_append, List.map_append, h.coordinates, h'.coordinates]

/-- Tokens that fit and are alike on the axis are drawn alike on it, from pens that are alike on
    it, and leave such pens. -/
theorem Token.AlikeOn.resolve {axis : Axis} {t u : Token} (h : t.AlikeOn axis u) (ht : t.Fits)
    {p q : Pen} (hp : p.point.coordinate axis = q.point.coordinate axis) :
    ∃ as bs p' q', t.resolve p = .ok (as, p') ∧ u.resolve q = .ok (bs, q') ∧
      DrawnAlike axis as bs ∧ p'.point.coordinate axis = q'.point.coordinate axis := by
  obtain ⟨as, p', has, hcas, hp'⟩ := Token.resolve_axis ht p axis
  obtain ⟨bs, q', hbs, hcbs, hq'⟩ := Token.resolve_axis (h.fits_iff.mp ht) q axis
  have hkinds : as.map Operation.kind = bs.map Operation.kind := by
    rw [Token.resolve_kinds has, Token.resolve_kinds hbs, h.command]
  rw [h.command, h.numbers_eq, hp] at hcas hp'
  refine ⟨as, bs, p', q', has, hbs, ⟨hkinds, hcas.trans hcbs.symm⟩, ?_⟩
  exact Option.some.inj (hp'.symm.trans hq')

/-- Tokens that are alike on an axis, resolved from pens that are alike on it, fail with the same
    error or are drawn as the same kinds of operations with the same coordinates on the axis; and
    the pens are alike on it afterwards. -/
theorem axes_apart (axis : Axis) {ts us : List Token}
    (h : List.Forall₂ (Token.AlikeOn axis) ts us) {p q : Pen}
    (hp : p.point.coordinate axis = q.point.coordinate axis) :
    ((∃ e, (resolveTokens ts p).1 = .error e ∧ (resolveTokens us q).1 = .error e) ∨
      ∃ as bs, (resolveTokens ts p).1 = .ok as ∧ (resolveTokens us q).1 = .ok bs ∧
        as.map Operation.kind = bs.map Operation.kind ∧
        as.map (·.coordinates axis) = bs.map (·.coordinates axis)) ∧
    (resolveTokens ts p).2.point.coordinate axis =
      (resolveTokens us q).2.point.coordinate axis := by
  induction h generalizing p q with
  | nil => exact ⟨.inr ⟨[], [], rfl, rfl, rfl, rfl⟩, hp⟩
  | @cons t u ts us htu _ ih =>
    by_cases ht : t.Fits
    · obtain ⟨as, bs, p', q', hr, hr', hdrawn, hmoved⟩ := htu.resolve ht hp
      obtain ⟨hresult, hlast⟩ := ih hmoved
      simp only [resolveTokens, hr, hr']
      refine ⟨?_, hlast⟩
      rcases hresult with ⟨e, he, he'⟩ | ⟨more, more', hm, hm', hkinds, hcoordinates⟩
      · exact .inl ⟨e, by rw [he]; rfl, by rw [he']; rfl⟩
      · have hboth := hdrawn.append ⟨hkinds, hcoordinates⟩
        exact .inr ⟨as ++ more, bs ++ more', by rw [hm]; rfl, by rw [hm']; rfl, hboth.kinds,
          hboth.coordinates⟩
    · -- the first token fits in neither list, so nothing is drawn and the pens do not move
      have hu : ¬ u.Fits := fun hu => ht (htu.fits_iff.mpr hu)
      have hr := Token.resolve_of_not_fits ht p
      have hr' := Token.resolve_of_not_fits hu q
      rw [htu.command, htu.count] at hr
      simp only [resolveTokens, hr, hr']
      exact ⟨.inl ⟨_, rfl, rfl⟩, hp⟩

/-- Every form of a command, with `w` for the numbers across and `h` for those down. -/
def zigzag (w h : Float) : List Token :=
  [⟨.move .absolute, [w, h]⟩, ⟨.horizontal .relative, [w]⟩, ⟨.vertical .relative, [h]⟩,
    ⟨.line .absolute, [w, h]⟩, ⟨.curve .relative, [w, h, w, h, w, h]⟩, ⟨.close, []⟩]

theorem zigzag_alikeOn_x (w h h' : Float) :
    List.Forall₂ (Token.AlikeOn .x) (zigzag w h) (zigzag w h') := by
  unfold zigzag
  repeat' constructor
  all_goals simp [Command.places]

theorem zigzag_alikeOn_y (w w' h : Float) :
    List.Forall₂ (Token.AlikeOn .y) (zigzag w h) (zigzag w' h) := by
  unfold zigzag
  repeat' constructor
  all_goals simp [Command.places]

/-- Another height and another pen keep the coordinates across, another width those down. -/
theorem axes_apart_zigzag :
    (∃ as bs, (resolveTokens (zigzag 3.0 2.0) ⟨⟨0.0, 7.0⟩, []⟩).1 = .ok as ∧
      (resolveTokens (zigzag 3.0 50.0) .fresh).1 = .ok bs ∧
      as.map Operation.kind = bs.map Operation.kind ∧
      as.map (·.coordinates .x) = bs.map (·.coordinates .x)) ∧
    (resolveTokens (zigzag 3.0 2.0) .fresh).2.point.y =
      (resolveTokens (zigzag 8.0 2.0) .fresh).2.point.y := by
  refine ⟨?_, (axes_apart .y (zigzag_alikeOn_y 3.0 8.0 2.0) rfl).2⟩
  rcases (axes_apart .x (zigzag_alikeOn_x 3.0 2.0 50.0) rfl).1 with ⟨e, he, -⟩ | hdrawn
  · cases he
  · exact hdrawn

end SvgDraw
