/-
  SvgDraw.Proofs.Path.NormalForm — operations written as path data.

  A move, a line and a curve each have an absolute command; strokes come with the lines and
  curves. `pathText` writes operations as these commands, with numbers as in scripts and single
  spaces in between.

  - Commands written so are read back, whatever the commands are, but for the signs of zeros
    (`tokenize_text`).
  - Absolute commands resolve to the operations they were made from, at any pen
    (`resolveTokens_tokens`), if every line and curve is followed by a stroke and no stroke stands
    elsewhere.
  - Compiled operations are of that form, and the pen ends where they lead
    (`compilePath_along`).

  So compiled operations are a normal form: written and compiled again, they are the same
  (`compilePath_pathText`).
-/

import SvgDraw.Proofs.Number.Readback
import SvgDraw.Proofs.Path.Trail
import SvgDraw.Script.Literal

namespace SvgDraw

open Number (unsigned isFinite)

/-! ## Path data of operations -/

def Token.text (t : Token) : String :=
  " ".intercalate
    (t.command.letter.toString :: t.arguments.map fun x => (Literal.number x).source)

/-- The absolute command that an operation is drawn by. A stroke belongs to the one before it. -/
def Operation.token? : Operation → Option Token
  | .moveTo p => some ⟨.move .absolute, [p.x, p.y]⟩
  | .lineTo p => some ⟨.line .absolute, [p.x, p.y]⟩
  | .curveTo c₁ c₂ p => some ⟨.curve .absolute, [c₁.x, c₁.y, c₂.x, c₂.y, p.x, p.y]⟩
  | .stroke => none

def pathText (operations : List Operation) : String :=
  " ".intercalate ((operations.filterMap Operation.token?).map Token.text)

/-! ## Signs of zeros -/

def Point.unsigned (p : Point) : Point := ⟨Number.unsigned p.x, Number.unsigned p.y⟩

def Token.unsigned (t : Token) : Token := { t with arguments := t.arguments.map Number.unsigned }

def Operation.unsigned : Operation → Operation
  | .moveTo p => .moveTo p.unsigned
  | .lineTo p => .lineTo p.unsigned
  | .curveTo c₁ c₂ p => .curveTo c₁.unsigned c₂.unsigned p.unsigned
  | .stroke => .stroke

/-- Coordinates counted from the origin lose the signs of zeros. -/
theorem origin_shift (p : Point) :
    Point.origin.shift (unsigned p.x) (unsigned p.y) = p.unsigned := by
  simp only [Point.shift, Point.origin, Number.zero_add_eq_unsigned, Number.unsigned_unsigned,
    Point.unsigned]

@[simp] theorem Operation.endpoint?_unsigned (o : Operation) :
    o.unsigned.endpoint? = o.endpoint?.map Point.unsigned := by
  cases o <;> rfl

/-! ## Reading what is written -/

theorem toList_source_number (x : Float) :
    (Literal.number x).source.toList = Number.Style.script.chars x :=
  String.toList_ofList

theorem intercalate_cons_eq_flatMap (a : List Char) (bs : List (List Char)) :
    [' '].intercalate (a :: bs) = a ++ bs.flatMap (' ' :: ·) := by
  induction bs generalizing a with
  | nil => simp
  | cons b bs ih => simp [List.intercalate_cons_cons, ih]

theorem Token.toList_text (t : Token) :
    t.text.toList =
      t.command.letter :: t.arguments.flatMap (' ' :: Number.Style.script.chars ·) := by
  simp [text, String.toList_intercalate, intercalate_cons_eq_flatMap, List.flatMap_map,
    toList_source_number, Function.comp_def]

def Spaced (rest : List Char) : Prop := ∀ c ∈ rest.head?, c = ' '

theorem Spaced.ends {rest : List Char} (h : Spaced rest) (text : List Char) : Ends text rest := by
  intro c hc
  rw [h c hc]
  exact ⟨by decide, fun h => absurd h (by decide)⟩

theorem spaced_nil : Spaced [] := by
  intro c hc
  cases hc

theorem spaced_cons (rest : List Char) : Spaced (' ' :: rest) := by
  intro c hc
  cases hc
  rfl

theorem blanks_space : Blanks [' '] := by
  intro c hc
  rw [List.mem_singleton.mp hc]
  decide

/-- Finite numbers behind spaces are arguments. -/
theorem arguments_spaced {lead : List Char → Prop} (hl : lead [' ']) {xs : List Float}
    (hx : ∀ x ∈ xs, isFinite x = true) {rest : List Char} (hr : Spaced rest) :
    Arguments lead (xs.map Number.Style.script.chars)
      (xs.flatMap (' ' :: Number.Style.script.chars ·) ++ rest) rest := by
  induction xs generalizing lead with
  | nil => exact .nil
  | cons x xs ih =>
    have hnumeral := (Number.read?_script (hx x List.mem_cons_self)).1
    have hmore := ih (IsSeparator.blanks blanks_space) fun y hy => hx y (List.mem_cons_of_mem x hy)
    have hspaced : Spaced (xs.flatMap (' ' :: Number.Style.script.chars ·) ++ rest) := by
      cases xs with
      | nil => exact hr
      | cons y ys => exact spaced_cons _
    have h := Arguments.cons hl hnumeral (hspaced.ends _) hmore
    simpa using h

theorem forall₂_read? {xs : List Float} (hx : ∀ x ∈ xs, isFinite x = true) :
    List.Forall₂ (Number.read? · = some ·) (xs.map Number.Style.script.chars)
      (xs.map unsigned) := by
  rw [List.forall₂_map_left_iff, List.forall₂_map_right_iff, List.forall₂_same]
  exact fun x h => (Number.read?_script (hx x h)).2

/-- A command that fits and has finite numbers is written as the grammar asks. -/
theorem PathData.text {t : Token} (hf : t.Fits) (hx : ∀ x ∈ t.arguments, isFinite x = true)
    {rest : List Char} (hr : Spaced rest) {tokens : List Token} (h : PathData tokens rest) :
    PathData (t.unsigned :: tokens) (t.text.toList ++ rest) := by
  rw [Token.toList_text, List.cons_append]
  refine .command (.inl rfl) ?_ (arguments_spaced blanks_space hx hr) (forall₂_read? hx) h
  rw [List.length_map]
  exact hf

theorem pathData_texts {tokens : List Token} (hf : ∀ t ∈ tokens, t.Fits)
    (hx : ∀ t ∈ tokens, ∀ x ∈ t.arguments, isFinite x = true) :
    PathData (tokens.map Token.unsigned) (" ".intercalate (tokens.map Token.text)).toList := by
  have hspace : " ".toList = [' '] := rfl
  rw [String.toList_intercalate, hspace]
  induction tokens with
  | nil => exact .done
  | cons t tokens ih =>
    have hmore := ih (fun u hu => hf u (List.mem_cons_of_mem t hu))
      fun u hu => hx u (List.mem_cons_of_mem t hu)
    have hfits := hf t List.mem_cons_self
    have hfinite := hx t List.mem_cons_self
    cases tokens with
    | nil => simpa using PathData.text hfits hfinite spaced_nil .done
    | cons u tokens =>
      have h := PathData.text hfits hfinite (spaced_cons _) (.blank (by decide) hmore)
      simpa [List.intercalate_cons_cons] using h

/-- Commands that fit and have finite numbers are read back from their texts. -/
theorem tokenize_text {tokens : List Token} (hf : ∀ t ∈ tokens, t.Fits)
    (hx : ∀ t ∈ tokens, ∀ x ∈ t.arguments, isFinite x = true) :
    tokenize (" ".intercalate (tokens.map Token.text)) = .ok (tokens.map Token.unsigned) := by
  obtain ⟨he, ht⟩ := Cursor.scan_complete (pathData_texts hf hx) 0
  simp only [tokenize, scan, Cursor.start, he, ht]

/-! ## Endpoints -/

theorem Stroked.endpoint_ne_nil {operations : List Operation} (h : Stroked operations)
    (hne : operations ≠ []) : operations.filterMap Operation.endpoint? ≠ [] := by
  intro he
  have hstroke : ∀ o ∈ operations, o.stroked = [] := by
    intro o ho
    have hend := List.filterMap_eq_nil_iff.mp he o ho
    cases o with
    | moveTo p => cases hend
    | lineTo p => cases hend
    | curveTo c₁ c₂ p => cases hend
    | stroke => rfl
  exact hne (h.symm.trans (List.flatMap_eq_nil_iff.mpr hstroke))

/-- Operations that lead somewhere lead to the same point from every pen. -/
theorem Stroked.point_along_unsigned {operations : List Operation} (h : Stroked operations)
    (hne : operations ≠ []) (p q : Pen) :
    (q.along (operations.map Operation.unsigned)).point =
      (p.along operations).point.unsigned := by
  have hlast := h.endpoint_ne_nil hne
  have hmap : (operations.map Operation.unsigned).filterMap Operation.endpoint? =
      (operations.filterMap Operation.endpoint?).map Point.unsigned := by
    rw [List.filterMap_map, List.map_filterMap]
    congr 1
    funext o
    exact o.endpoint?_unsigned
  rw [Pen.point_along, Pen.point_along, hmap, List.getLast?_map,
    List.getLast?_eq_some_getLast hlast]
  rfl

/-! ## Resolving -/

/-- The command that an operation is written as resolves to it, at any pen. -/
theorem Operation.resolve_token {o : Operation} {t : Token} (h : o.token? = some t) (pen : Pen) :
    t.unsigned.resolve pen = .ok (o.stroked.map Operation.unsigned, pen.along [o.unsigned]) := by
  cases o with
  | moveTo p =>
    cases h
    simp only [Token.unsigned, List.map_cons, List.map_nil, Token.resolve, Pen.base, origin_shift]
    rfl
  | lineTo p =>
    cases h
    simp only [Token.unsigned, List.map_cons, List.map_nil, Token.resolve, Pen.base, origin_shift]
    rfl
  | curveTo c₁ c₂ p =>
    cases h
    simp only [Token.unsigned, List.map_cons, List.map_nil, Token.resolve, Pen.base, origin_shift]
    rfl
  | stroke => cases h

theorem Operation.eq_stroke_of_token? {o : Operation} (h : o.token? = none) : o = .stroke := by
  cases o with
  | stroke => rfl
  | _ => cases h

/-- The commands that operations are written as resolve to the operations, at any pen. -/
theorem resolveTokens_tokens (operations : List Operation) (pen : Pen) :
    resolveTokens ((operations.filterMap Operation.token?).map Token.unsigned) pen =
      (.ok ((operations.flatMap Operation.stroked).map Operation.unsigned),
        pen.along (operations.map Operation.unsigned)) := by
  induction operations generalizing pen with
  | nil => rfl
  | cons o operations ih =>
    cases ht : o.token? with
    | none =>
      obtain rfl := Operation.eq_stroke_of_token? ht
      exact ih pen
    | some t =>
      rw [List.filterMap_cons_some ht]
      simp only [List.map_cons, resolveTokens, Operation.resolve_token ht, ih, Except.map,
        List.flatMap_cons, List.map_append, ← Pen.along_append, List.singleton_append]

/-! ## The normal form -/

theorem Operation.fits_token? {o : Operation} {t : Token} (h : o.token? = some t) :
    t.Fits ∧ t.arguments = o.arguments := by
  cases o <;> cases h <;> exact ⟨rfl, rfl⟩

/-- Operations with finite coordinates, written as path data, compile at any pen to the operations
    with their strokes and without the signs of zeros. -/
theorem compilePath_written {operations : List Operation}
    (hx : ∀ o ∈ operations, ∀ x ∈ o.arguments, isFinite x = true) (pen : Pen) :
    compilePath (pathText operations) pen =
      (.ok ((operations.flatMap Operation.stroked).map Operation.unsigned),
        pen.along (operations.map Operation.unsigned)) := by
  have hread : tokenize (pathText operations) =
      .ok ((operations.filterMap Operation.token?).map Token.unsigned) := by
    apply tokenize_text
    · intro t ht
      obtain ⟨o, -, hot⟩ := List.mem_filterMap.mp ht
      exact (Operation.fits_token? hot).1
    · intro t ht
      obtain ⟨o, ho, hot⟩ := List.mem_filterMap.mp ht
      rw [(Operation.fits_token? hot).2]
      exact hx o ho
  simp only [compilePath, hread, resolveTokens_tokens, Except.mapError]

/-- Compiled operations with finite coordinates, written as path data, compile to themselves at
    any pen, and lead to the same point; both but for the signs of zeros. -/
theorem compilePath_pathText {data : String} {pen : Pen} {operations : List Operation}
    (h : (compilePath data pen).1 = .ok operations)
    (hx : ∀ o ∈ operations, ∀ x ∈ o.arguments, isFinite x = true) (other : Pen) :
    (compilePath (pathText operations) other).1 = .ok (operations.map Operation.unsigned) ∧
      (operations ≠ [] →
        (compilePath (pathText operations) other).2.point =
          (compilePath data pen).2.point.unsigned) := by
  obtain ⟨hs, hpen⟩ := compilePath_along h
  rw [compilePath_written hx, hpen]
  refine ⟨?_, fun hne => hs.point_along_unsigned hne pen other⟩
  rw [hs]

/-- Relative, horizontal and vertical commands, a close and a negative zero, compiled again at
    another pen. -/
theorem compilePath_pathText_mixed :
    ∃ operations,
      (compilePath "m-0 1h2v-3.5c1 1 2 2 .5 .25zL0-1" ⟨⟨-0.0, 0.0⟩, []⟩).1 = .ok operations ∧
        pathText operations = "M 0 1 L 2 1 L 2 -2.5 C 3 -1.5 4 -0.5 2.5 -2.25 L 0 -1" ∧
        ∀ other : Pen,
          (compilePath (pathText operations) other).1 =
              .ok (operations.map Operation.unsigned) ∧
            (compilePath (pathText operations) other).2.point = ⟨0.0, -1.0⟩ := by
  have h : (compilePath "m-0 1h2v-3.5c1 1 2 2 .5 .25zL0-1" ⟨⟨-0.0, 0.0⟩, []⟩).1 =
      .ok [.moveTo ⟨-0.0, 1.0⟩, .lineTo ⟨2.0, 1.0⟩, .stroke, .lineTo ⟨2.0, -2.5⟩, .stroke,
        .curveTo ⟨3.0, -1.5⟩ ⟨4.0, -0.5⟩ ⟨2.5, -2.25⟩, .stroke, .lineTo ⟨0.0, -1.0⟩, .stroke] := by
    decide +kernel
  have hpoint : (compilePath "m-0 1h2v-3.5c1 1 2 2 .5 .25zL0-1"
      ⟨⟨-0.0, 0.0⟩, []⟩).2.point.unsigned = ⟨0.0, -1.0⟩ := by
    decide +kernel
  refine ⟨_, h, by decide +kernel, fun other => ?_⟩
  obtain ⟨hagain, hend⟩ := compilePath_pathText h (by decide +kernel) other
  exact ⟨hagain, (hend (List.cons_ne_nil _ _)).trans hpoint⟩

end SvgDraw
