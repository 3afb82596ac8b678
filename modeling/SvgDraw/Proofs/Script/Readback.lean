/-
  SvgDraw.Proofs.Script.Readback — what a program says about the run that wrote it.

  An edit tells the drawing context a few instructions, which `Edit.instructions` takes from the
  numbers, colours and gradient ids of the edit and from the ids that were defined before it; no
  script has a part in it. The statements of a run are those instructions, written one by one
  (`run_instructions`). Every instruction is written as a statement that is `Issued`, so the text
  of a program is read back statement by statement, up to the end that no statement begins like
  (`statements_unique`), and gives the size as well (`program_unique`). A statement shows its
  instruction up to how numbers are written (`printed_eq_of_same`).

  `program_faithful` adds that every statement is a line that cannot be taken for another one, and
  that runs go the same way whatever colours they are given.
-/

import SvgDraw.Proofs.Script.Colors
import SvgDraw.Proofs.Script.Gradients
import SvgDraw.Proofs.Script.Source

namespace SvgDraw.Script

/-! ## Instructions -/

/-- What a style is set to: a colour as it was given, or the gradient of the definition with this
    number. -/
inductive Ink where
  | color (text : String)
  | gradient (number : Nat)
  deriving DecidableEq

/-- What one statement tells the drawing context, with its numbers in `ν`. -/
inductive Instruction (ν : Type) where
  | beginPath
  | closePath
  | moveTo (x y : ν)
  | lineTo (x y : ν)
  | curveTo (x₁ y₁ x₂ y₂ x y : ν)
  | fill
  | stroke
  | setFill (ink : Ink)
  | setStroke (ink : Ink)
  | createGradient (number : Nat) (x₁ y₁ x₂ y₂ : ν)
  | addStop (number : Nat) (offset : ν) (color : String)
  deriving DecidableEq

def Instruction.printed : Instruction Float → Instruction String
  | .beginPath => .beginPath
  | .closePath => .closePath
  | .moveTo x y => .moveTo (Number.scriptText x) (Number.scriptText y)
  | .lineTo x y => .lineTo (Number.scriptText x) (Number.scriptText y)
  | .curveTo x₁ y₁ x₂ y₂ x y =>
    .curveTo (Number.scriptText x₁) (Number.scriptText y₁) (Number.scriptText x₂)
      (Number.scriptText y₂) (Number.scriptText x) (Number.scriptText y)
  | .fill => .fill
  | .stroke => .stroke
  | .setFill ink => .setFill ink
  | .setStroke ink => .setStroke ink
  | .createGradient number x₁ y₁ x₂ y₂ =>
    .createGradient number (Number.scriptText x₁) (Number.scriptText y₁) (Number.scriptText x₂)
      (Number.scriptText y₂)
  | .addStop number offset color => .addStop number (Number.scriptText offset) color

/-- What a paint comes to if `ids` were defined, in order; nothing if its id is not one of them. -/
def ink? (ids : List String) : Paint → Option Ink
  | .color text => some (.color text)
  | .gradient id => (lastIndex? ids id).map .gradient

def gradientInstructions (number : Nat) (g : LinearGradient) : List (Instruction Float) :=
  .createGradient number g.start.x g.start.y g.finish.x g.finish.y ::
    g.stops.map fun stop => .addStop number stop.offset stop.color

/-- What an edit tells the drawing context if `ids` were defined before it. -/
def Edit.instructions (ids : List String) : Edit → List (Instruction Float)
  | .define gradient => gradientInstructions ids.length gradient
  | .ask .beginPath => [.beginPath]
  | .ask .closePath => [.closePath]
  | .ask (.moveTo p) => [.moveTo p.x p.y]
  | .ask (.lineTo p) => [.lineTo p.x p.y]
  | .ask (.curveTo c₁ c₂ p) => [.curveTo c₁.x c₁.y c₂.x c₂.y p.x p.y]
  | .ask .fill => [.fill]
  | .ask .stroke => [.stroke]
  | .ask (.setFill paint) => ((ink? ids paint).map .setFill).toList
  | .ask (.setStroke paint) => ((ink? ids paint).map .setStroke).toList
  | .ask (.register gradient) => gradientInstructions ids.length gradient
  | .ask (.resize _ _) => []

def instructions (ids : List String) : List Edit → List (Instruction Float)
  | [] => []
  | e :: edits => e.instructions ids ++ instructions (ids ++ definedIds [e]) edits

def Effect.size? : Effect → Option (Float × Float)
  | .resize width height => some (width, height)
  | _ => none

/-- The size that the last of the edits to set one sets. -/
def finalSize (edits : List Edit) : Float × Float :=
  (edits.filterMap (·.effect.size?)).getLastD (defaultSize, defaultSize)

/-! ## How instructions are written -/

def Ink.literal : Ink → Literal
  | .color text => .text text
  | .gradient number => .raw (gradientName number)

def Instruction.statement (receiver : String) : Instruction Float → Statement
  | .beginPath => .call receiver "beginPath" []
  | .closePath => .call receiver "closePath" []
  | .moveTo x y => .call receiver "moveTo" [.number x, .number y]
  | .lineTo x y => .call receiver "lineTo" [.number x, .number y]
  | .curveTo x₁ y₁ x₂ y₂ x y =>
    .call receiver "bezierCurveTo"
      [.number x₁, .number y₁, .number x₂, .number y₂, .number x, .number y]
  | .fill => .call receiver "fill" []
  | .stroke => .call receiver "stroke" []
  | .setFill ink => .assign receiver "fillStyle" ink.literal
  | .setStroke ink => .assign receiver "strokeStyle" ink.literal
  | .createGradient number x₁ y₁ x₂ y₂ =>
    .declare (gradientName number) receiver "createLinearGradient"
      [.number x₁, .number y₁, .number x₂, .number y₂]
  | .addStop number offset color =>
    .call (gradientName number) "addColorStop" [.number offset, .text color]

variable {receiver : String} {ids : List String} {s : Script}

theorem Ink.literal_issued (ink : Ink) : ink.literal.Issued := by
  cases ink with
  | color text => trivial
  | gradient number => exact ⟨number, rfl⟩

theorem Instruction.statement_issued (hr : IsName receiver) (i : Instruction Float) :
    (i.statement receiver).Issued := by
  cases i with
  | setFill ink => exact ⟨hr, by decide, ink.literal_issued⟩
  | setStroke ink => exact ⟨hr, by decide, ink.literal_issued⟩
  | createGradient number x₁ y₁ x₂ y₂ =>
    refine ⟨isName_gradientName number, hr, by decide, ?_⟩
    simp [Literal.Issued]
  | addStop number offset color =>
    refine ⟨isName_gradientName number, by decide, ?_⟩
    simp [Literal.Issued]
  | _ =>
    refine ⟨hr, by decide, ?_⟩
    simp [Literal.Issued]

theorem Ink.eq_of_same {a b : Ink} (h : a.literal.Same b.literal) : a = b := by
  cases a with
  | color text =>
    cases b with
    | color text' => exact congrArg Ink.color h
    | gradient number => cases h
  | gradient number =>
    cases b with
    | color text => cases h
    | gradient number' => exact congrArg Ink.gradient (gradientName_injective h)

/-- A statement shows which instruction it is, up to how numbers are written. -/
theorem Instruction.printed_eq_of_same {a b : Instruction Float}
    (h : (a.statement receiver).Same (b.statement receiver)) : a.printed = b.printed := by
  -- Instructions of two kinds differ in their method or property, so only the diagonal is left.
  cases a <;> cases b <;>
    simp only [Instruction.statement, Statement.Same, String.reduceEq, false_and, and_false] at h
  case setFill.setFill a b => exact congrArg Instruction.setFill (Ink.eq_of_same h.2.2)
  case setStroke.setStroke a b => exact congrArg Instruction.setStroke (Ink.eq_of_same h.2.2)
  all_goals simp_all [Instruction.printed, Literal.Same, gradientName_injective.eq_iff]

/-! ## The statements of a run -/

theorem Kept.binding (h : Kept receiver ids s) (id : String) :
    s.bindings[id]? = lastIndex? ids id := by
  apply Option.ext
  intro k
  rw [h.bound, lastIndex?_eq_some_iff]

/-- A style is set to what its paint comes to, and not at all if that is nothing. -/
theorem Kept.added_style (h : Kept receiver ids s) {property : String}
    {make : Ink → Instruction Float} (paint : Paint)
    (hmake : ∀ ink, (make ink).statement receiver = .assign receiver property ink.literal) :
    s.added (.style property paint) =
      (((ink? ids paint).map make).toList).map (Instruction.statement receiver) := by
  cases paint with
  | color text => simp [added, paintLiteral, ink?, Ink.literal, hmake, h.receiver]
  | gradient id =>
    simp only [added, paintLiteral, resolve, boundName?, ink?, h.binding, h.receiver]
    cases lastIndex? ids id with
    | none => rfl
    | some k => simp [Except.map, Ink.literal, hmake]

theorem Kept.gradientStatements_eq (h : Kept receiver ids s) (g : LinearGradient) :
    s.gradientStatements g =
      (gradientInstructions ids.length g).map (Instruction.statement receiver) := by
  simp [gradientStatements, gradientInstructions, Instruction.statement, nextName, h.receiver,
    h.definitions]

/-- An edit appends the statements of its instructions. -/
theorem Kept.added_eq (h : Kept receiver ids s) (e : Edit) :
    s.added e.effect = (e.instructions ids).map (Instruction.statement receiver) := by
  cases e with
  | define gradient => exact h.gradientStatements_eq gradient
  | ask call =>
    cases call with
    | register gradient => exact h.gradientStatements_eq gradient
    | setFill paint => exact h.added_style paint fun _ => rfl
    | setStroke paint => exact h.added_style paint fun _ => rfl
    | resize width height => rfl
    | _ => simp [added, Edit.effect, Edit.instructions, Instruction.statement, h.receiver]

theorem Kept.run_statements (h : Kept receiver ids s) (edits : List Edit) :
    (s.run edits).statements.toList = s.statements.toList ++
      (instructions ids edits).map (Instruction.statement receiver) := by
  induction edits generalizing s ids with
  | nil => simp [instructions]
  | cons e edits ih =>
    have hnext : Kept receiver (ids ++ definedIds [e]) (s.edit e).state := by
      rw [edit_eq_enact, definedIds_singleton]
      exact h.step e.effect
    rw [run_cons, ih hnext, instructions, List.map_append, ← h.added_eq, edit_eq_enact,
      enact_statements, List.append_assoc]

/-- The statements of a run are its instructions. -/
theorem run_instructions (receiver : String) (edits : List Edit) :
    ((empty receiver).run edits).statements.toList =
      (instructions [] edits).map (Instruction.statement receiver) :=
  (kept_empty receiver).run_statements edits

theorem run_issued (hr : IsName receiver) (edits : List Edit) :
    ∀ st ∈ ((empty receiver).run edits).statements, st.Issued := by
  intro st hst
  rw [← Array.mem_toList_iff, run_instructions] at hst
  obtain ⟨i, -, rfl⟩ := List.mem_map.mp hst
  exact i.statement_issued hr

theorem enact_size (s : Script) (effect : Effect) :
    ((s.enact effect).state.width, (s.enact effect).state.height) =
      effect.size?.getD (s.width, s.height) := by
  cases effect with
  | define gradient => simp [enact, define_eq, Effect.size?]
  | invoke method numbers => rfl
  | resize width height => rfl
  | style property paint =>
    simp only [enact]
    cases s.paintLiteral paint with
    | error failure => rfl
    | ok value => rfl

theorem run_size (receiver : String) (edits : List Edit) :
    (((empty receiver).run edits).width, ((empty receiver).run edits).height) =
      finalSize edits := by
  induction edits using List.reverseRecOn with
  | nil => rfl
  | append_singleton edits e ih =>
    rw [run_concat, edit_eq_enact, enact_size, ih]
    cases he : e.effect.size? with
    | none => simp [finalSize, he]
    | some size => simp [finalSize, he]

/-! ## Reading a program back -/

def body (statements : List Statement) : List Char :=
  statements.flatMap fun st => st.source.toList

/-- No statement begins like the end of the program. -/
theorem source_ne_epilogue {st : Statement} (h : st.Issued) (rest : List Char) :
    st.source.toList ++ rest ≠ epilogue.toList := by
  have hend : ∃ tail, epilogue.toList = "return".toList ++ ' ' :: tail := ⟨_, rfl⟩
  obtain ⟨tail, htail⟩ := hend
  rw [htail, Statement.toList_source, List.append_assoc]
  cases st with
  | declare name target method arguments =>
    intro heq
    exact absurd (List.cons.inj heq).1 (by decide)
  | call target method arguments => exact Statement.dotted_ne_blank h rfl (by decide)
  | assign target property value => exact Statement.dotted_ne_blank h rfl (by decide)

theorem statements_unique {as bs : List Statement} (has : ∀ a ∈ as, a.Issued)
    (hbs : ∀ b ∈ bs, b.Issued) (h : body as ++ epilogue.toList = body bs ++ epilogue.toList) :
    List.Forall₂ Statement.Same as bs := by
  -- Both lists end together, since the end of the program is not the beginning of a statement.
  induction as generalizing bs with
  | nil =>
    cases bs with
    | nil => exact .nil
    | cons b bs =>
      rw [List.forall_mem_cons] at hbs
      rw [body, body, List.flatMap_cons, List.append_assoc] at h
      exact absurd h.symm (source_ne_epilogue hbs.1 _)
  | cons a as ih =>
    rw [List.forall_mem_cons] at has
    cases bs with
    | nil =>
      rw [body, body, List.flatMap_cons, List.append_assoc] at h
      exact absurd h (source_ne_epilogue has.1 _)
    | cons b bs =>
      rw [List.forall_mem_cons] at hbs
      rw [body, body, List.flatMap_cons, List.flatMap_cons, List.append_assoc,
        List.append_assoc] at h
      obtain ⟨hsame, hrest⟩ := Statement.source_unique has.1 hbs.1 h
      exact .cons hsame (ih has.2 hbs.2 hrest)

def linesText (lines : List Line) : List Char :=
  lines.flatMap fun l => l.source.toList ++ ['\n']

theorem toList_program (s : Script) :
    s.program.toList = linesText s.headLines ++ (body s.statements.toList ++ epilogue.toList) := by
  simp [program, prologue, linesText, body, String.toList_join, List.flatMap_map]

/-- The line of a side shows the length as it is written. -/
theorem sideLine_unique {side : String} {a b : Float} {x y : List Char}
    (h : (sideLine side a).source.toList ++ x = (sideLine side b).source.toList ++ y) :
    Number.scriptText a = Number.scriptText b ∧ x = y := by
  have hnumber := Number.numberChar_of_mem_scriptText
  have hstop : ∀ rest, Stops Number.numberChar (");".toList ++ rest) := by
    intro rest
    exact stops_cons.mpr (by decide : Number.numberChar ')' = false)
  simp only [sideLine, Line.source, String.toList_append, List.append_assoc,
    List.append_cancel_left_eq] at h
  obtain ⟨hab, hrest⟩ := split_unique (hnumber a) (hnumber b) (hstop x) (hstop y) h
  exact ⟨String.toList_inj.mp hab, List.append_cancel_left hrest⟩

/-- A program is read back: its size as it is written, and its statements one by one. -/
theorem program_unique {s t : Script} (hs : ∀ st ∈ s.statements, st.Issued)
    (ht : ∀ st ∈ t.statements, st.Issued) (hr : s.receiver = t.receiver)
    (h : s.program = t.program) :
    List.Forall₂ Statement.Same s.statements.toList t.statements.toList ∧
      Number.scriptText s.width = Number.scriptText t.width ∧
      Number.scriptText s.height = Number.scriptText t.height := by
  have htext := congrArg String.toList h
  simp only [toList_program, headLines, linesText, hr, List.flatMap_append, List.flatMap_cons,
    List.append_assoc, List.append_cancel_left_eq] at htext
  obtain ⟨hwidth, htext⟩ := sideLine_unique htext
  rw [List.append_cancel_left_eq] at htext
  obtain ⟨hheight, htext⟩ := sideLine_unique htext
  simp only [List.append_cancel_left_eq] at htext
  refine ⟨statements_unique ?_ ?_ htext, hwidth, hheight⟩
  · simpa using hs
  · simpa using ht

/-- Statements that are the same show the same instructions. -/
theorem printed_eq_of_same {is js : List (Instruction Float)}
    (h : List.Forall₂ Statement.Same (is.map (Instruction.statement receiver))
      (js.map (Instruction.statement receiver))) :
    is.map Instruction.printed = js.map Instruction.printed := by
  rw [List.forall₂_map_left_iff, List.forall₂_map_right_iff] at h
  rw [← List.forall₂_eq_eq_eq, List.forall₂_map_left_iff, List.forall₂_map_right_iff]
  exact h.imp fun i j => Instruction.printed_eq_of_same

/-! ## Every run -/

/-- A program is faithful to the run that wrote it. Each statement is one line, and no statement
    can be taken for another one, whatever follows it. The statements are the instructions of the
    edits, one each, and the size is the one set last. Two runs with the same program gave the
    same instructions in the same order: of the same kind, with numbers that are written alike,
    the same colours and the same gradients; and the same size as it is written. And two runs that
    differ in colours only differ in the colours of their statements only. -/
theorem program_faithful {receiver : String} (hr : IsName receiver) (edits₁ edits₂ : List Edit) :
    let s₁ := (empty receiver).run edits₁
    let s₂ := (empty receiver).run edits₂
    let given₁ := instructions [] edits₁
    let given₂ := instructions [] edits₂
    (∀ st ∈ s₁.statements, ∃ line, st.source.toList = line ++ ['\n'] ∧ '\n' ∉ line) ∧
    (∀ a ∈ s₁.statements, ∀ b ∈ s₂.statements, ∀ x y,
      a.source.toList ++ x = b.source.toList ++ y → a.Same b ∧ x = y) ∧
    s₁.statements.toList = given₁.map (Instruction.statement receiver) ∧
    (s₁.width, s₁.height) = finalSize edits₁ ∧
    (s₁.program = s₂.program →
      s₁.statements.size = s₂.statements.size ∧
      given₁.map Instruction.printed = given₂.map Instruction.printed ∧
      Number.scriptText s₁.width = Number.scriptText s₂.width ∧
      Number.scriptText s₁.height = Number.scriptText s₂.height) ∧
    (edits₁.map Edit.uncolored = edits₂.map Edit.uncolored →
      s₁.statements.map Statement.uncolored = s₂.statements.map Statement.uncolored) := by
  intro s₁ s₂ given₁ given₂
  have hissued₁ := run_issued hr edits₁
  have hissued₂ := run_issued hr edits₂
  have hgiven₁ : s₁.statements.toList = _ := run_instructions receiver edits₁
  have hgiven₂ : s₂.statements.toList = _ := run_instructions receiver edits₂
  refine ⟨?_, ?_, hgiven₁, run_size receiver edits₁, ?_, statements_of_uncolored_eq receiver⟩
  · intro st hst
    exact Statement.source_line (hissued₁ st hst)
  · intro a ha b hb x y h
    exact Statement.source_unique (hissued₁ a ha) (hissued₂ b hb) h
  · intro h
    have hreceiver : s₁.receiver = s₂.receiver :=
      (run_receiver _ edits₁).trans (run_receiver _ edits₂).symm
    obtain ⟨hsame, hwidth, hheight⟩ := program_unique hissued₁ hissued₂ hreceiver h
    have hlength := hsame.length_eq
    rw [hgiven₁, hgiven₂] at hsame
    exact ⟨by simpa using hlength, printed_eq_of_same hsame, hwidth, hheight⟩

/-- A colour that tries to end its statement and to begin another one, between a gradient and the
    paint that it is used for. -/
def hostileEdits : List Edit :=
  [.ask (.register ⟨"a", ⟨0, 0⟩, ⟨1, 0⟩, [⟨0.5, "red');\nctx.fill();"⟩]⟩),
   .ask (.moveTo ⟨0.0, 2⟩),
   .ask (.setFill (.gradient "a")),
   .ask (.setFill (.gradient "b")),
   .ask .fill]

/-- Other edits with the same program: the gradient has another id, a zero is negative, and there
    is no call that is refused. -/
def renamedEdits : List Edit :=
  [.define ⟨"b", ⟨-0.0, 0⟩, ⟨1, 0⟩, [⟨0.5, "red');\nctx.fill();"⟩]⟩,
   .ask (.moveTo ⟨-0.0, 2⟩),
   .ask (.setFill (.gradient "b")),
   .ask .fill]

theorem program_faithful_hostileEdits :
    IsName "ctx" ∧
    (∀ st ∈ ((empty "ctx").run hostileEdits).statements,
      ∃ line, st.source.toList = line ++ ['\n'] ∧ '\n' ∉ line) ∧
    ((empty "ctx").run hostileEdits).program = ((empty "ctx").run renamedEdits).program ∧
    (instructions [] hostileEdits).map Instruction.printed =
      (instructions [] renamedEdits).map Instruction.printed ∧
    ((empty "ctx").run (hostileEdits.map Edit.uncolored)).statements.map Statement.uncolored =
      ((empty "ctx").run hostileEdits).statements.map Statement.uncolored := by
  have hr : IsName "ctx" := by decide
  have hprogram : ((empty "ctx").run hostileEdits).program =
      ((empty "ctx").run renamedEdits).program := by
    decide +kernel
  obtain ⟨hlines, -, -, -, hread, -⟩ := program_faithful hr hostileEdits renamedEdits
  obtain ⟨-, -, -, -, -, hcolors⟩ :=
    program_faithful hr (hostileEdits.map Edit.uncolored) hostileEdits
  exact ⟨hr, hlines, hprogram, (hread hprogram).2.1, hcolors rfl⟩

end SvgDraw.Script
