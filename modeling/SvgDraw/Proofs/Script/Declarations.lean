/-
  SvgDraw.Proofs.Script.Declarations — which constants a program declares, and when one twice.

  A program is a list of lines (`lines`, `program_eq_lines`), and some of its lines declare a
  constant: one for the id of the canvas, one for the canvas, one for the receiver, and one for
  each definition of a gradient (`constants_eq`). If the receiver is a name, they are what a
  reader of the text finds (`constantsIn_program`). Definitions take the numbers from zero up, one
  by one (`run_numbered`), so a run declares a constant twice exactly if its receiver is one of the
  other names (`constants_nodup_iff`).

  Runs are made of `Task`s: edits, and whole documents rendered into the script. A rendering comes
  to the edits that its calls are (`perform_eq_run`).
-/

import Mathlib.Data.List.Nodup
import SvgDraw.Proofs.Document.Refusal
import SvgDraw.Proofs.Script.Engine
import SvgDraw.Proofs.Script.Readback

namespace SvgDraw

/-! ## Lines -/

def Line.declared? : Line → Option String
  | .constant name _ => some name
  | .plain _ => none

def Statement.line : Statement → Line
  | .call target method arguments => .plain (callSource target method arguments ++ ";")
  | .assign target property value =>
    .plain (target ++ "." ++ property ++ " = " ++ value.source ++ ";")
  | .declare name target method arguments => .constant name (callSource target method arguments)

theorem Statement.source_eq_line (st : Statement) : st.source = st.line.source ++ "\n" := by
  cases st <;> simp [Statement.source, Statement.line, Line.source, String.append_assoc]

theorem Statement.declared?_line (st : Statement) : st.line.declared? = st.declared? := by
  cases st <;> rfl

namespace Script

def lines (s : Script) : List Line :=
  s.headLines ++ (s.statements.toList.map Statement.line ++ tailLines)

def constants (s : Script) : List String :=
  s.lines.filterMap Line.declared?

theorem constants_eq (s : Script) :
    s.constants =
      ["id", "canvas", s.receiver] ++ s.statements.toList.filterMap Statement.declared? := by
  have hstatements : (s.statements.toList.map Statement.line).filterMap Line.declared? =
      s.statements.toList.filterMap Statement.declared? := by
    rw [List.filterMap_map]
    exact List.filterMap_congr fun st _ => st.declared?_line
  have hhead : s.headLines.filterMap Line.declared? = ["id", "canvas", s.receiver] := rfl
  have htail : tailLines.filterMap Line.declared? = [] := rfl
  rw [constants, lines, List.filterMap_append, List.filterMap_append, hhead, hstatements, htail,
    List.append_nil]

/-! ## The text -/

/-- Lines in front of other lines are written with an end each. -/
theorem intercalate_append (ls : List String) {rest : List String} (h : rest ≠ []) :
    "\n".intercalate (ls ++ rest) = String.join (ls.map (· ++ "\n")) ++ "\n".intercalate rest := by
  induction ls with
  | nil => simp
  | cons l ls ih =>
    rw [List.cons_append,
      String.intercalate_cons_of_ne_nil (List.append_ne_nil_of_right_ne_nil ls h), ih]
    simp [String.append_assoc]

/-- A program is its lines, with the ends of lines between them. -/
theorem program_eq_lines (s : Script) :
    s.program = "\n".intercalate (s.lines.map Line.source) := by
  have hstatements : s.statements.toList.map Statement.source =
      (s.statements.toList.map Statement.line).map (·.source ++ "\n") := by
    rw [List.map_map]
    exact List.map_congr_left fun st _ => st.source_eq_line
  have htail : tailLines.map Line.source ≠ [] := by decide
  have hrest : (s.statements.toList.map Statement.line).map Line.source ++
      tailLines.map Line.source ≠ [] := List.append_ne_nil_of_right_ne_nil _ htail
  rw [lines, List.map_append, List.map_append, intercalate_append _ hrest,
    intercalate_append _ htail, program, prologue, epilogue, hstatements]
  simp [String.append_assoc, Function.comp_def]

/-- The name that the text of a line declares, if it begins like a declaration. -/
def declaredIn? (line : List Char) : Option String :=
  (afterHead? "const ".toList line).map fun rest => .ofList (rest.takeWhile (· ≠ ' '))

def constantsIn (text : String) : List String :=
  (text.toList.splitOn '\n').filterMap declaredIn?

end Script

/-- The line is read from a text as what it is. -/
structure Line.Readable (l : Line) : Prop where
  whole : '\n' ∉ l.source.toList
  declared : Script.declaredIn? l.source.toList = l.declared?

instance (l : Line) : Decidable l.Readable :=
  decidable_of_iff
    ('\n' ∉ l.source.toList ∧ Script.declaredIn? l.source.toList = l.declared?)
    ⟨fun h => ⟨h.1, h.2⟩, fun h => ⟨h.whole, h.declared⟩⟩

namespace Script

theorem declaredIn?_eq_none {line : List Char}
    (h : ∀ rest, line ≠ "const".toList ++ ' ' :: rest) : declaredIn? line = none := by
  have hhead : ¬ "const ".toList.isPrefixOf line := by
    intro hp
    obtain ⟨rest, hr⟩ := List.isPrefixOf_iff_prefix.mp hp
    exact h rest hr.symm
  simp only [declaredIn?, afterHead?, if_neg hhead, Option.map_none]

theorem declaredIn?_const {name : String} (h : IsName name) (rest : List Char) :
    declaredIn? ("const ".toList ++ (name.toList ++ ' ' :: rest)) = some name := by
  have hname : ∀ c ∈ name.toList, decide (c ≠ ' ') = true := by
    intro c hc
    have := h.chars c hc
    simp [nameChar] at this ⊢
    exact this.1
  have htake : (name.toList ++ ' ' :: rest).takeWhile (· ≠ ' ') = name.toList :=
    takeWhile_append_stops hname (stops_cons.mpr (by decide))
  have hhead : "const ".toList.isPrefixOf ("const ".toList ++ (name.toList ++ ' ' :: rest)) :=
    List.isPrefixOf_iff_prefix.mpr (List.prefix_append _ _)
  simp only [declaredIn?, afterHead?, if_pos hhead, List.drop_left, Option.map_some, htake,
    String.ofList_toList]

theorem constant_readable {name value : String} (hn : IsName name) (hv : '\n' ∉ value.toList) :
    (Line.constant name value).Readable := by
  have hsource : (Line.constant name value).source.toList =
      "const ".toList ++ (name.toList ++ ' ' :: ("= ".toList ++ value.toList ++ [';'])) := by
    simp [Line.source]
  constructor
  · rw [hsource]
    simp [Statement.newline_not_mem_name hn, hv]
  · rw [hsource]
    exact declaredIn?_const hn _

/-- A line that sets a side of the canvas begins otherwise than a declaration. -/
theorem sideLine_readable {side : String} (hn : '\n' ∉ side.toList) (x : Float) :
    (sideLine side x).Readable := by
  have hx : '\n' ∉ (Number.scriptText x).toList := by
    intro h
    cases Number.numberChar_of_mem_scriptText x _ h
  constructor
  · simp [sideLine, Line.source, hn, hx]
  · refine declaredIn?_eq_none fun rest h => ?_
    simp [sideLine, Line.source] at h

theorem toList_line_source (st : Statement) : st.line.source.toList = st.text ++ [';'] := by
  have h := st.toList_source
  rw [st.source_eq_line, String.toList_append] at h
  exact List.append_cancel_right (h.trans (List.append_assoc st.text [';'] ['\n']).symm)

theorem line_readable {st : Statement} (h : st.Issued) : st.line.Readable := by
  cases hd : st.declared? with
  | none =>
    constructor
    · simp [toList_line_source, Statement.newline_not_mem_text h]
    · rw [st.declared?_line, hd, toList_line_source]
      exact declaredIn?_eq_none fun rest => Statement.dotted_ne_blank h hd Statement.isName_keyword
  | some name =>
    cases st with
    | declare name target method arguments =>
      have hcall : '\n' ∉ (Statement.callSource target method arguments).toList := by
        rw [Statement.toList_callSource]
        exact Statement.newline_not_mem_callText h.2
      exact constant_readable h.1 hcall
    | _ => cases hd

theorem canvasLines_readable : ∀ l ∈ canvasLines, l.Readable := by
  decide

theorem headLines_readable {s : Script} (hr : IsName s.receiver) :
    ∀ l ∈ s.headLines, l.Readable := by
  intro l hl
  rcases List.mem_append.mp hl with hl | hl
  · exact canvasLines_readable l hl
  · simp only [List.mem_cons, List.not_mem_nil, or_false] at hl
    rcases hl with rfl | rfl | rfl | rfl | rfl
    · exact sideLine_readable (by decide) _
    · exact sideLine_readable (by decide) _
    · exact constant_readable hr (by decide)
    · decide
    · decide

theorem tailLines_readable : ∀ l ∈ tailLines, l.Readable := by
  decide

theorem lines_readable {s : Script} (hr : IsName s.receiver)
    (hs : ∀ st ∈ s.statements, st.Issued) : ∀ l ∈ s.lines, l.Readable := by
  intro l hl
  rcases List.mem_append.mp hl with hl | hl
  · exact headLines_readable hr l hl
  · rcases List.mem_append.mp hl with hl | hl
    · obtain ⟨st, hst, rfl⟩ := List.mem_map.mp hl
      exact line_readable (hs st (Array.mem_toList_iff.mp hst))
    · exact tailLines_readable l hl

/-- The lines of a program are found in its text, and so are the constants. -/
theorem constantsIn_program {s : Script} (hr : IsName s.receiver)
    (hs : ∀ st ∈ s.statements, st.Issued) : constantsIn s.program = s.constants := by
  have hreadable := lines_readable hr hs
  have hsplit : s.program.toList.splitOn '\n' = s.lines.map (·.source.toList) := by
    have hne : s.lines.map (·.source.toList) ≠ [] := by simp [lines, headLines]
    rw [program_eq_lines, String.toList_intercalate, List.map_map]
    refine List.splitOn_intercalate '\n' ?_ hne
    intro text htext
    obtain ⟨l, hl, rfl⟩ := List.mem_map.mp htext
    exact (hreadable l hl).whole
  rw [constantsIn, hsplit, List.filterMap_map, constants]
  exact List.filterMap_congr fun l hl => (hreadable l hl).declared

/-! ## Numbers -/

/-- The statements of the script declare the constants of its definitions, each once, in order. -/
def Numbered (s : Script) : Prop :=
  s.statements.toList.filterMap Statement.declared? = (List.range s.definitions).map gradientName

theorem numbered_empty (receiver : String) : (empty receiver).Numbered := rfl

/-- A definition declares the next constant, and nothing else declares one. -/
theorem declared_added (s : Script) (effect : Effect) :
    (s.added effect).filterMap Statement.declared? =
      effect.defined?.toList.map fun _ => s.nextName := by
  cases effect with
  | define gradient =>
    have hstops : (gradient.stops.map fun stop => Statement.call s.nextName "addColorStop"
        [.number stop.offset, .text stop.color]).filterMap Statement.declared? = [] := by
      rw [List.filterMap_map]
      exact List.filterMap_eq_nil_iff.mpr fun _ _ => rfl
    show (_ :: _).filterMap Statement.declared? = _
    rw [List.filterMap_cons, hstops]
    rfl
  | invoke method numbers => rfl
  | style property paint =>
    simp only [added]
    cases s.paintLiteral paint with
    | error failure => rfl
    | ok value => rfl
  | resize width height => rfl

theorem Numbered.enact {s : Script} (h : s.Numbered) (effect : Effect) :
    (s.enact effect).state.Numbered := by
  unfold Numbered
  rw [enact_statements, List.filterMap_append, h, declared_added]
  cases hd : effect.defined? with
  | none => simp [(s.enact_gradients hd).1]
  | some id =>
    cases effect with
    | define gradient =>
      have hnext : (s.enact (.define gradient)).state.definitions = s.definitions + 1 := by
        simp [Script.enact, define_eq]
      simp [hnext, List.range_succ, nextName]
    | _ => cases hd

theorem run_numbered {s : Script} (h : s.Numbered) (edits : List Edit) :
    (s.run edits).Numbered := by
  induction edits generalizing s with
  | nil => exact h
  | cons e edits ih =>
    rw [run_cons, edit_eq_enact]
    exact ih (h.enact e.effect)

/-! ## Runs with renderings -/

inductive Task where
  | edit (e : Edit)
  | render (options : Document.Options) (reading : Markup.Reading)

def perform (s : Script) : Task → Script
  | .edit e => (s.edit e).state
  | .render options reading => (Document.replyTo surface options reading s).state

/-- The script after tasks in order, those that failed included. -/
def performAll (s : Script) (tasks : List Task) : Script :=
  tasks.foldl perform s

def editsOf (s : Script) : Task → List Edit
  | .edit e => [e]
  | .render options reading => (Document.callsFor surface options reading s).map .ask

def allEdits (s : Script) : List Task → List Edit
  | [] => []
  | task :: tasks => s.editsOf task ++ (s.perform task).allEdits tasks

def definitionCount (s : Script) (tasks : List Task) : Nat :=
  (definedIds (s.allEdits tasks)).length

theorem run_append (s : Script) (es fs : List Edit) : s.run (es ++ fs) = (s.run es).run fs := by
  simp only [run, List.foldl_append]

theorem run_ask (s : Script) (calls : List Call) :
    s.run (calls.map .ask) = surface.after s calls := by
  simp only [run, Surface.after, List.foldl_map]
  rfl

theorem perform_eq_run (s : Script) (task : Task) : s.perform task = s.run (s.editsOf task) := by
  cases task with
  | edit e => rfl
  | render options reading =>
    show (Document.replyTo surface options reading s).state = _
    rw [(Document.replyTo_outcome surface options reading s).1]
    exact (s.run_ask _).symm

theorem performAll_eq_run (s : Script) (tasks : List Task) :
    s.performAll tasks = s.run (s.allEdits tasks) := by
  induction tasks generalizing s with
  | nil => rfl
  | cons task tasks ih =>
    show (s.perform task).performAll tasks = _
    rw [ih, allEdits, run_append, ← perform_eq_run]

theorem performAll_constants (receiver : String) (tasks : List Task) :
    ((empty receiver).performAll tasks).constants =
      ["id", "canvas", receiver] ++
        (List.range ((empty receiver).definitionCount tasks)).map gradientName := by
  have hkept := run_kept receiver ((empty receiver).allEdits tasks)
  have hnumbered := run_numbered (numbered_empty receiver) ((empty receiver).allEdits tasks)
  rw [constants_eq, performAll_eq_run, hnumbered, hkept.receiver, hkept.definitions,
    definitionCount]

/-! ## Names that clash -/

theorem gradientName_ne (k : Nat) (name : String)
    (h : "gradient".toList.isPrefixOf name.toList = false) : gradientName k ≠ name := by
  intro heq
  have hbegins : "gradient".toList.isPrefixOf name.toList = true := by
    rw [← heq, gradientName, String.toList_append]
    exact List.isPrefixOf_iff_prefix.mpr (List.prefix_append _ _)
  rw [hbegins] at h
  cases h

theorem nodup_names_iff (receiver : String) (n : Nat) :
    (["id", "canvas", receiver] ++ (List.range n).map gradientName).Nodup ↔
      receiver ≠ "id" ∧ receiver ≠ "canvas" ∧ ∀ k < n, receiver ≠ gradientName k := by
  have hgradients : ((List.range n).map gradientName).Nodup :=
    List.Nodup.map gradientName_injective List.nodup_range
  have hid : "id" ∉ (List.range n).map gradientName := by
    simp [gradientName_ne _ "id" (by decide)]
  have hcanvas : "canvas" ∉ (List.range n).map gradientName := by
    simp [gradientName_ne _ "canvas" (by decide)]
  have hreceiver : receiver ∉ (List.range n).map gradientName ↔
      ∀ k < n, receiver ≠ gradientName k := by
    simp [eq_comm]
  -- Only the receiver can stand in the list a second time.
  simp only [List.cons_append, List.nil_append, List.nodup_cons, List.mem_cons, hid, hcanvas,
    hreceiver, hgradients, or_false, not_or, and_true]
  constructor
  · rintro ⟨⟨-, hri⟩, hrc, hrg⟩
    exact ⟨Ne.symm hri, Ne.symm hrc, hrg⟩
  · rintro ⟨hri, hrc, hrg⟩
    exact ⟨⟨by decide, Ne.symm hri⟩, Ne.symm hrc, hrg⟩

/-! ## Every run -/

/-- A program is written line by line, and if its receiver is a name, the constants that its lines
    declare are those found in the text. They are the two of the canvas, the receiver and one for
    each gradient that the run defines, whether by an edit or by a rendering. None of them is
    declared twice exactly if the receiver is none of the others, and so never with the default
    receiver. -/
theorem constants_nodup_iff (receiver : String) (tasks : List Task) :
    let s := (empty receiver).performAll tasks
    let n := (empty receiver).definitionCount tasks
    s.program = "\n".intercalate (s.lines.map Line.source) ∧
    (IsName receiver → constantsIn s.program = s.constants) ∧
    s.constants = ["id", "canvas", receiver] ++ (List.range n).map gradientName ∧
    (s.constants.Nodup ↔
      receiver ≠ "id" ∧ receiver ≠ "canvas" ∧ ∀ k < n, receiver ≠ gradientName k) ∧
    (receiver = defaultReceiver → (constantsIn s.program).Nodup) := by
  intro s n
  have hrun : s = (empty receiver).run ((empty receiver).allEdits tasks) :=
    performAll_eq_run (empty receiver) tasks
  have htext : IsName receiver → constantsIn s.program = s.constants := by
    intro hr
    have hs : s.receiver = receiver := by rw [hrun, run_receiver]; rfl
    refine constantsIn_program (hs.symm ▸ hr) ?_
    rw [hrun]
    exact run_issued hr _
  have hnames : s.constants = _ := performAll_constants receiver tasks
  have hnodup : s.constants.Nodup ↔
      receiver ≠ "id" ∧ receiver ≠ "canvas" ∧ ∀ k < n, receiver ≠ gradientName k := by
    rw [hnames]
    exact nodup_names_iff receiver n
  refine ⟨s.program_eq_lines, htext, hnames, hnodup, ?_⟩
  intro hdefault
  have hr : IsName receiver := by
    rw [hdefault]
    decide
  rw [htext hr, hnodup, hdefault]
  refine ⟨by decide, by decide, fun k _ => (gradientName_ne k defaultReceiver (by decide)).symm⟩

/-- A gradient defined directly, and one in a document. -/
def twoDefinitions : List Task :=
  [.edit (.define ⟨"a", ⟨0, 0⟩, ⟨1, 0⟩, []⟩),
   .render .strict
     (Markup.read "<svg><linearGradient id='a'/><path d='z' fill='url(#a)'/></svg>")]

theorem constants_nodup_iff_twoDefinitions :
    (empty "gradient1").definitionCount twoDefinitions = 2 ∧ IsName "gradient1" ∧
      constantsIn ((empty "gradient1").performAll twoDefinitions).program =
        ["id", "canvas", "gradient1", "gradient0", "gradient1"] ∧
      ¬ ((empty "gradient1").performAll twoDefinitions).constants.Nodup ∧
      (constantsIn ((empty defaultReceiver).performAll twoDefinitions).program).Nodup := by
  have hcount : (empty "gradient1").definitionCount twoDefinitions = 2 := by decide +kernel
  have hr : IsName "gradient1" := by decide
  obtain ⟨-, htext, hnames, hnodup, -⟩ := constants_nodup_iff "gradient1" twoDefinitions
  obtain ⟨-, -, -, -, hdefault⟩ := constants_nodup_iff defaultReceiver twoDefinitions
  rw [hcount] at hnames hnodup
  refine ⟨hcount, hr, (htext hr).trans hnames, ?_, hdefault rfl⟩
  rw [hnodup]
  rintro ⟨-, -, hne⟩
  exact hne 1 (by decide) rfl

end Script

end SvgDraw
