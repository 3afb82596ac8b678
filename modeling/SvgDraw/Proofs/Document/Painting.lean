/-
  SvgDraw.Proofs.Document.Painting — which paint each path of a document is filled with.

  The fill of a surface stays until it is set again, and nothing but an `svg` tag or a path with a
  fill attribute sets it. So the paints at the fill calls (`paintsFrom`) are read off the document
  from front to back, the paint in effect being carried along (`paintsOf`, `paints_of_rendersAll`),
  if the rendering gets to its end and skips no path (`RendersAll`).

  A path without a fill takes the paint that is in effect, which may be that of a path before it.
  The paths that take theirs from what precedes a part of a document are those before its first
  fill (`heirs`); the others have the same paint whatever precedes (`paintsOf_eq_heirs`). Two
  documents that differ in one path therefore give the same paint to all paths but that one and
  its heirs, and these are filled as it is (`fill_reaches_heirs`). That an heir is repainted is
  shown by `redFirst` and `limeFirst` (`fill_repaints_heir`).
-/

import SvgDraw.Proofs.Document.Counting
import SvgDraw.Proofs.Document.Sizing

namespace SvgDraw

/-! ## Paints of calls -/

def paintAfter (paint : Paint) : List Call → Paint
  | [] => paint
  | .setFill next :: calls => paintAfter next calls
  | _ :: calls => paintAfter paint calls

/-- The paint in effect at each call that fills, if `paint` is in effect before them. -/
def paintsFrom (paint : Paint) : List Call → List Paint
  | [] => []
  | .setFill next :: calls => paintsFrom next calls
  | .fill :: calls => paint :: paintsFrom paint calls
  | _ :: calls => paintsFrom paint calls

def Call.keepsPaint : Call → Bool
  | .fill => false
  | .setFill _ => false
  | _ => true

theorem paintsFrom_append (paint : Paint) (as bs : List Call) :
    paintsFrom paint (as ++ bs) = paintsFrom paint as ++ paintsFrom (paintAfter paint as) bs := by
  induction as generalizing paint with
  | nil => rfl
  | cons call as ih => cases call <;> simp [paintsFrom, paintAfter, ih]

theorem paintAfter_append (paint : Paint) (as bs : List Call) :
    paintAfter paint (as ++ bs) = paintAfter (paintAfter paint as) bs := by
  induction as generalizing paint with
  | nil => rfl
  | cons call as ih => cases call <;> simp [paintAfter, ih]

/-- Calls that have nothing to do with the fill leave it as it is. -/
theorem paints_of_keepsPaint (paint : Paint) {calls : List Call}
    (h : ∀ call ∈ calls, call.keepsPaint = true) :
    paintsFrom paint calls = [] ∧ paintAfter paint calls = paint := by
  induction calls with
  | nil => exact ⟨rfl, rfl⟩
  | cons call calls ih =>
    have hrest := ih fun c hc => h c (List.mem_cons_of_mem call hc)
    have hfirst := h call List.mem_cons_self
    cases call with
    | fill => cases hfirst
    | setFill next => cases hfirst
    | _ => exact hrest

theorem paints_setFill (paint : Paint) (fill : Option Paint) :
    paintsFrom paint (fill.toList.map .setFill) = [] ∧
      paintAfter paint (fill.toList.map .setFill) = fill.getD paint := by
  cases fill with
  | none => exact ⟨rfl, rfl⟩
  | some next => exact ⟨rfl, rfl⟩

namespace Document

theorem keepsPaint_sizeCalls (earlier attrs : Attributes) :
    ∀ call ∈ sizeCalls earlier attrs, call.keepsPaint = true := by
  unfold sizeCalls
  split
  · simp [Call.keepsPaint]
  · simp

/-- A size and then a fill: nothing is filled, and the fill is in effect. -/
theorem paints_svgCalls (paint : Paint) (earlier attrs : Attributes) (fill : Option Paint) :
    paintsFrom paint (sizeCalls earlier attrs ++ fill.toList.map .setFill) = [] ∧
      paintAfter paint (sizeCalls earlier attrs ++ fill.toList.map .setFill) =
        fill.getD paint := by
  obtain ⟨hnone, hsame⟩ := paints_of_keepsPaint paint (keepsPaint_sizeCalls earlier attrs)
  rw [paintsFrom_append, paintAfter_append, hnone, hsame]
  exact paints_setFill paint fill

/-- A path is filled with its own fill if it has one, and that stays in effect. -/
theorem paints_pathCalls (paint : Paint) (operations : List Operation) (fill : Option Paint) :
    paintsFrom paint (pathCalls operations fill) = [fill.getD paint] ∧
      paintAfter paint (pathCalls operations fill) = fill.getD paint := by
  have hdraw : ∀ call ∈ Call.beginPath :: operations.map Operation.call,
      call.keepsPaint = true := by
    intro call hc
    rcases List.mem_cons.mp hc with rfl | hc
    · rfl
    · obtain ⟨operation, -, rfl⟩ := List.mem_map.mp hc
      cases operation <;> rfl
  obtain ⟨hnone, hsame⟩ := paints_of_keepsPaint paint hdraw
  obtain ⟨hset, hnow⟩ := paints_setFill paint fill
  unfold pathCalls
  constructor
  · rw [paintsFrom_append, paintsFrom_append, paintAfter_append, hnone, hsame, hset, hnow]
    rfl
  · rw [paintAfter_append, paintAfter_append, hsame, hnow]
    rfl

/-! ## Paints of a document -/

variable {options : Options} {ids : List String} {before before' events : List Markup.Event}
  {event : Markup.Event} {paint : Paint}

/-- The paint that a tag asks for, when `before` precedes it: an `svg` tag or the tag of a path
    outside of `defs` may do so. -/
def askedFill? (ids : List String) (before : List Markup.Event) (event : Markup.Event) :
    Option Paint :=
  match tag? event with
  | none => none
  | some tag =>
    if Markup.localName tag.name = "svg" ∨ Markup.localName tag.name = "path" ∧ openDefs before = 0
    then tag.attributes.toOption.bind fun attrs => (fillPaint ids attrs).toOption.join
    else none

def paintNext (ids : List String) (paint : Paint) (before : List Markup.Event)
    (event : Markup.Event) : Paint :=
  (askedFill? ids before event).getD paint

def paintLeft (ids : List String) : Paint → List Markup.Event → List Markup.Event → Paint
  | paint, _, [] => paint
  | paint, before, event :: events =>
    paintLeft ids (paintNext ids paint before event) (before ++ [event]) events

/-- The paint of each path that is drawn, when `before` precedes the events. -/
def paintsOf (ids : List String) : Paint → List Markup.Event → List Markup.Event → List Paint
  | _, _, [] => []
  | paint, before, event :: events =>
    let now := paintNext ids paint before event
    (if drawsPath ids before event then [now] else []) ++
      paintsOf ids now (before ++ [event]) events

/-- A block that does not fail and is not that of a skipped path fills and paints as its tag
    says. -/
theorem paints_block (hf : (block options ids before event).failure = none)
    (hu : undrawable ids before event = false) (paint : Paint) :
    paintsFrom paint (block options ids before event).calls =
        (if drawsPath ids before event then [paintNext ids paint before event] else []) ∧
      paintAfter paint (block options ids before event).calls =
        paintNext ids paint before event := by
  unfold block at hf ⊢
  unfold undrawable at hu
  unfold drawsPath paintNext askedFill?
  cases ht : tag? event with
  | none => exact ⟨rfl, rfl⟩
  | some tag =>
    simp only [ht] at hf hu ⊢
    by_cases hsvg : Markup.localName tag.name = "svg"
    · simp only [hsvg, if_true, attributeBlock] at hf ⊢
      cases ha : tag.attributes with
      | error e => simp [ha] at hf
      | ok attrs =>
        simp only [ha] at hf ⊢
        obtain ⟨fill, hcalls, hfill⟩ := svgBlock_calls ids (svgAttributes before) attrs
        rw [hcalls]
        simpa [Except.toOption, hfill hf] using paints_svgCalls paint _ _ fill
    · by_cases hpath : Markup.localName tag.name = "path" ∧ openDefs before = 0
      · simp only [hpath, and_self, if_true, attributeBlock] at hf ⊢
        cases ha : tag.attributes with
        | error e => simp [ha] at hf
        | ok attrs =>
          have hr : unresolvable ids attrs = false := by simpa [hpath, ha] using hu
          obtain ⟨operations, fill, hfill, hb⟩ := pathBlock_eq_of_resolvable options hr
          simpa [hb, Except.toOption, hfill, hr] using paints_pathCalls paint operations fill
      · have hno : (Markup.localName tag.name = "path" && openDefs before = 0 : Bool) = false := by
          simpa using hpath
        simp only [hsvg, hpath, if_false, hno, Bool.false_and, or_self, Option.getD_none]
        exact ⟨rfl, rfl⟩

theorem skips_cons_eq_zero_iff :
    skips ids before (event :: events) = 0 ↔
      undrawable ids before event = false ∧ skips ids (before ++ [event]) events = 0 := by
  rw [skips, Nat.add_eq_zero_iff]
  cases undrawable ids before event with
  | false => simp
  | true => simp

/-- If nothing fails and no path is skipped, the paints are those of the document. -/
theorem paints_sequence (hf : Reaches options ids before events)
    (hs : skips ids before events = 0) (paint : Paint) :
    paintsFrom paint (Block.sequence (blocks options ids before events)).calls =
      paintsOf ids paint before events := by
  induction events generalizing before paint with
  | nil => rfl
  | cons event events ih =>
    obtain ⟨hfirst, hrest⟩ := reaches_cons.mp hf
    obtain ⟨hdrawable, hmore⟩ := skips_cons_eq_zero_iff.mp hs
    obtain ⟨hpaints, hafter⟩ := paints_block hfirst hdrawable paint
    rw [blocks, sequence_calls_cons, if_pos hfirst, paintsFrom_append, hpaints, hafter,
      ih hrest hmore]
    rfl

/-! ## Renderings that skip nothing -/

/-- The rendering gets to its end and skips no path. -/
def RendersAll (options : Options) (reading : Markup.Reading) : Prop :=
  ∃ gradients drawing,
    (gradientPass reading).result = .ok gradients ∧
      (drawingPass options gradients.ids reading).result = .ok drawing ∧ drawing.skipped = 0

/-- A rendering that skips nothing meets no fault, gets past all events and has nothing to skip. -/
theorem RendersAll.elim {reading : Markup.Reading} (h : RendersAll options reading) :
    firstFault reading = none ∧ Reaches options (registeredIds reading) [] reading.events ∧
      skips (registeredIds reading) [] reading.events = 0 := by
  obtain ⟨gradients, drawing, hg, hd, hzero⟩ := h
  have hfirst := gradientPass_comes reading
  cases hfault : firstFault reading with
  | some e =>
    rw [hfault] at hfirst
    rw [hfirst.result_eq] at hg
    cases hg
  | none =>
    rw [hfault] at hfirst
    obtain ⟨t, ht, hids⟩ := hfirst
    rw [ht.result_eq] at hg
    cases hg
    rw [hids] at hd
    have hadds := (drawingPass_counts options (registeredIds reading) reading).adds drawing hd
    have hcarries := drawingPass_carries options (registeredIds reading)
      (Option.or_eq_none_iff.mp hfault).2
    refine ⟨rfl, (hcarries.of_ok hd).1, ?_⟩
    rw [← hadds.undrawn]
    have hskipped := hadds.skipped
    omega

/-- The paints of a rendering that skips nothing are those of its document. -/
theorem paints_of_rendersAll {reading : Markup.Reading} (h : RendersAll options reading)
    (paint : Paint) :
    paintsFrom paint (renderReading options reading).calls =
      paintsOf (registeredIds reading) paint [] reading.events := by
  obtain ⟨hfault, hreaches, hskips⟩ := h.elim
  have hregister : ∀ call ∈ (registered reading).map Call.register, call.keepsPaint = true := by
    intro call hc
    obtain ⟨g, -, rfl⟩ := List.mem_map.mp hc
    rfl
  obtain ⟨hnone, hsame⟩ := paints_of_keepsPaint paint hregister
  rw [(renderReading_outcome options reading).1, paintsFrom_append, hnone, hsame, drawn, hfault]
  exact paints_sequence hreaches hskips paint

/-! ## Heirs -/

/-- How many paths, of those that are drawn, take the paint in effect before the events: those up
    to the first tag that asks for a paint. -/
def heirs (ids : List String) : List Markup.Event → List Markup.Event → Nat
  | _, [] => 0
  | before, event :: events =>
    if (askedFill? ids before event).isSome then 0
    else (drawsPath ids before event).toNat + heirs ids (before ++ [event]) events

theorem paintsOf_append (as bs : List Markup.Event) (paint : Paint) :
    paintsOf ids paint before (as ++ bs) =
      paintsOf ids paint before as ++
        paintsOf ids (paintLeft ids paint before as) (before ++ as) bs := by
  induction as generalizing before paint with
  | nil => simp [paintsOf, paintLeft]
  | cons event as ih => simp [paintsOf, paintLeft, ih]

/-- Only the heirs depend on the paint in effect before the events, and they all have it. -/
theorem paintsOf_eq_heirs (ids : List String) (before events : List Markup.Event) :
    ∃ rest, ∀ paint,
      paintsOf ids paint before events =
        List.replicate (heirs ids before events) paint ++ rest := by
  induction events generalizing before with
  | nil => exact ⟨[], fun _ => rfl⟩
  | cons event events ih =>
    obtain ⟨rest, hrest⟩ := ih (before ++ [event])
    cases ha : askedFill? ids before event with
    | some next =>
      refine ⟨(if drawsPath ids before event then [next] else []) ++
        paintsOf ids next (before ++ [event]) events, fun paint => ?_⟩
      simp [paintsOf, paintNext, heirs, ha]
    | none =>
      refine ⟨rest, fun paint => ?_⟩
      cases hd : drawsPath ids before event with
      | true =>
        simp [paintsOf, paintNext, heirs, ha, hd, hrest, Nat.add_comm 1, List.replicate_succ]
      | false => simp [paintsOf, paintNext, heirs, ha, hd, hrest]

/-- Paints depend on what precedes the events by the open `defs` elements only. -/
theorem paintsOf_congr (h : openDefs before = openDefs before') (paint : Paint) :
    paintsOf ids paint before events = paintsOf ids paint before' events := by
  induction events generalizing before before' paint with
  | nil => rfl
  | cons event events ih =>
    have hdraws : drawsPath ids before event = drawsPath ids before' event := by
      simp only [drawsPath, h]
    have hfill : askedFill? ids before event = askedFill? ids before' event := by
      simp only [askedFill?, h]
    have hdepth : openDefs (before ++ [event]) = openDefs (before' ++ [event]) := by
      rw [openDefs_snoc, openDefs_snoc, h]
    simp only [paintsOf, paintNext, hdraws, hfill, ih hdepth]

/-! ## Two documents -/

def isPath (event : Markup.Event) : Bool :=
  match tag? event with
  | none => false
  | some tag => Markup.localName tag.name = "path"

theorem isPath_cases (h : isPath event = true) :
    ∃ tag whole, event = eventOf tag whole ∧ Markup.localName tag.name = "path" := by
  cases event with
  | start tag => exact ⟨tag, false, rfl, by simpa [isPath, tag?] using h⟩
  | empty tag => exact ⟨tag, true, rfl, by simpa [isPath, tag?] using h⟩
  | finish name => cases h

theorem undrawable_of_skips {earlier later : List Markup.Event}
    (h : skips ids before (earlier ++ event :: later) = 0) :
    undrawable ids (before ++ earlier) event = false := by
  induction earlier generalizing before with
  | nil =>
    rw [List.append_nil]
    exact (skips_cons_eq_zero_iff.mp h).1
  | cons first earlier ih => simpa using ih (skips_cons_eq_zero_iff.mp h).2

/-- A rendering that skips nothing draws every path outside of `defs`. -/
theorem RendersAll.drawsPath {reading : Markup.Reading} {after : List Markup.Event}
    (h : RendersAll options reading) (hevents : reading.events = before ++ event :: after)
    (hp : isPath event = true) :
    Document.drawsPath (registeredIds reading) before event = decide (openDefs before = 0) := by
  obtain ⟨-, hreaches, hskips⟩ := h.elim
  obtain ⟨tag, whole, rfl, hname⟩ := isPath_cases hp
  have hblock := Block.failure_of_sequence hreaches _
    (mem_blocks_iff.mpr ⟨before, eventOf tag whole, after, hevents, rfl⟩)
  have hu : undrawable (registeredIds reading) before (eventOf tag whole) = false := by
    rw [hevents] at hskips
    exact undrawable_of_skips hskips
  by_cases hopen : openDefs before = 0
  · cases ha : tag.attributes with
    | error e => simp [block, tag?_eventOf, hname, hopen, attributeBlock, ha] at hblock
    | ok attrs =>
      simp only [undrawable, tag?_eventOf, hname, hopen, ha] at hu
      simpa [Document.drawsPath, tag?_eventOf, hname, hopen, ha] using hu
  · simp [Document.drawsPath, tag?_eventOf, hopen]

theorem askedFill?_of_defs (hp : isPath event = true) (h : openDefs before ≠ 0) :
    askedFill? ids before event = none := by
  obtain ⟨tag, whole, rfl, hname⟩ := isPath_cases hp
  simp [askedFill?, tag?_eventOf, hname, h]

theorem registeredIds_congr {after : List Markup.Event} {path path' : Markup.Event}
    (hp : isPath path = true) (hp' : isPath path' = true) (failure : Option Markup.Error) :
    registeredIds ⟨before ++ path :: after, failure⟩ =
      registeredIds ⟨before ++ path' :: after, failure⟩ := by
  obtain ⟨tag, whole, rfl, hname⟩ := isPath_cases hp
  obtain ⟨tag', whole', rfl, hname'⟩ := isPath_cases hp'
  simp only [registeredIds, registered, gradientPass_path hname, gradientPass_path hname']

/-- How many paths have the paint of a path between `before` and `after`: it and its heirs, but
    none if it is in `defs`. The path opens no `defs` itself, so `before` stands for all that
    precedes `after`. -/
def reach (ids : List String) (before after : List Markup.Event) : Nat :=
  if openDefs before = 0 then 1 + heirs ids before after else 0

/-- The paints of a document with a path in it: those before it, its own if it is drawn, and those
    behind it. -/
theorem paints_split_at_path {reading : Markup.Reading} {after : List Markup.Event}
    (h : RendersAll options reading) (hevents : reading.events = before ++ event :: after)
    (hp : isPath event = true) (hids : registeredIds reading = ids) (initial : Paint) :
    let now := paintNext ids (paintLeft ids initial [] before) before event
    paintsFrom initial (renderReading options reading).calls =
      paintsOf ids initial [] before ++
        ((if openDefs before = 0 then [now] else []) ++ paintsOf ids now before after) := by
  subst hids
  have hopen : openDefs (before ++ [event]) = openDefs before := by
    obtain ⟨tag, whole, rfl, hname⟩ := isPath_cases hp
    exact (path_keeps hname whole before).2
  rw [paints_of_rendersAll h, hevents, paintsOf_append, List.nil_append, paintsOf,
    paintsOf_congr hopen, h.drawsPath hevents hp]
  simp only [decide_eq_true_eq]

/-- What is behind a path and its heirs does not depend on the path. -/
theorem paints_around_path (ids : List String) (before after : List Markup.Event)
    (initial : Paint) :
    ∃ rest, ∀ {options : Options} {reading : Markup.Reading} {event : Markup.Event},
      RendersAll options reading → reading.events = before ++ event :: after →
      isPath event = true → registeredIds reading = ids →
      paintsFrom initial (renderReading options reading).calls =
        paintsOf ids initial [] before ++
          List.replicate (reach ids before after)
            (paintNext ids (paintLeft ids initial [] before) before event) ++ rest := by
  by_cases h0 : openDefs before = 0
  · obtain ⟨rest, hrest⟩ := paintsOf_eq_heirs ids before after
    refine ⟨rest, fun h hevents hp hids => ?_⟩
    rw [paints_split_at_path h hevents hp hids, hrest, reach, if_pos h0, if_pos h0,
      Nat.add_comm 1, List.replicate_succ, List.append_assoc]
    rfl
  · -- In `defs` the path asks for nothing, so the paint before it is the one behind it.
    refine ⟨paintsOf ids (paintLeft ids initial [] before) before after,
      fun h hevents hp hids => ?_⟩
    rw [paints_split_at_path h hevents hp hids, reach, if_neg h0, if_neg h0, paintNext,
      askedFill?_of_defs hp h0, List.append_assoc]
    rfl

/-- Two documents differ in one path, both are rendered without a failure on a surface that may
    refuse other calls, and no path is skipped. The paths before that one have the same paints in
    both. The path has its own fill in each of them, or else the paint in effect before it, and so
    have its heirs, the paths behind it up to the next tag that asks for a paint. All paths after
    these have the same paints in both. A path in `defs` is not drawn and has no heirs. -/
theorem fill_reaches_heirs {σ : Type} {surface : Surface σ} {state : σ} (options : Options)
    {reading reading' : Markup.Reading} {before after : List Markup.Event}
    {path path' : Markup.Event} (h : reading.events = before ++ path :: after)
    (h' : reading'.events = before ++ path' :: after) (hp : isPath path = true)
    (hp' : isPath path' = true) (hr : RendersAll options reading)
    (hr' : RendersAll options reading')
    (hs : (replyTo surface options reading state).failure = none)
    (hs' : (replyTo surface options reading' state).failure = none) (initial : Paint) :
    let ids := registeredIds reading
    let current := paintLeft ids initial [] before
    ∃ rest,
      paintsFrom initial (callsFor surface options reading state) =
        paintsOf ids initial [] before ++
          List.replicate (reach ids before after) (paintNext ids current before path) ++ rest ∧
      paintsFrom initial (callsFor surface options reading' state) =
        paintsOf ids initial [] before ++
          List.replicate (reach ids before after) (paintNext ids current before path') ++ rest := by
  intro ids current
  have hfailure : reading.failure = none := (Option.or_eq_none_iff.mp hr.elim.1).2
  have hfailure' : reading'.failure = none := (Option.or_eq_none_iff.mp hr'.elim.1).2
  have hids : registeredIds reading' = ids := by
    obtain ⟨events, failure⟩ := reading
    obtain ⟨events', failure'⟩ := reading'
    subst h h' hfailure hfailure'
    exact registeredIds_congr hp' hp none
  obtain ⟨rest, hrest⟩ := paints_around_path ids before after initial
  rw [callsFor_of_ok hs, callsFor_of_ok hs']
  exact ⟨rest, hrest hr h hp rfl, hrest hr' h' hp' hids⟩

/-! ## A path that is repainted -/

/-- Three paths, the second without a fill, in an `svg` element that has one. -/
def redFirst : String :=
  "<svg fill='tan'><path fill='red'/><path/><path fill='tan'/></svg>"

def limeFirst : String :=
  "<svg fill='tan'><path fill='lime'/><path/><path fill='tan'/></svg>"

def beforeFirst : List Markup.Event := [.start ⟨"svg".toList, " fill='tan'".toList⟩]

def firstPath (fill : String) : Markup.Event :=
  .empty ⟨"path".toList, " fill='".toList ++ fill.toList ++ ['\'']⟩

def afterFirst : List Markup.Event :=
  [.empty ⟨"path".toList, []⟩, .empty ⟨"path".toList, " fill='tan'".toList⟩, .finish "svg".toList]

theorem read_redFirst :
    Markup.read redFirst = ⟨beforeFirst ++ firstPath "red" :: afterFirst, none⟩ := by
  decide +kernel

theorem read_limeFirst :
    Markup.read limeFirst = ⟨beforeFirst ++ firstPath "lime" :: afterFirst, none⟩ := by
  decide +kernel

theorem redFirst_rendersAll : RendersAll .strict (Markup.read redFirst) := by
  rw [read_redFirst]
  exact ⟨⟨none, []⟩, ⟨.fresh, 800.0, 800.0, 0, 3, 0⟩, by decide +kernel, by decide +kernel, rfl⟩

theorem limeFirst_rendersAll : RendersAll .strict (Markup.read limeFirst) := by
  rw [read_limeFirst]
  exact ⟨⟨none, []⟩, ⟨.fresh, 800.0, 800.0, 0, 3, 0⟩, by decide +kernel, by decide +kernel, rfl⟩

/-- The first path has one heir, and both have its fill, also in a script. -/
theorem fill_reaches_heirs_redFirst :
    RendersAll .strict (Markup.read redFirst) ∧ RendersAll .strict (Markup.read limeFirst) ∧
      (compile .strict redFirst).failure = none ∧ (compile .strict limeFirst).failure = none ∧
      ∃ rest,
        paintsFrom (.color "black")
            (callsFor Script.surface .strict (Markup.read redFirst) (.empty "ctx")) =
          List.replicate 2 (.color "red") ++ rest ∧
        paintsFrom (.color "black")
            (callsFor Script.surface .strict (Markup.read limeFirst) (.empty "ctx")) =
          List.replicate 2 (.color "lime") ++ rest := by
  have hs : (compile .strict redFirst).failure = none := by decide +kernel
  have hs' : (compile .strict limeFirst).failure = none := by decide +kernel
  have hids : registeredIds (Markup.read redFirst) = [] := by
    rw [read_redFirst]
    decide +kernel
  have hbefore : paintsOf [] (.color "black") [] beforeFirst = [] := by decide +kernel
  have hreach : reach [] beforeFirst afterFirst = 2 := by decide +kernel
  have hred : ∀ current, paintNext [] current beforeFirst (firstPath "red") = .color "red" := by
    have hfill : askedFill? [] beforeFirst (firstPath "red") = some (.color "red") := by
      decide +kernel
    intro current
    rw [paintNext, hfill, Option.getD_some]
  have hlime : ∀ current, paintNext [] current beforeFirst (firstPath "lime") = .color "lime" := by
    have hfill : askedFill? [] beforeFirst (firstPath "lime") = some (.color "lime") := by
      decide +kernel
    intro current
    rw [paintNext, hfill, Option.getD_some]
  have hpaints := fill_reaches_heirs .strict (congrArg Markup.Reading.events read_redFirst)
    (congrArg Markup.Reading.events read_limeFirst) (by decide +kernel) (by decide +kernel)
    redFirst_rendersAll limeFirst_rendersAll hs hs' (.color "black")
  simp only [hids, hbefore, hreach, hred, hlime, List.nil_append] at hpaints
  exact ⟨redFirst_rendersAll, limeFirst_rendersAll, hs, hs', hpaints⟩

/-- Only the fill of the first path differs, and the second path, which has none, is filled with
    it in both documents. -/
theorem fill_repaints_heir :
    Markup.read redFirst = ⟨beforeFirst ++ firstPath "red" :: afterFirst, none⟩ ∧
      Markup.read limeFirst = ⟨beforeFirst ++ firstPath "lime" :: afterFirst, none⟩ ∧
      RendersAll .strict (Markup.read redFirst) ∧ RendersAll .strict (Markup.read limeFirst) ∧
      paintsFrom (.color "black")
          (callsFor acceptingRecorder .strict (Markup.read redFirst) #[]) =
        [.color "red", .color "red", .color "tan"] ∧
      paintsFrom (.color "black")
          (callsFor acceptingRecorder .strict (Markup.read limeFirst) #[]) =
        [.color "lime", .color "lime", .color "tan"] :=
  ⟨read_redFirst, read_limeFirst, redFirst_rendersAll, limeFirst_rendersAll, by decide +kernel,
    by decide +kernel⟩

end Document

end SvgDraw
