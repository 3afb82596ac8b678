/-
  SvgDraw.Proofs.Document.Skipping — skipping paths is the same as deleting them.

  A path tag outside of `defs` cannot be drawn if its attributes can be read, but its data cannot,
  or its fill names a gradient that the document does not register (`undrawable`). `drawable` is a
  reading without the events that are such tags. A rendering that skips paths makes the calls of a
  strict rendering of that reading and ends as it does (`renderReading_skipping`): a skipped path
  has an empty block (`block_of_undrawable`), the block of anything else does not depend on the
  options (`block_of_not_undrawable`), and deleting a path tag leaves the blocks after it and the
  whole first pass as they are.

  Where a strict rendering meets no failure, both ways of rendering are one
  (`renderReading_of_strict_ok`). What is no matter of a path's data or fill ends both (`Fatal`,
  `Fatal.drawn_failure`), and so does a surface that refuses a call.
-/

import SvgDraw.Proofs.Document.Passes
import SvgDraw.Proofs.Document.Refusal

namespace SvgDraw.Document

def Options.skipping : Options := ⟨true⟩

/-! ## Paths that cannot be drawn -/

def unknownFill? (ids : List String) (attrs : Attributes) : Option String :=
  ((attrs.lookup "fill").bind gradientReference?).filter (· ∉ ids)

def unresolvable (ids : List String) (attrs : Attributes) : Bool :=
  !(tokenize (pathData attrs)).isOk || (unknownFill? ids attrs).isSome

/-- The event, when `before` precedes it, is the tag of a path outside of `defs` that cannot be
    drawn although its attributes can be read. -/
def undrawable (ids : List String) (before : List Markup.Event) (event : Markup.Event) : Bool :=
  match tag? event with
  | none => false
  | some tag =>
    Markup.localName tag.name = "path" && openDefs before = 0 &&
      match tag.attributes with
      | .error _ => false
      | .ok attrs => unresolvable ids attrs

def withoutUndrawable (ids : List String) :
    List Markup.Event → List Markup.Event → List Markup.Event
  | _, [] => []
  | before, event :: events =>
    let rest := withoutUndrawable ids (before ++ [event]) events
    if undrawable ids before event then rest else event :: rest

def drawable (reading : Markup.Reading) : Markup.Reading :=
  { reading with events := withoutUndrawable (registeredIds reading) [] reading.events }

variable {ids : List String} {before kept : List Markup.Event} {event : Markup.Event}
  {options : Options}

theorem fillPaint_eq_error_iff (ids : List String) (attrs : Attributes) (failure : Failure) :
    fillPaint ids attrs = .error failure ↔
      ∃ id, unknownFill? ids attrs = some id ∧ failure = .unknownGradient id := by
  unfold fillPaint unknownFill?
  cases attrs.lookup "fill" with
  | none => simp
  | some value =>
    simp only [Option.bind_some]
    cases gradientReference? value with
    | none => simp
    | some id =>
      by_cases h : id ∈ ids
      · simp [h]
      · simp [h, Option.filter_some, eq_comm]

/-- The pass resolves a path exactly if it is not called unresolvable. -/
theorem isOk_resolvePath (ids : List String) (attrs : Attributes) (pen : Pen) :
    (resolvePath ids (compilePath (pathData attrs) pen).1 attrs).isOk =
      !unresolvable ids attrs := by
  have hread := compilePath_eq_error_iff (pathData attrs) pen
  have hfill := fillPaint_eq_error_iff ids attrs
  unfold resolvePath unresolvable
  cases hc : (compilePath (pathData attrs) pen).1 with
  | error failure =>
    obtain ⟨e, he, -⟩ := (hread failure).mp hc
    simp [he, bind, Except.bind, Except.isOk, Except.toBool]
  | ok operations =>
    have htokens : (tokenize (pathData attrs)).isOk = true := by
      cases ht : tokenize (pathData attrs) with
      | ok tokens => rfl
      | error e =>
        rw [(hread _).mpr ⟨e, ht, rfl⟩] at hc
        cases hc
    cases hp : fillPaint ids attrs with
    | error failure =>
      obtain ⟨id, hid, -⟩ := (hfill failure).mp hp
      simp [hid, bind, Except.bind, Except.isOk, Except.toBool]
    | ok fill =>
      have hknown : unknownFill? ids attrs = none := by
        cases hu : unknownFill? ids attrs with
        | none => rfl
        | some id =>
          rw [(hfill _).mpr ⟨id, hu, rfl⟩] at hp
          cases hp
      simp only [htokens, hknown]
      rfl

/-- What it takes for a path not to be drawable. -/
theorem undrawable_cases (h : undrawable ids before event = true) :
    ∃ tag whole attrs, event = eventOf tag whole ∧ Markup.localName tag.name = "path" ∧
      openDefs before = 0 ∧ tag.attributes = .ok attrs ∧ unresolvable ids attrs = true := by
  have hpath : ∀ tag whole, undrawable ids before (eventOf tag whole) = true →
      Markup.localName tag.name = "path" ∧ openDefs before = 0 ∧
        ∃ attrs, tag.attributes = .ok attrs ∧ unresolvable ids attrs = true := by
    intro tag whole h
    simp only [undrawable, tag?_eventOf, Bool.and_eq_true, decide_eq_true_eq] at h
    refine ⟨h.1.1, h.1.2, ?_⟩
    cases ha : tag.attributes with
    | error e => simp [ha] at h
    | ok attrs =>
      rw [ha] at h
      exact ⟨attrs, rfl, h.2⟩
  cases event with
  | start tag =>
    obtain ⟨hname, hopen, attrs, ha, hu⟩ := hpath tag false h
    exact ⟨tag, false, attrs, rfl, hname, hopen, ha, hu⟩
  | empty tag =>
    obtain ⟨hname, hopen, attrs, ha, hu⟩ := hpath tag true h
    exact ⟨tag, true, attrs, rfl, hname, hopen, ha, hu⟩
  | finish name => cases h

/-! ## Blocks -/

theorem pathBlock_of_unresolvable {attrs : Attributes} (h : unresolvable ids attrs = true) :
    pathBlock .skipping ids attrs = .empty := by
  have hok := isOk_resolvePath ids attrs Pen.fresh.enter
  rw [resolvePath_eq ids attrs .fresh]
  cases hr : resolvePath ids (compilePath (pathData attrs) Pen.fresh.enter).1 attrs with
  | error failure => rfl
  | ok calls => simp [hr, h, Except.isOk, Except.toBool] at hok

theorem pathBlock_of_resolvable {attrs : Attributes} (h : unresolvable ids attrs = false) :
    pathBlock options ids attrs = pathBlock .strict ids attrs := by
  have hok := isOk_resolvePath ids attrs Pen.fresh.enter
  rw [resolvePath_eq ids attrs .fresh, resolvePath_eq ids attrs .fresh]
  cases hr : resolvePath ids (compilePath (pathData attrs) Pen.fresh.enter).1 attrs with
  | ok calls => rfl
  | error failure => simp [hr, h, Except.isOk, Except.toBool] at hok

theorem block_of_undrawable (h : undrawable ids before event = true) :
    block .skipping ids before event = .empty := by
  obtain ⟨tag, whole, attrs, rfl, hname, hopen, ha, hu⟩ := undrawable_cases h
  simp only [block, tag?_eventOf, hname, hopen, attributeBlock, ha, pathBlock_of_unresolvable hu]
  rfl

theorem block_of_not_undrawable (h : undrawable ids before event = false) :
    block options ids before event = block .strict ids before event := by
  unfold undrawable at h
  unfold block
  cases ht : tag? event with
  | none => rfl
  | some tag =>
    by_cases hsvg : Markup.localName tag.name = "svg"
    · simp only [hsvg, if_true]
    by_cases hpath : Markup.localName tag.name = "path" ∧ openDefs before = 0
    · simp only [hpath, and_self, if_true, attributeBlock]
      cases ha : tag.attributes with
      | error e => rfl
      | ok attrs =>
        have hu : unresolvable ids attrs = false := by simpa [ht, ha, hpath] using h
        simp only [pathBlock_of_resolvable hu]
    · simp only [hsvg, hpath, if_false]

/-- A block depends on what precedes it by the size and the open `defs` elements only. -/
theorem block_congr (hs : svgAttributes kept = svgAttributes before)
    (hd : openDefs kept = openDefs before) :
    block options ids kept event = block options ids before event := by
  unfold block
  rw [hs, hd]

/-- The tag of a path has no part in the size or the open `defs` elements. -/
theorem path_keeps {tag : Markup.Tag} (hname : Markup.localName tag.name = "path") (whole : Bool)
    (before : List Markup.Event) :
    svgAttributes (before ++ [eventOf tag whole]) = svgAttributes before ∧
      openDefs (before ++ [eventOf tag whole]) = openDefs before := by
  rw [svgAttributes_snoc, openDefs_snoc, svgAttributesOf_eventOf, depthAfter_eventOf]
  simp [hname]

theorem undrawable_keeps (h : undrawable ids before event = true) :
    svgAttributes (before ++ [event]) = svgAttributes before ∧
      openDefs (before ++ [event]) = openDefs before := by
  obtain ⟨tag, whole, attrs, rfl, hname, -, -, -⟩ := undrawable_cases h
  exact path_keeps hname whole before

theorem Block.sequence_empty_cons (bs : List Block) :
    Block.sequence (.empty :: bs) = Block.sequence bs := rfl

theorem sequence_skipping (events : List Markup.Event) (hs : svgAttributes kept = svgAttributes before)
    (hd : openDefs kept = openDefs before) :
    Block.sequence (blocks .skipping ids before events) =
      Block.sequence (blocks .strict ids kept (withoutUndrawable ids before events)) := by
  -- `before` is what precedes the events, and `kept` what is left of it.
  induction events generalizing before kept with
  | nil => rfl
  | cons event events ih =>
    simp only [blocks, withoutUndrawable]
    cases hu : undrawable ids before event with
    | true =>
      obtain ⟨hsvg, hdefs⟩ := undrawable_keeps hu
      rw [block_of_undrawable hu, Block.sequence_empty_cons]
      exact ih (hs.trans hsvg.symm) (hd.trans hdefs.symm)
    | false =>
      have hsvg : svgAttributes (kept ++ [event]) = svgAttributes (before ++ [event]) := by
        rw [svgAttributes_snoc, svgAttributes_snoc, hs]
      have hdefs : openDefs (kept ++ [event]) = openDefs (before ++ [event]) := by
        rw [openDefs_snoc, openDefs_snoc, hd]
      have hrest := ih hsvg hdefs
      simp only [Bool.false_eq_true, if_false, blocks, Block.sequence, hrest,
        block_of_not_undrawable hu, block_congr hs hd]

/-! ## The first pass -/

/-- The first pass passes the tag of a path over. -/
theorem visit_of_path {tag : Markup.Tag} (hname : Markup.localName tag.name = "path")
    (whole : Bool) (s : Gradients) : s.visit (eventOf tag whole) = .done s := by
  have hmeet : s.visit (eventOf tag whole) = s.meet tag whole := by cases whole <;> rfl
  rw [hmeet]
  simp only [Gradients.meet, hname]
  rfl

theorem gradientPass_path {tag : Markup.Tag} (hname : Markup.localName tag.name = "path")
    (whole : Bool) (before after : List Markup.Event) (failure : Option Markup.Error) :
    gradientPass ⟨before ++ eventOf tag whole :: after, failure⟩ =
      gradientPass ⟨before ++ after, failure⟩ := by
  simp only [gradientPass, pass, List.foldlM_append, List.foldlM_cons, visit_of_path hname,
    Walk.done_bind]

theorem visit_of_undrawable (h : undrawable ids before event = true) (s : Gradients) :
    s.visit event = .done s := by
  obtain ⟨tag, whole, attrs, rfl, hname, -, -, -⟩ := undrawable_cases h
  exact visit_of_path hname whole s

theorem gradientFault_of_undrawable (h : undrawable ids before event = true) :
    gradientFault event = none := by
  obtain ⟨tag, whole, attrs, rfl, hname, -, -, -⟩ := undrawable_cases h
  simp [gradientFault, tag?_eventOf, hname]

theorem foldlM_visit_withoutUndrawable (events : List Markup.Event) (s : Gradients) :
    (withoutUndrawable ids before events).foldlM Gradients.visit s =
      events.foldlM Gradients.visit s := by
  induction events generalizing before s with
  | nil => rfl
  | cons event events ih =>
    simp only [withoutUndrawable]
    cases hu : undrawable ids before event with
    | true =>
      rw [List.foldlM_cons, visit_of_undrawable hu]
      exact ih s
    | false =>
      simp only [Bool.false_eq_true, if_false, List.foldlM_cons, ih]

theorem findSome?_withoutUndrawable (events : List Markup.Event) :
    (withoutUndrawable ids before events).findSome? gradientFault =
      events.findSome? gradientFault := by
  induction events generalizing before with
  | nil => rfl
  | cons event events ih =>
    simp only [withoutUndrawable]
    cases hu : undrawable ids before event with
    | true => simp [ih, gradientFault_of_undrawable hu]
    | false => simp only [Bool.false_eq_true, if_false, List.findSome?_cons, ih]

theorem registered_drawable (reading : Markup.Reading) :
    registered (drawable reading) = registered reading := by
  have h : gradientPass (drawable reading) = gradientPass reading := by
    simp only [gradientPass, pass, drawable, foldlM_visit_withoutUndrawable]
  simp only [registered, h]

theorem firstFault_drawable (reading : Markup.Reading) :
    firstFault (drawable reading) = firstFault reading := by
  simp only [firstFault, drawable, findSome?_withoutUndrawable]

/-! ## Whole renderings -/

/-- Skipping paths comes to a strict rendering of what can be drawn. -/
theorem renderReading_skipping (reading : Markup.Reading) :
    (renderReading .skipping reading).calls = (renderReading .strict (drawable reading)).calls ∧
      (renderReading .skipping reading).failure? =
        (renderReading .strict (drawable reading)).failure? := by
  have hdrawn : drawn .skipping reading = drawn .strict (drawable reading) := by
    unfold drawn
    rw [firstFault_drawable, registeredIds, registeredIds, registered_drawable]
    cases firstFault reading with
    | some e => rfl
    | none => exact sequence_skipping reading.events rfl rfl
  obtain ⟨hskip, hskipFailure⟩ := renderReading_outcome .skipping reading
  obtain ⟨hstrict, hstrictFailure⟩ := renderReading_outcome .strict (drawable reading)
  rw [hskip, hskipFailure, hstrict, hstrictFailure, registered_drawable, hdrawn]
  exact ⟨rfl, rfl⟩

/-! ## Renderings without a failure -/

/-- Walks that agree where the first of them goes on agree as a whole. -/
theorem bind_eq_of_ok {α β : Type} {v w : Walk α} {f g : α → Walk β} {b : β} (hv : v.Propagates)
    (h : (v >>= f).result = .ok b) (hw : ∀ a, v.result = .ok a → w = v)
    (hf : ∀ a, (f a).result = .ok b → g a = f a) : w >>= g = v >>= f := by
  obtain ⟨a, hr, hrest⟩ := Walk.result_bind_eq_ok h
  rw [hw a hr]
  refine hv.bind_congr fun a' hr' => ?_
  rw [hr] at hr'
  cases hr'
  exact hf a hrest

theorem path_of_strict_ok {s t : Drawing} {attrs : Attributes}
    (h : (s.path .strict ids attrs).result = .ok t) :
    s.path .skipping ids attrs = s.path .strict ids attrs := by
  refine bind_eq_of_ok (Walk.propagates_noteAll _) h (fun _ _ => rfl) fun _ hrest => ?_
  cases hr : resolvePath ids (compilePath (pathData attrs) s.pen.enter).1 attrs with
  | ok calls => rfl
  | error failure =>
    rw [hr] at hrest
    cases hrest

theorem meet_of_strict_ok {s t : Drawing} {tag : Markup.Tag} {whole : Bool}
    (h : (s.meet .strict ids tag whole).result = .ok t) :
    s.meet .skipping ids tag whole = s.meet .strict ids tag whole := by
  unfold Drawing.meet at h ⊢
  split
  · rfl
  · rfl
  · rename_i hname
    simp only [hname] at h
    split
    · rfl
    · rename_i hd
      rw [if_neg hd] at h
      exact bind_eq_of_ok (attributesOf_propagates tag) h (fun _ _ => rfl) fun _ => path_of_strict_ok
  · rfl

theorem visit_of_strict_ok {s t : Drawing} (h : (s.visit .strict ids event).result = .ok t) :
    s.visit .skipping ids event = s.visit .strict ids event := by
  cases event with
  | start tag => exact meet_of_strict_ok h
  | empty tag => exact meet_of_strict_ok h
  | finish name => rfl

theorem foldlM_visit_of_strict_ok {events : List Markup.Event} {s t : Drawing}
    (h : (events.foldlM (Drawing.visit .strict ids) s).result = .ok t) :
    events.foldlM (Drawing.visit .skipping ids) s = events.foldlM (Drawing.visit .strict ids) s := by
  induction events generalizing s with
  | nil => rfl
  | cons event events ih =>
    rw [List.foldlM_cons] at h ⊢
    rw [List.foldlM_cons]
    exact bind_eq_of_ok (s.visit_propagates .strict ids event) h (fun _ => visit_of_strict_ok)
      fun _ => ih

/-- A strict rendering that does not fail has nothing to skip. -/
theorem renderReading_of_strict_ok {reading : Markup.Reading}
    (h : (renderReading .strict reading).failure? = none) :
    renderReading .skipping reading = renderReading .strict reading := by
  have hok : (renderReading .strict reading).result = .ok () := by
    unfold Walk.failure? at h
    cases hr : (renderReading .strict reading).result with
    | error failure => simp [hr] at h
    | ok u => rfl
  refine bind_eq_of_ok (gradientPass_propagates reading) hok (fun _ _ => rfl)
    fun gradients hrest => ?_
  refine bind_eq_of_ok (drawingPass_propagates .strict gradients.ids reading) hrest
    (fun t ht => ?_) fun _ _ => rfl
  exact bind_eq_of_ok
    (Walk.propagates_foldlM (Drawing.visit_propagates .strict gradients.ids) reading.events _) ht
    (fun _ => foldlM_visit_of_strict_ok) fun _ _ => rfl

/-! ## Failures that are not skipped -/

/-- The event ends a rendering with this failure whatever the options say: attributes that have to
    be read cannot be, or an `svg` tag has an unknown fill. -/
inductive Fatal (ids : List String) (before : List Markup.Event) (event : Markup.Event) :
    Failure → Prop
  | gradient {e : Markup.Error} : gradientFault event = some e → Fatal ids before event (.markup e)
  | attributes {tag : Markup.Tag} {e : Markup.Error} : tag? event = some tag →
      DrawnTag before tag → attributeFault tag = some e → Fatal ids before event (.markup e)
  | fill {tag : Markup.Tag} {attrs : Attributes} {id : String} : tag? event = some tag →
      Markup.localName tag.name = "svg" → tag.attributes = .ok attrs →
      unknownFill? ids attrs = some id → Fatal ids before event (.unknownGradient id)

theorem attributeBlock_of_fault {tag : Markup.Tag} {e : Markup.Error}
    (h : attributeFault tag = some e) (of : Attributes → Block) :
    attributeBlock tag of = ⟨[], some (.markup e)⟩ := by
  unfold attributeFault at h
  unfold attributeBlock
  cases ht : tag.attributes with
  | ok attrs => simp [ht] at h
  | error e' =>
    simp only [ht, Option.some.injEq] at h
    simp only [h]

theorem svgBlock_of_unknownFill {earlier attrs : Attributes} {id : String}
    (h : unknownFill? ids attrs = some id) :
    (svgBlock ids earlier attrs).failure = some (.unknownGradient id) := by
  have hp := (fillPaint_eq_error_iff ids attrs _).mpr ⟨id, h, rfl⟩
  simp only [svgBlock, fillCalls_eq, hp, Except.map]

theorem Fatal.block_failure {failure : Failure} (h : Fatal ids before event failure) :
    gradientFault event ≠ none ∨
      ∀ options, (block options ids before event).failure = some failure := by
  cases h with
  | gradient hg => exact .inl (by simp [hg])
  | attributes ht hdrawn hfault =>
    refine .inr fun options => ?_
    simp only [block, ht, attributeBlock_of_fault hfault]
    rcases hdrawn with hsvg | ⟨hpath, hopen⟩
    · simp only [hsvg, if_true]
    · simp [hpath, hopen]
  | fill ht hsvg hattrs hfill =>
    refine .inr fun options => ?_
    simp only [block, ht, hsvg, if_true, attributeBlock, hattrs]
    exact svgBlock_of_unknownFill hfill

theorem Block.failure_of_sequence {bs : List Block} (h : (Block.sequence bs).failure = none) :
    ∀ b ∈ bs, b.failure = none := by
  induction bs with
  | nil => simp
  | cons b bs ih =>
    simp only [sequence] at h
    cases hb : b.failure with
    | some failure => simp [hb] at h
    | none =>
      simp only [hb] at h
      exact List.forall_mem_cons.mpr ⟨hb, ih h⟩

/-- A document with a fatal event fails to render. -/
theorem Fatal.drawn_failure {reading : Markup.Reading} {after : List Markup.Event}
    {failure : Failure} (hevents : reading.events = before ++ event :: after)
    (h : Fatal (registeredIds reading) before event failure) (options : Options) :
    (drawn options reading).failure ≠ none := by
  unfold drawn
  cases hfault : firstFault reading with
  | some e => simp
  | none =>
    intro hnone
    have hgradient : gradientFault event = none := by
      have hall := List.findSome?_eq_none_iff.mp (Option.or_eq_none_iff.mp hfault).1
      exact hall event (by simp [hevents])
    have hmem : block options (registeredIds reading) before event ∈
        blocks options (registeredIds reading) [] reading.events :=
      mem_blocks_iff.mpr ⟨before, event, after, hevents, rfl⟩
    rcases h.block_failure with hg | hb
    · exact hg hgradient
    · have hquiet := Block.failure_of_sequence hnone _ hmem
      rw [hb options] at hquiet
      cases hquiet

/-! ## Skipping and deleting -/

/-- On every surface, rendering a reading with paths skipped makes the calls and comes to the end
    of a strict rendering of the reading without the paths that cannot be drawn. If the strict
    rendering of the reading itself does not fail, skipping makes no difference at all. Fatal
    events and refusals of the surface end both. -/
theorem skipping_eq_deleting {σ : Type} (surface : Surface σ) (reading : Markup.Reading)
    (state : σ) :
    (callsFor surface .skipping reading state =
        callsFor surface .strict (drawable reading) state ∧
      (replyTo surface .skipping reading state).failure =
        (replyTo surface .strict (drawable reading) state).failure ∧
      (replyTo surface .skipping reading state).state =
        (replyTo surface .strict (drawable reading) state).state) ∧
    ((replyTo surface .strict reading state).failure = none →
      callsFor surface .skipping reading state = callsFor surface .strict reading state ∧
        replyTo surface .skipping reading state = replyTo surface .strict reading state) ∧
    (∀ before event after failure, reading.events = before ++ event :: after →
      Fatal (registeredIds reading) before event failure →
      ∀ options, (replyTo surface options reading state).failure ≠ none) ∧
    (∀ options failure,
      surface.refusal state (callsFor surface options reading state) = some failure →
      (replyTo surface options reading state).failure = some failure) := by
  have houtcome := fun options => replyTo_outcome surface options reading state
  refine ⟨?_, ?_, ?_, ?_⟩
  · obtain ⟨hcalls, hfailure⟩ := renderReading_skipping reading
    obtain ⟨hstate, hend⟩ := replyTo_outcome surface .strict (drawable reading) state
    obtain ⟨hskipState, hskipEnd⟩ := houtcome .skipping
    rw [hskipEnd, hend, hskipState, hstate, callsFor_eq_asked, callsFor_eq_asked, hcalls, hfailure]
    exact ⟨rfl, rfl, rfl⟩
  · intro h
    rw [(houtcome .strict).2] at h
    have hsame := renderReading_of_strict_ok (Option.or_eq_none_iff.mp h).2
    simp only [callsFor, replyTo, hsame, and_self]
  · intro before event after failure hevents hfatal options
    rw [(houtcome options).2, (renderReading_outcome options reading).2]
    intro hnone
    exact hfatal.drawn_failure hevents options (Option.or_eq_none_iff.mp hnone).2
  · intro options failure h
    rw [callsFor_eq_asked, Surface.refusal_asked] at h
    rw [(houtcome options).2, h]
    rfl

/-- A document with a path that cannot be read, before an `svg` tag whose fill is unknown. -/
def pathThenFill : String :=
  "<svg><path d='Q'/><svg fill='url(#a)'/></svg>"

theorem skipping_eq_deleting_pathThenFill :
    (Markup.read pathThenFill).events.length = 4 ∧
      (drawable (Markup.read pathThenFill)).events.length = 3 ∧
      callsFor acceptingRecorder .skipping (Markup.read pathThenFill) #[] =
        callsFor acceptingRecorder .strict (drawable (Markup.read pathThenFill)) #[] ∧
      ∃ before event after,
        (Markup.read pathThenFill).events = before ++ event :: after ∧
          Fatal (registeredIds (Markup.read pathThenFill)) before event (.unknownGradient "a") ∧
          (replyTo acceptingRecorder .skipping (Markup.read pathThenFill) #[]).failure ≠ none := by
  obtain ⟨⟨hcalls, -⟩, -, hends, -⟩ :=
    skipping_eq_deleting acceptingRecorder (Markup.read pathThenFill) #[]
  have hevents : (Markup.read pathThenFill).events =
      [.start ⟨"svg".toList, []⟩, .empty ⟨"path".toList, " d='Q'".toList⟩] ++
        .empty ⟨"svg".toList, " fill='url(#a)'".toList⟩ :: [.finish "svg".toList] := by
    decide +kernel
  have hattrs : (Markup.Tag.mk "svg".toList " fill='url(#a)'".toList).attributes =
      .ok [("fill", "url(#a)")] := by
    decide +kernel
  have hfatal : Fatal (registeredIds (Markup.read pathThenFill))
      [.start ⟨"svg".toList, []⟩, .empty ⟨"path".toList, " d='Q'".toList⟩]
      (.empty ⟨"svg".toList, " fill='url(#a)'".toList⟩) (.unknownGradient "a") :=
    .fill rfl (by decide +kernel) hattrs (by decide +kernel)
  exact ⟨by decide +kernel, by decide +kernel, hcalls, _, _, _, hevents, hfatal,
    hends _ _ _ _ hevents hfatal .skipping⟩

end SvgDraw.Document
