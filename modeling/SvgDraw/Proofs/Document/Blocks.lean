/-
  SvgDraw.Proofs.Document.Blocks — the second pass against a reference that keeps no state.

  The reference gives each tag a block: the calls it stands for, and the failure it ends the pass
  with, if any. A block depends on the tag and on the part of the document before it, from which
  the size so far (`svgAttributes`, `latestLength`) and the open `defs` elements (`openDefs`) are
  computed anew for every tag.

  - An `svg` block, wherever the tag stands, sets the size if one of the tag's sides has a length,
    with the last length given for each side so far, and then the tag's fill.
  - A `path` block outside of `defs` is the whole drawing of the path from the origin. A path that
    cannot be drawn has a block without calls, which fails or not as the options say.
  - Every other block is empty.

  One step of the pass carries out the block of its tag (`visit_carries`), so the pass carries out
  all blocks up to the first that fails (`foldlM_visit_carries`). `drawing_calls_eq_blocks` says
  this of the calls made on a surface that refuses nothing.
-/

import SvgDraw.Document.Render
import SvgDraw.Canvas.Surface
import SvgDraw.Proofs.Document.Refusal
import SvgDraw.Proofs.Path.Scope

namespace SvgDraw.Document

open Walk (Comes)

/-! ## The reference -/

structure Block where
  calls : List Call
  /-- Why the pass ends with this block, if it does. -/
  failure : Option Failure

def Block.empty : Block := ⟨[], none⟩

/-- The blocks one after the other, up to the first that fails. -/
def Block.sequence : List Block → Block
  | [] => .empty
  | b :: bs =>
    match b.failure with
    | some failure => ⟨b.calls, some failure⟩
    | none => ⟨b.calls ++ (sequence bs).calls, (sequence bs).failure⟩

def tag? : Markup.Event → Option Markup.Tag
  | .start tag => some tag
  | .empty tag => some tag
  | .finish _ => none

def depthAfter (depth : Nat) : Markup.Event → Nat
  | .start tag => if Markup.localName tag.name = "defs" then depth + 1 else depth
  | .empty _ => depth
  | .finish name => if Markup.localName name = "defs" then depth - 1 else depth

def openDefs (before : List Markup.Event) : Nat :=
  before.foldl depthAfter 0

def svgAttributesOf (event : Markup.Event) : Attributes :=
  match tag? event with
  | some tag => if Markup.localName tag.name = "svg" then tag.attributes.toOption.getD [] else []
  | none => []

def svgAttributes (before : List Markup.Event) : Attributes :=
  before.flatMap svgAttributesOf

/-- The last length that the attributes give for a side, or `size` if they give none. -/
def latestLength (side : String) (size : Float) (attrs : Attributes) : Float :=
  ((attrs.filter (·.1 = side)).filterMap fun a => length? a.2).getLast?.getD size

def givesSize (attrs : Attributes) : Bool :=
  attrs.any fun a => (a.1 = "width" || a.1 = "height") && (length? a.2).isSome

/-- The calls that set the size: none if the tag gives no length. -/
def sizeCalls (earlier attrs : Attributes) : List Call :=
  if givesSize attrs then
    [.resize (latestLength "width" defaultSize (earlier ++ attrs))
      (latestLength "height" defaultSize (earlier ++ attrs))]
  else []

def fillCalls (ids : List String) (attrs : Attributes) : Except Failure (List Call) :=
  match attrs.lookup "fill" with
  | none => .ok []
  | some value =>
    match gradientReference? value with
    | none => .ok [.setFill (.color value)]
    | some id =>
      if id ∈ ids then .ok [.setFill (.gradient id)] else .error (.unknownGradient id)

def svgBlock (ids : List String) (earlier attrs : Attributes) : Block :=
  match fillCalls ids attrs with
  | .ok fill => ⟨sizeCalls earlier attrs ++ fill, none⟩
  | .error failure => ⟨sizeCalls earlier attrs, some failure⟩

def refusedBlock (options : Options) (failure : Failure) : Block :=
  if options.skipInvalidPaths then .empty else ⟨[], some failure⟩

def pathBlock (options : Options) (ids : List String) (attrs : Attributes) : Block :=
  match (compilePath ((attrs.lookup "d").getD "") .fresh).1 with
  | .error failure => refusedBlock options failure
  | .ok operations =>
    match fillCalls ids attrs with
    | .error failure => refusedBlock options failure
    | .ok fill => ⟨[.beginPath] ++ operations.map Operation.call ++ fill ++ [.fill, .closePath], none⟩

/-- The block of a tag whose attributes matter. -/
def attributeBlock (tag : Markup.Tag) (of : Attributes → Block) : Block :=
  match tag.attributes with
  | .error e => ⟨[], some (.markup e)⟩
  | .ok attrs => of attrs

/-- The block of an event, when `before` precedes it. -/
def block (options : Options) (ids : List String) (before : List Markup.Event)
    (event : Markup.Event) : Block :=
  match tag? event with
  | none => .empty
  | some tag =>
    if Markup.localName tag.name = "svg" then
      attributeBlock tag (svgBlock ids (svgAttributes before))
    else if Markup.localName tag.name = "path" ∧ openDefs before = 0 then
      attributeBlock tag (pathBlock options ids)
    else .empty

def blocks (options : Options) (ids : List String) :
    List Markup.Event → List Markup.Event → List Block
  | _, [] => []
  | before, event :: events =>
    block options ids before event :: blocks options ids (before ++ [event]) events

/-! ## Carrying blocks out -/

variable {α β : Type} {options : Options} {ids : List String} {before : List Markup.Event}
  {s : Drawing}

/-- The walk makes the calls of the block and fails with it; if the block does not fail, the
    walk comes to a value with `post`. -/
def Carries (d : Walk α) (b : Block) (post : α → Prop) : Prop :=
  match b.failure with
  | some failure => Comes d b.calls (.error failure)
  | none => ∃ a, Comes d b.calls (.ok a) ∧ post a

theorem carries_ok {d : Walk α} {cs : List Call} {a : α} {post : α → Prop} (h : Comes d cs (.ok a))
    (hp : post a) : Carries d ⟨cs, none⟩ post :=
  ⟨a, h, hp⟩

theorem carries_error {d : Walk α} {cs : List Call} {failure : Failure} {post : α → Prop}
    (h : Comes d cs (.error failure)) : Carries d ⟨cs, some failure⟩ post :=
  h

theorem Carries.mono {d : Walk α} {b : Block} {post post' : α → Prop} (h : Carries d b post)
    (hp : ∀ a, post a → post' a) : Carries d b post' := by
  unfold Carries at h ⊢
  cases hf : b.failure with
  | some failure =>
    rw [hf] at h
    exact h
  | none =>
    rw [hf] at h
    obtain ⟨a, ha, hpa⟩ := h
    exact ⟨a, ha, hp a hpa⟩

theorem attributesOf_comes (tag : Markup.Tag) :
    Comes (attributesOf tag) [] (tag.attributes.mapError Failure.markup) :=
  Walk.comes_ofExcept _

/-- A walk that only reads attributes carries out the block of the tag. -/
theorem carries_attributes {tag : Markup.Tag} {f : Attributes → Walk α} {of : Attributes → Block}
    {post : α → Prop}
    (h : ∀ attrs, tag.attributes = .ok attrs → Carries (f attrs) (of attrs) post) :
    Carries (attributesOf tag >>= f) (attributeBlock tag of) post := by
  have hread := attributesOf_comes tag
  unfold attributeBlock
  cases ht : tag.attributes with
  | error e =>
    rw [ht] at hread
    exact carries_error hread.bind_error
  | ok attrs =>
    rw [ht] at hread
    have hf := h attrs ht
    simp only [Carries] at hf ⊢
    cases hb : (of attrs).failure with
    | some failure =>
      simp only [hb] at hf ⊢
      exact hread.bind_quiet hf
    | none =>
      simp only [hb] at hf ⊢
      obtain ⟨a, ha, hp⟩ := hf
      exact ⟨a, hread.bind_quiet ha, hp⟩

/-! ### The size -/

theorem latestLength_append (side : String) (size : Float) (as bs : Attributes) :
    latestLength side (latestLength side size as) bs = latestLength side size (as ++ bs) := by
  simp only [latestLength, List.filter_append, List.filterMap_append, List.getLast?_append]
  cases ((bs.filter (·.1 = side)).filterMap fun a => length? a.2).getLast? <;> rfl

theorem latestLength_singleton (side : String) (size : Float) (name value : String) :
    latestLength side size [(name, value)] =
      if name = side then (length? value).getD size else size := by
  by_cases h : name = side
  · cases hl : length? value <;> simp [latestLength, h, hl]
  · simp [latestLength, h]

theorem givesSize_append (as bs : Attributes) :
    givesSize (as ++ bs) = (givesSize as || givesSize bs) :=
  List.any_append

def Drawing.resized (s : Drawing) (attrs : Attributes) : Drawing :=
  { s with
    width := latestLength "width" s.width attrs
    height := latestLength "height" s.height attrs }

theorem Drawing.resized_append (s : Drawing) (as bs : Attributes) :
    (s.resized as).resized bs = s.resized (as ++ bs) := by
  simp only [resized, latestLength_append]

theorem takeSide_comes (s : Drawing) (sized : Bool) (a : String × String) :
    Comes (takeSide (s, sized) a) [] (.ok (s.resized [a], sized || givesSize [a])) := by
  obtain ⟨name, value⟩ := a
  have quiet (r : Drawing × Bool) :
      Comes (do Walk.note (.unsupportedLength name value); return r) [] (.ok r) :=
    (Walk.comes_note _).bind_quiet (Walk.comes_pure r)
  simp only [takeSide, Drawing.resized, latestLength_singleton, givesSize, List.any_cons,
    List.any_nil, Bool.or_false]
  split
  · cases hl : length? value with
    | some x => simpa [setSide, hl] using Walk.comes_done _
    | none => simpa [setSide, hl] using quiet (s, sized)
  · cases hl : length? value with
    | some x => simpa [setSide, hl] using Walk.comes_done _
    | none => simpa [setSide, hl] using quiet (s, sized)
  · rename_i hw hh
    have hw : name ≠ "width" := hw
    have hh : name ≠ "height" := hh
    simpa [hw, hh] using Walk.comes_done (s, sized)

theorem foldlM_takeSide_comes (attrs : Attributes) (s : Drawing) (sized : Bool) :
    Comes (attrs.foldlM takeSide (s, sized)) [] (.ok (s.resized attrs, sized || givesSize attrs)) := by
  induction attrs generalizing s sized with
  | nil => simpa [givesSize, Drawing.resized, latestLength] using Walk.comes_pure (s, sized)
  | cons a attrs ih =>
    have h := ih (s.resized [a]) (sized || givesSize [a])
    rw [Drawing.resized_append, Bool.or_assoc, ← givesSize_append] at h
    rw [List.foldlM_cons]
    exact (takeSide_comes s sized a).bind_quiet h

/-! ### The fill -/

/-- The fill that the pass settles is the one of the reference. -/
theorem fillCalls_eq (ids : List String) (attrs : Attributes) :
    fillCalls ids attrs = (fillPaint ids attrs).map fun fill => fill.toList.map .setFill := by
  unfold fillCalls fillPaint
  cases attrs.lookup "fill" with
  | none => rfl
  | some value =>
    dsimp only
    cases gradientReference? value with
    | none => rfl
    | some id =>
      by_cases h : id ∈ ids
      · simp [h, Except.map]
      · simp [h, Except.map]

theorem askFill_comes (fill : Option Paint) :
    Comes (askFill fill) (fill.toList.map .setFill) (.ok ()) := by
  cases fill with
  | none => exact Walk.comes_done ()
  | some paint => exact Walk.comes_ask _

def pathCalls (operations : List Operation) (fill : Option Paint) : List Call :=
  .beginPath :: operations.map Operation.call ++ fill.toList.map .setFill ++ [.fill, .closePath]

theorem drawPath_comes (operations : List Operation) (fill : Option Paint) :
    Comes (drawPath operations fill) (pathCalls operations fill) (.ok ()) := by
  have hend : Comes (do Walk.ask .fill; Walk.ask .closePath) [.fill, .closePath] (.ok ()) :=
    (Walk.comes_ask _).bind (Walk.comes_ask _)
  have hall : Comes (drawPath operations fill) _ _ :=
    (Walk.comes_ask .beginPath).bind
      ((Walk.comes_apply operations).bind ((askFill_comes fill).bind hend))
  simpa [pathCalls] using hall

/-! ### Steps of the pass -/

/-- The state of the pass after the events `before`. The pen is as good as new whatever was
    drawn. -/
structure Tracks (before : List Markup.Event) (s : Drawing) : Prop where
  pen : s.pen = .fresh
  width : s.width = latestLength "width" defaultSize (svgAttributes before)
  height : s.height = latestLength "height" defaultSize (svgAttributes before)
  depth : s.defsDepth = openDefs before

theorem tracks_initial : Tracks [] .initial := ⟨rfl, rfl, rfl, rfl⟩

/-- The size is set before what follows, if the tag gives one. -/
theorem comes_resize (h : Tracks before s) (attrs : Attributes) {f : Unit → Walk β}
    {cs : List Call} {result : Except Failure β} (hf : Comes (f ()) cs result) :
    Comes (if givesSize attrs = true then
        Walk.ask (.resize (s.resized attrs).width (s.resized attrs).height) >>= f else f ())
      (sizeCalls (svgAttributes before) attrs ++ cs) result := by
  unfold sizeCalls
  by_cases hg : givesSize attrs = true
  · simp only [hg, if_true, Drawing.resized, h.width, h.height, latestLength_append]
    exact (Walk.comes_ask _).bind hf
  · simp only [hg, Bool.false_eq_true, if_false]
    exact hf

theorem root_carries (h : Tracks before s) (attrs : Attributes) :
    Carries (s.root ids attrs) (svgBlock ids (svgAttributes before) attrs)
      (· = s.resized attrs) := by
  have hsides := foldlM_takeSide_comes attrs s false
  have hfill := Walk.comes_ofExcept (fillPaint ids attrs)
  rw [Bool.false_or] at hsides
  rw [svgBlock, fillCalls_eq]
  unfold Drawing.root
  cases hp : fillPaint ids attrs with
  | error failure =>
    rw [hp] at hfill
    refine carries_error (hsides.bind_quiet ?_)
    rw [← List.append_nil (sizeCalls _ _)]
    exact comes_resize h attrs hfill.bind_error
  | ok fill =>
    rw [hp] at hfill
    have hend := (askFill_comes fill).bind_pure (g := fun _ => s.resized attrs)
    exact carries_ok (hsides.bind_quiet (comes_resize h attrs (hfill.bind_quiet hend))) rfl

/-- The reference resolves a path as the pass does. -/
theorem resolvePath_eq (ids : List String) (attrs : Attributes) (pen : Pen) :
    pathBlock options ids attrs =
      match resolvePath ids (compilePath (pathData attrs) pen.enter).1 attrs with
      | .ok (operations, fill) => ⟨pathCalls operations fill, none⟩
      | .error failure => refusedBlock options failure := by
  rw [pathBlock, compilePath_enter, fillCalls_eq]
  unfold resolvePath pathData
  cases (compilePath ((attrs.lookup "d").getD "") .fresh).1 with
  | error failure => rfl
  | ok operations =>
    cases fillPaint ids attrs with
    | error failure => rfl
    | ok fill => rfl

theorem path_carries (attrs : Attributes) :
    Carries (s.path options ids attrs) (pathBlock options ids attrs) fun t =>
      t.pen = s.pen ∧ t.width = s.width ∧ t.height = s.height ∧ t.defsDepth = s.defsDepth := by
  have hpen := leave_compilePath_enter (pathData attrs) s.pen
  have hnotes := Walk.comes_noteAll (compileJournal (pathData attrs) s.pen.enter)
  rw [resolvePath_eq ids attrs s.pen]
  simp only [Drawing.path, hpen]
  cases resolvePath ids (compilePath (pathData attrs) s.pen.enter).1 attrs with
  | ok drawn =>
    refine carries_ok (a := { s with paths := s.paths + 1 }) ?_ ⟨rfl, rfl, rfl, rfl⟩
    exact hnotes.bind_quiet (drawPath_comes drawn.1 drawn.2).bind_pure
  | error failure =>
    simp only [refusedBlock]
    split
    · refine carries_ok (a := { s with skipped := s.skipped + 1 }) ?_ ⟨rfl, rfl, rfl, rfl⟩
      exact hnotes.bind_quiet (Walk.comes_note (.skippingPath failure)).bind_pure
    · exact carries_error (hnotes.bind_quiet (Walk.comes_fail failure))

/-! ### Tags -/

theorem svgAttributes_snoc (before : List Markup.Event) (event : Markup.Event) :
    svgAttributes (before ++ [event]) = svgAttributes before ++ svgAttributesOf event := by
  simp [svgAttributes]

theorem openDefs_snoc (before : List Markup.Event) (event : Markup.Event) :
    openDefs (before ++ [event]) = depthAfter (openDefs before) event := by
  simp [openDefs]

/-- A step that leaves size and pen alone keeps track of the document, if the depth is right. -/
theorem Tracks.keep {event : Markup.Event} {t : Drawing} (h : Tracks before s)
    (hsvg : svgAttributesOf event = []) (hp : t.pen = s.pen) (hw : t.width = s.width)
    (hh : t.height = s.height) (hd : t.defsDepth = depthAfter s.defsDepth event) :
    Tracks (before ++ [event]) t where
  pen := hp.trans h.pen
  width := by rw [hw, h.width, svgAttributes_snoc, hsvg, List.append_nil]
  height := by rw [hh, h.height, svgAttributes_snoc, hsvg, List.append_nil]
  depth := by rw [hd, h.depth, openDefs_snoc]

def eventOf (tag : Markup.Tag) (whole : Bool) : Markup.Event :=
  if whole then .empty tag else .start tag

theorem tag?_eventOf (tag : Markup.Tag) (whole : Bool) : tag? (eventOf tag whole) = some tag := by
  cases whole <;> rfl

theorem svgAttributesOf_eventOf (tag : Markup.Tag) (whole : Bool) :
    svgAttributesOf (eventOf tag whole) =
      if Markup.localName tag.name = "svg" then tag.attributes.toOption.getD [] else [] := by
  simp only [svgAttributesOf, tag?_eventOf]

theorem depthAfter_eventOf (depth : Nat) (tag : Markup.Tag) (whole : Bool) :
    depthAfter depth (eventOf tag whole) =
      if Markup.localName tag.name = "defs" ∧ whole = false then depth + 1 else depth := by
  cases whole <;> simp [eventOf, depthAfter]

theorem meet_carries (h : Tracks before s) (tag : Markup.Tag) (whole : Bool) :
    Carries (s.meet options ids tag whole) (block options ids before (eventOf tag whole))
      (Tracks (before ++ [eventOf tag whole])) := by
  have hsvg := svgAttributesOf_eventOf tag whole
  have hdepth := depthAfter_eventOf s.defsDepth tag whole
  simp only [block, tag?_eventOf]
  unfold Drawing.meet
  split
  · rename_i hn
    simp only [hn, if_true] at hsvg hdepth ⊢
    refine carries_attributes fun attrs ha => (root_carries h attrs).mono ?_
    rintro t rfl
    rw [ha] at hsvg
    refine ⟨h.pen, ?_, ?_, ?_⟩
    · rw [svgAttributes_snoc, hsvg, ← latestLength_append, ← h.width]
      rfl
    · rw [svgAttributes_snoc, hsvg, ← latestLength_append, ← h.height]
      rfl
    · rw [openDefs_snoc, ← h.depth, hdepth]
      rfl
  · rename_i hn
    simp only [hn] at hsvg hdepth ⊢
    cases whole with
    | false => exact carries_ok (Walk.comes_done _) (h.keep hsvg rfl rfl rfl hdepth.symm)
    | true => exact carries_ok (Walk.comes_done _) (h.keep hsvg rfl rfl rfl hdepth.symm)
  · rename_i hn
    simp only [hn] at hsvg hdepth ⊢
    by_cases hd : 0 < s.defsDepth
    · have hopen : openDefs before ≠ 0 := by
        rw [← h.depth]
        omega
      simp only [hd, hopen, if_true, and_false, if_false]
      exact carries_ok (Walk.comes_note _).bind_pure (h.keep hsvg rfl rfl rfl hdepth.symm)
    · have hopen : openDefs before = 0 := by
        rw [← h.depth]
        omega
      simp only [hd, hopen, if_false, and_self, if_true]
      refine carries_attributes fun attrs _ => (path_carries attrs).mono ?_
      rintro t ⟨hp, hw, hh, ht⟩
      exact h.keep hsvg hp hw hh (ht.trans hdepth.symm)
  · rename_i hs hd hp
    have hs : Markup.localName tag.name ≠ "svg" := hs
    have hd : Markup.localName tag.name ≠ "defs" := hd
    have hp : Markup.localName tag.name ≠ "path" := hp
    simp only [hs, hd, hp, if_false, false_and] at hsvg hdepth ⊢
    exact carries_ok (Walk.comes_note _).bind_pure (h.keep hsvg rfl rfl rfl hdepth.symm)

/-- One step of the pass carries out the block of its event. -/
theorem visit_carries (h : Tracks before s) (event : Markup.Event) :
    Carries (s.visit options ids event) (block options ids before event)
      (Tracks (before ++ [event])) := by
  cases event with
  | start tag => exact meet_carries h tag false
  | empty tag => exact meet_carries h tag true
  | finish name =>
    refine carries_ok (Walk.comes_done _) (h.keep rfl ?_ ?_ ?_ ?_)
    all_goals by_cases hn : Markup.localName name = "defs"
    all_goals simp [hn, depthAfter]

/-! ## The pass -/

/-- What follows a walk that carries out a block carries out the blocks after it. -/
theorem Carries.bind {d : Walk α} {f : α → Walk β} {b : Block} {bs : List Block}
    {post : α → Prop} {last : β → Prop} (hd : Carries d b post)
    (hf : ∀ a, post a → Carries (f a) (.sequence bs) last) :
    Carries (d >>= f) (.sequence (b :: bs)) last := by
  simp only [Block.sequence]
  unfold Carries at hd
  cases hb : b.failure with
  | some failure =>
    rw [hb] at hd
    exact carries_error hd.bind_error
  | none =>
    rw [hb] at hd
    obtain ⟨a, ha, hp⟩ := hd
    have hrest := hf a hp
    unfold Carries at hrest ⊢
    cases hr : (Block.sequence bs).failure with
    | some failure =>
      rw [hr] at hrest
      exact ha.bind hrest
    | none =>
      rw [hr] at hrest
      obtain ⟨c, hc, hl⟩ := hrest
      exact ⟨c, ha.bind hc, hl⟩

/-- The pass carries out the blocks of all events, up to the first that fails. -/
theorem foldlM_visit_carries (h : Tracks before s) (events : List Markup.Event) :
    Carries (events.foldlM (Drawing.visit options ids) s)
      (.sequence (blocks options ids before events)) (Tracks (before ++ events)) := by
  induction events generalizing before s with
  | nil => exact carries_ok (Walk.comes_pure s) (by simpa using h)
  | cons event events ih =>
    rw [List.foldlM_cons, blocks]
    refine (visit_carries h event).bind fun t ht => ?_
    simpa using ih ht

/-- What makes no call and does not fail may follow. -/
theorem Carries.bind_quiet {d : Walk α} {f : α → Walk β} {b : Block} {post : α → Prop}
    (h : Carries d b post) (hf : ∀ a, ∃ c, Comes (f a) [] (.ok c)) :
    Carries (d >>= f) b fun _ => True := by
  unfold Carries at h ⊢
  cases hb : b.failure with
  | some failure =>
    rw [hb] at h
    exact h.bind_error
  | none =>
    rw [hb] at h
    obtain ⟨a, ha, -⟩ := h
    obtain ⟨c, hc⟩ := hf a
    exact ⟨c, by simpa using ha.bind hc, trivial⟩

theorem Carries.outcome {d : Walk α} {b : Block} {post : α → Prop} (h : Carries d b post) :
    d.calls = b.calls ∧ d.failure? = b.failure := by
  unfold Carries at h
  unfold Walk.failure?
  cases hb : b.failure with
  | some failure =>
    rw [hb] at h
    exact ⟨h.calls_eq, by rw [h.result_eq]⟩
  | none =>
    rw [hb] at h
    obtain ⟨a, ha, -⟩ := h
    exact ⟨ha.calls_eq, by rw [ha.result_eq]⟩

/-- A walk that comes to a value has carried out a block that does not fail. -/
theorem Carries.of_ok {d : Walk α} {b : Block} {post : α → Prop} {a : α}
    (h : Carries d b post) (hr : d.result = .ok a) : b.failure = none ∧ post a := by
  unfold Carries at h
  cases hb : b.failure with
  | some failure =>
    rw [hb] at h
    rw [h.result_eq] at hr
    cases hr
  | none =>
    rw [hb] at h
    obtain ⟨c, hc, hp⟩ := h
    rw [hc.result_eq] at hr
    cases hr
    exact ⟨rfl, hp⟩

theorem drawingPass_carries (options : Options) (ids : List String) {reading : Markup.Reading}
    (h : reading.failure = none) :
    Carries (drawingPass options ids reading) (.sequence (blocks options ids [] reading.events))
      fun _ => True := by
  unfold drawingPass pass
  rw [h]
  exact (foldlM_visit_carries tracks_initial reading.events).bind_quiet fun t =>
    ⟨t, Walk.comes_pure t⟩

/-- Once the first pass has got to the end, the calls of a rendering are those of the first pass
    and then the blocks of the document, up to the first that fails; and the rendering fails as
    that block does. -/
theorem drawing_calls_eq_blocks {σ : Type} {surface : Surface σ} (accepts : surface.Accepting)
    (options : Options) (reading : Markup.Reading) (state : σ) {gradients : Gradients}
    (h : (gradientPass reading).result = .ok gradients) :
    let reference := Block.sequence (blocks options gradients.ids [] reading.events)
    callsFor surface options reading state = (gradientPass reading).calls ++ reference.calls ∧
      (replyTo surface options reading state).failure = reference.failure := by
  intro reference
  have hfirst : Comes (gradientPass reading) (gradientPass reading).calls (.ok gradients) :=
    ⟨rfl, h⟩
  have hsecond := (drawingPass_carries options gradients.ids (failure_of_pass_ok h)).bind_quiet
    fun t => ⟨(), Walk.comes_note (.rendered t.paths t.skipped)⟩
  obtain ⟨hcalls, hfailure⟩ := hsecond.outcome
  have hall : Comes (renderReading options reading) _ _ := hfirst.bind (Walk.comes_self _)
  rw [callsFor_of_accepting accepts, failure_of_accepting accepts, hall.calls_eq, hcalls]
  refine ⟨rfl, ?_⟩
  rw [← hfailure]
  simp only [Walk.failure?, hall.result_eq]

def twoPaths : String :=
  "<svg width='4'><path d='z' fill='red'/><path d='Q'/></svg>"

theorem drawing_calls_eq_blocks_twoPaths :
    acceptingRecorder.Accepting ∧ (gradientPass (Markup.read twoPaths)).result = .ok ⟨none, []⟩ ∧
      callsFor acceptingRecorder .strict (Markup.read twoPaths) #[] =
        (gradientPass (Markup.read twoPaths)).calls ++
          (Block.sequence (blocks .strict [] [] (Markup.read twoPaths).events)).calls := by
  have accepts : acceptingRecorder.Accepting := fun _ _ => rfl
  have h : (gradientPass (Markup.read twoPaths)).result = .ok ⟨none, []⟩ := by cbv
  exact ⟨accepts, h, (drawing_calls_eq_blocks accepts .strict (Markup.read twoPaths) #[] h).1⟩

end SvgDraw.Document
