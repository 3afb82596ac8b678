/-
  SvgDraw.Proofs.Document.Sizing — when a surface is resized after something was drawn on it.

  The size is set by `svg` tags, wherever they stand, and not only by the first one: an `svg` tag
  that gives a length for a side makes the call (`resize_mem_block_iff`). A path outside of `defs`
  that can be drawn begins a path (`beginPath_mem_block_iff`). So on a surface that refuses
  nothing the size is set after a path was begun exactly if an `svg` tag with a size stands behind
  a path that is drawn and the rendering gets that far (`SizedLate`, `sized_before_paths_iff`).
  This happens with an `svg` element inside of another one (`nestedSize`).
-/

import SvgDraw.Proofs.Document.Skipping

namespace SvgDraw.Document

variable {options : Options} {ids : List String} {before events : List Markup.Event}
  {event : Markup.Event} {earlier attrs : Attributes}

/-! ## Tags that draw and tags that give a size -/

/-- The event, when `before` precedes it, is the tag of a path that is drawn. -/
def drawsPath (ids : List String) (before : List Markup.Event) (event : Markup.Event) : Bool :=
  match tag? event with
  | none => false
  | some tag =>
    Markup.localName tag.name = "path" && openDefs before = 0 &&
      match tag.attributes with
      | .error _ => false
      | .ok attrs => !unresolvable ids attrs

def setsSize (event : Markup.Event) : Bool :=
  givesSize (svgAttributesOf event)

/-! ## Calls of a block -/

/-- An `svg` tag sets the size and then its fill, if it fails at neither. -/
theorem svgBlock_calls (ids : List String) (earlier attrs : Attributes) :
    ∃ fill : Option Paint,
      (svgBlock ids earlier attrs).calls = sizeCalls earlier attrs ++ fill.toList.map .setFill ∧
        ((svgBlock ids earlier attrs).failure = none → fillPaint ids attrs = .ok fill) := by
  unfold svgBlock
  rw [fillCalls_eq]
  cases fillPaint ids attrs with
  | error failure => exact ⟨none, by simp [Except.map], by simp [Except.map]⟩
  | ok fill => exact ⟨fill, rfl, fun _ => rfl⟩

/-- A path that cannot be drawn makes no call. -/
theorem pathBlock_calls_of_unresolvable (h : unresolvable ids attrs = true) :
    (pathBlock options ids attrs).calls = [] := by
  have hok := isOk_resolvePath ids attrs Pen.fresh.enter
  rw [resolvePath_eq ids attrs .fresh]
  cases hr : resolvePath ids (compilePath (pathData attrs) Pen.fresh.enter).1 attrs with
  | ok calls => simp [hr, h, Except.isOk, Except.toBool] at hok
  | error failure =>
    simp only [refusedBlock]
    split
    · rfl
    · rfl

/-- A path that can be drawn is drawn with its own fill. -/
theorem pathBlock_eq_of_resolvable (options : Options) (h : unresolvable ids attrs = false) :
    ∃ operations fill, fillPaint ids attrs = .ok fill ∧
      pathBlock options ids attrs = ⟨pathCalls operations fill, none⟩ := by
  have hok := isOk_resolvePath ids attrs Pen.fresh.enter
  rw [resolvePath_eq ids attrs .fresh]
  cases hc : (compilePath (pathData attrs) Pen.fresh.enter).1 with
  | error failure => simp [hc, h, resolvePath, bind, Except.bind, Except.isOk, Except.toBool] at hok
  | ok operations =>
    cases hp : fillPaint ids attrs with
    | error failure =>
      simp [hc, hp, h, resolvePath, bind, Except.bind, Except.isOk, Except.toBool] at hok
    | ok fill =>
      refine ⟨operations, fill, rfl, ?_⟩
      simp only [resolvePath, hp]
      rfl

theorem resize_mem_svgBlock_iff {w h : Float} :
    .resize w h ∈ (svgBlock ids earlier attrs).calls ↔ .resize w h ∈ sizeCalls earlier attrs := by
  obtain ⟨fill, hcalls, -⟩ := svgBlock_calls ids earlier attrs
  simp [hcalls]

theorem beginPath_not_mem_svgBlock : .beginPath ∉ (svgBlock ids earlier attrs).calls := by
  obtain ⟨fill, hcalls, -⟩ := svgBlock_calls ids earlier attrs
  rw [hcalls, sizeCalls]
  by_cases hg : givesSize attrs = true
  · simp [hg]
  · simp [hg]

theorem beginPath_mem_pathBlock_iff :
    .beginPath ∈ (pathBlock options ids attrs).calls ↔ unresolvable ids attrs = false := by
  cases hu : unresolvable ids attrs with
  | true => simp [pathBlock_calls_of_unresolvable hu]
  | false =>
    obtain ⟨operations, fill, -, hb⟩ := pathBlock_eq_of_resolvable options hu
    simp [hb, pathCalls]

theorem resize_not_mem_pathBlock {w h : Float} :
    .resize w h ∉ (pathBlock options ids attrs).calls := by
  cases hu : unresolvable ids attrs with
  | true => simp [pathBlock_calls_of_unresolvable hu]
  | false =>
    obtain ⟨operations, fill, -, hb⟩ := pathBlock_eq_of_resolvable options hu
    have hoperation : ∀ operation : Operation, operation.call ≠ .resize w h := by
      intro operation
      cases operation <;> simp [Operation.call]
    simp [hb, pathCalls, hoperation]

theorem beginPath_mem_block_iff :
    .beginPath ∈ (block options ids before event).calls ↔ drawsPath ids before event = true := by
  unfold block drawsPath
  cases ht : tag? event with
  | none => simp [Block.empty]
  | some tag =>
    dsimp only
    by_cases hsvg : Markup.localName tag.name = "svg"
    · rw [if_pos hsvg]
      cases ha : tag.attributes with
      | error e => simp [attributeBlock, ha]
      | ok attrs => simp [attributeBlock, ha, beginPath_not_mem_svgBlock, hsvg]
    · rw [if_neg hsvg]
      by_cases hpath : Markup.localName tag.name = "path" ∧ openDefs before = 0
      · rw [if_pos hpath]
        cases ha : tag.attributes with
        | error e => simp [attributeBlock, ha]
        | ok attrs => simp [attributeBlock, ha, beginPath_mem_pathBlock_iff, hpath]
      · rw [if_neg hpath]
        have hno : (Markup.localName tag.name = "path" && openDefs before = 0 : Bool) = false := by
          simpa using hpath
        simp [Block.empty, hno]

/-- An `svg` tag sets the size that it and the `svg` tags before it give, and no other tag sets
    one. -/
theorem mem_block_iff_sizeCalls {w h : Float} :
    .resize w h ∈ (block options ids before event).calls ↔
      .resize w h ∈ sizeCalls (svgAttributes before) (svgAttributesOf event) := by
  have hempty : givesSize [] = false := rfl
  unfold block svgAttributesOf
  cases ht : tag? event with
  | none => simp [Block.empty, sizeCalls, hempty]
  | some tag =>
    dsimp only
    by_cases hsvg : Markup.localName tag.name = "svg"
    · rw [if_pos hsvg, if_pos hsvg]
      cases ha : tag.attributes with
      | error e => simp [attributeBlock, ha, Except.toOption, sizeCalls, hempty]
      | ok attrs =>
        simp only [attributeBlock, ha, Except.toOption, Option.getD_some]
        exact resize_mem_svgBlock_iff
    · rw [if_neg hsvg, if_neg hsvg]
      split
      · cases ha : tag.attributes with
        | error e => simp [attributeBlock, ha, sizeCalls, hempty]
        | ok attrs => simp [attributeBlock, ha, resize_not_mem_pathBlock, sizeCalls, hempty]
      · simp [Block.empty, sizeCalls, hempty]

theorem resize_mem_block_iff :
    (∃ w h, .resize w h ∈ (block options ids before event).calls) ↔ setsSize event = true := by
  simp only [mem_block_iff_sizeCalls, sizeCalls, setsSize]
  by_cases hg : givesSize (svgAttributesOf event) = true
  · simp [hg]
  · simp [hg]

/-- No tag both begins a path and sets the size. -/
theorem not_setsSize_of_drawsPath (h : drawsPath ids before event = true) :
    setsSize event = false := by
  unfold drawsPath at h
  unfold setsSize svgAttributesOf
  cases ht : tag? event with
  | none => rfl
  | some tag =>
    have hname : Markup.localName tag.name = "path" := by
      simp only [ht, Bool.and_eq_true, decide_eq_true_eq] at h
      exact h.1.1
    simp [hname, givesSize]

/-! ## Order of calls -/

/-- A pair of entries stands in order in a list of two parts: in the first, in the second, or one
    in each. -/
theorem pair_sublist_append {α : Type} {a b : α} {xs ys : List α} :
    List.Sublist [a, b] (xs ++ ys) ↔
      List.Sublist [a, b] xs ∨ List.Sublist [a, b] ys ∨ a ∈ xs ∧ b ∈ ys := by
  constructor
  · intro h
    obtain ⟨first, second, hsplit, hx, hy⟩ := List.sublist_append_iff.mp h
    match first, hsplit with
    | [], hsplit =>
      cases hsplit
      exact .inr (.inl hy)
    | [c], hsplit =>
      cases hsplit
      exact .inr (.inr ⟨List.singleton_sublist.mp hx, List.singleton_sublist.mp hy⟩)
    | c :: d :: more, hsplit =>
      simp only [List.cons_append, List.cons.injEq] at hsplit
      obtain ⟨rfl, rfl, hnil⟩ := hsplit
      rw [(List.append_eq_nil_iff.mp hnil.symm).1] at hx
      exact .inl hx
  · rintro (h | h | ⟨ha, hb⟩)
    · exact h.trans (List.sublist_append_left _ _)
    · exact h.trans (List.sublist_append_right _ _)
    · exact (List.singleton_sublist.mpr ha).append (List.singleton_sublist.mpr hb)

def Reaches (options : Options) (ids : List String) (before events : List Markup.Event) : Prop :=
  (Block.sequence (blocks options ids before events)).failure = none

theorem reaches_cons :
    Reaches options ids before (event :: events) ↔
      (block options ids before event).failure = none ∧
        Reaches options ids (before ++ [event]) events := by
  unfold Reaches
  rw [blocks, Block.sequence]
  cases (block options ids before event).failure with
  | some failure => simp
  | none => simp

/-- The calls of a sequence are those of its first block, and of the others if that one does not
    fail. -/
theorem sequence_calls_cons (b : Block) (bs : List Block) :
    (Block.sequence (b :: bs)).calls =
      b.calls ++ if b.failure = none then (Block.sequence bs).calls else [] := by
  rw [Block.sequence]
  cases b.failure with
  | some failure => simp
  | none => simp

/-- A list is split at its first entry or further on. -/
theorem exists_split_cons {α : Type} {x : α} {xs : List α} {p : List α → α → List α → Prop} :
    (∃ as a bs, x :: xs = as ++ a :: bs ∧ p as a bs) ↔
      p [] x xs ∨ ∃ as a bs, xs = as ++ a :: bs ∧ p (x :: as) a bs := by
  constructor
  · rintro ⟨as, a, bs, hsplit, h⟩
    cases as with
    | nil =>
      cases hsplit
      exact .inl h
    | cons b as =>
      cases hsplit
      exact .inr ⟨as, a, bs, rfl, h⟩
  · rintro (h | ⟨as, a, bs, rfl, h⟩)
    · exact ⟨[], x, xs, rfl, h⟩
    · exact ⟨x :: as, a, bs, rfl, h⟩

/-- The calls of a pass are those of the events that it gets to. -/
theorem mem_sequence_iff {call : Call} :
    call ∈ (Block.sequence (blocks options ids before events)).calls ↔
      ∃ between event after, events = between ++ event :: after ∧
        call ∈ (block options ids (before ++ between) event).calls ∧
        Reaches options ids before between := by
  induction events generalizing before with
  | nil => simp [blocks, Block.sequence, Block.empty]
  | cons event events ih =>
    rw [exists_split_cons, blocks, sequence_calls_cons, List.mem_append]
    simp only [reaches_cons, List.append_nil]
    apply or_congr
    · have hnil : Reaches options ids before [] := rfl
      rw [and_iff_left hnil]
    · by_cases hf : (block options ids before event).failure = none
      · simp only [hf, if_true, true_and]
        rw [ih]
        simp only [List.append_assoc, List.singleton_append]
      · simp [hf]

/-- The size is set by the tags that give one and that the pass gets to. -/
theorem resize_mem_sequence_iff :
    (∃ w h, .resize w h ∈ (Block.sequence (blocks options ids before events)).calls) ↔
      ∃ between svg after, events = between ++ svg :: after ∧ setsSize svg = true ∧
        Reaches options ids before between := by
  constructor
  · rintro ⟨w, h, hmem⟩
    obtain ⟨between, svg, after, hevents, hcall, hreach⟩ := mem_sequence_iff.mp hmem
    exact ⟨between, svg, after, hevents, resize_mem_block_iff.mp ⟨w, h, hcall⟩, hreach⟩
  · rintro ⟨between, svg, after, hevents, hsize, hreach⟩
    obtain ⟨w, h, hcall⟩ := resize_mem_block_iff.mpr hsize
    exact ⟨w, h, mem_sequence_iff.mpr ⟨between, svg, after, hevents, hcall, hreach⟩⟩

/-- The size is set after a path was begun if a tag that gives one stands behind a path that is
    drawn and the pass gets to it. -/
theorem pair_sublist_sequence_iff :
    (∃ w h, List.Sublist [.beginPath, .resize w h]
        (Block.sequence (blocks options ids before events)).calls) ↔
      ∃ earlier path later, events = earlier ++ path :: later ∧
        drawsPath ids (before ++ earlier) path = true ∧
        ∃ between svg after, later = between ++ svg :: after ∧ setsSize svg = true ∧
          Reaches options ids before (earlier ++ path :: between) := by
  induction events generalizing before with
  | nil => simp [blocks, Block.sequence, Block.empty]
  | cons event events ih =>
    have hone : ∀ w h, ¬ List.Sublist [.beginPath, .resize w h]
        (block options ids before event).calls := by
      intro w h hs
      have hdraws := beginPath_mem_block_iff.mp (hs.subset List.mem_cons_self)
      have hsize := resize_mem_block_iff.mp ⟨w, h, hs.subset (by simp)⟩
      rw [not_setsSize_of_drawsPath hdraws] at hsize
      cases hsize
    rw [exists_split_cons, blocks, sequence_calls_cons]
    simp only [pair_sublist_append, hone, false_or, beginPath_mem_block_iff, exists_or,
      List.append_nil, List.nil_append, List.cons_append, reaches_cons]
    rw [or_comm]
    by_cases hf : (block options ids before event).failure = none
    · simp only [hf, if_true, true_and]
      apply or_congr
      · rw [← resize_mem_sequence_iff]
        simp only [exists_and_left]
      · rw [ih]
        simp only [List.append_assoc, List.singleton_append]
    · simp [hf]

/-! ## Renderings -/

/-- An `svg` tag that gives a size stands behind a path that is drawn, and a rendering gets to
    it. -/
def SizedLate (options : Options) (reading : Markup.Reading) : Prop :=
  firstFault reading = none ∧
    ∃ earlier path between svg after,
      reading.events = earlier ++ path :: (between ++ svg :: after) ∧
        drawsPath (registeredIds reading) earlier path = true ∧ setsSize svg = true ∧
        Reaches options (registeredIds reading) [] (earlier ++ path :: between)

theorem pair_sublist_drawn_iff (options : Options) (reading : Markup.Reading) :
    (∃ w h, List.Sublist [.beginPath, .resize w h] (drawn options reading).calls) ↔
      SizedLate options reading := by
  unfold drawn SizedLate
  cases hfault : firstFault reading with
  | some e => simp
  | none =>
    rw [pair_sublist_sequence_iff]
    constructor
    · rintro ⟨earlier, path, later, hevents, hdraws, between, svg, after, rfl, hsize, hreach⟩
      exact ⟨rfl, earlier, path, between, svg, after, hevents, hdraws, hsize, hreach⟩
    · rintro ⟨-, earlier, path, between, svg, after, hevents, hdraws, hsize, hreach⟩
      exact ⟨earlier, path, _, hevents, hdraws, between, svg, after, rfl, hsize, hreach⟩

/-- On a surface that refuses nothing, the size is never set after a path was begun exactly if no
    `svg` tag that gives a size, and that the rendering gets to, stands behind a path that is
    drawn. -/
theorem sized_before_paths_iff {σ : Type} {surface : Surface σ} (accepts : surface.Accepting)
    (options : Options) (reading : Markup.Reading) (state : σ) :
    (∀ w h, ¬ List.Sublist [.beginPath, .resize w h] (callsFor surface options reading state)) ↔
      ¬ SizedLate options reading := by
  have hcalls : callsFor surface options reading state =
      (registered reading).map .register ++ (drawn options reading).calls :=
    (callsFor_of_accepting accepts options reading state).trans
      (renderReading_outcome options reading).1
  -- Registering begins no path.
  have hfirst : Call.beginPath ∉ (registered reading).map .register := by simp
  rw [← pair_sublist_drawn_iff, hcalls]
  simp only [pair_sublist_append, not_exists]
  constructor
  · intro h w k hs
    exact h w k (.inr (.inl hs))
  · rintro h w k (hs | hs | ⟨hb, -⟩)
    · exact hfirst (hs.subset List.mem_cons_self)
    · exact h w k hs
    · exact hfirst hb

/-- A document with an `svg` element behind a path, inside of the root. -/
def nestedSize : String :=
  "<svg width='20' height='20'><path d='M0 0'/><svg width='10'/></svg>"

/-- The second `svg` element resizes the surface after the path. -/
theorem sized_before_paths_iff_nestedSize :
    acceptingRecorder.Accepting ∧
      callsFor acceptingRecorder .strict (Markup.read nestedSize) #[] =
        [.resize 20.0 20.0, .beginPath, .moveTo ⟨0.0, 0.0⟩, .fill, .closePath,
          .resize 10.0 20.0] ∧
      SizedLate .strict (Markup.read nestedSize) := by
  have accepts : acceptingRecorder.Accepting := fun _ _ => rfl
  have hcalls : callsFor acceptingRecorder .strict (Markup.read nestedSize) #[] =
      [.resize 20.0 20.0, .beginPath, .moveTo ⟨0.0, 0.0⟩, .fill, .closePath,
        .resize 10.0 20.0] := by
    decide +kernel
  refine ⟨accepts, hcalls, ?_⟩
  by_contra hnot
  have hnever := (sized_before_paths_iff accepts .strict (Markup.read nestedSize) #[]).mpr hnot
  rw [hcalls] at hnever
  exact hnever 10.0 20.0 (by decide +kernel)

end SvgDraw.Document
