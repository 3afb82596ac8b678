/-
  SvgDraw.Proofs.Document.Passes — what each of the two passes over a document contributes.

  The first pass makes calls that register gradients and no others, and fails exactly if something
  is wrong that it sees: the attributes of a gradient or a stop, or the markup itself. The first
  such fault, in the order of the document, is the failure of the pass (`firstFault`,
  `gradientPass_collects`). The second pass registers nothing, and paints with gradients that were
  registered only (`drawn_draws`); it fails at an `svg` tag or a `path` tag (`drawn_failure`).

  So a rendering is the registrations and then `drawn`, the drawing if there is no fault
  (`renderReading_outcome`). `render_in_two_passes` says which failure wins and what was done
  before it.
-/

import SvgDraw.Proofs.Document.Blocks
import SvgDraw.Proofs.Path.Arity

namespace SvgDraw

def Call.gradient? : Call → Option LinearGradient
  | .register gradient => some gradient
  | _ => none

theorem filterMap_gradient?_register (gs : List LinearGradient) :
    (gs.map Call.register).filterMap Call.gradient? = gs := by
  rw [List.filterMap_map]
  exact List.filterMap_some

namespace Document

open Walk (Comes)

/-! ## Faults -/

def attributeFault (tag : Markup.Tag) : Option Markup.Error :=
  match tag.attributes with
  | .error e => some e
  | .ok _ => none

def gradientFault (event : Markup.Event) : Option Markup.Error :=
  match tag? event with
  | none => none
  | some tag =>
    if Markup.localName tag.name = "linearGradient" ∨ Markup.localName tag.name = "stop" then
      attributeFault tag
    else none

/-- The first fault of a gradient or a stop, or else the error that ended the reading. -/
def firstFault (reading : Markup.Reading) : Option Markup.Error :=
  (reading.events.findSome? gradientFault).or reading.failure

/-! ## The first pass -/

/-- The walk registers gradients, and adds their ids to `ids` unless it ends with the fault. -/
def Collects (ids : List String) (d : Walk Gradients) (fault : Option Markup.Error) : Prop :=
  ∃ gs : List LinearGradient,
    match fault with
    | some e => Comes d (gs.map .register) (.error (.markup e))
    | none => ∃ t, Comes d (gs.map .register) (.ok t) ∧ t.ids = ids ++ gs.map (·.id)

variable {ids : List String} {d : Walk Gradients} {s : Gradients}

theorem collects_quiet {t : Gradients} (h : Comes d [] (.ok t)) (ht : t.ids = ids) :
    Collects ids d none :=
  ⟨[], t, h, by simp [ht]⟩

theorem Collects.bind {f : Gradients → Walk Gradients} {fault next : Option Markup.Error}
    (hd : Collects ids d fault) (hf : ∀ t, Collects t.ids (f t) next) :
    Collects ids (d >>= f) (fault.or next) := by
  obtain ⟨gs, hd⟩ := hd
  cases fault with
  | some e => exact ⟨gs, hd.bind_error⟩
  | none =>
    obtain ⟨t, ht, hids⟩ := hd
    obtain ⟨more, hf⟩ := hf t
    refine ⟨gs ++ more, ?_⟩
    rw [List.map_append]
    cases next with
    | some e => exact ht.bind hf
    | none =>
      obtain ⟨u, hu, hmore⟩ := hf
      exact ⟨u, ht.bind hu, by simp [hmore, hids]⟩

/-- What only reads attributes has the fault of its tag. -/
theorem collects_attributes {tag : Markup.Tag} {f : Attributes → Walk Gradients}
    (h : ∀ attrs, Collects ids (f attrs) none) :
    Collects ids (attributesOf tag >>= f) (attributeFault tag) := by
  have hread := attributesOf_comes tag
  unfold attributeFault
  cases ht : tag.attributes with
  | error e =>
    rw [ht] at hread
    exact ⟨[], hread.bind_error⟩
  | ok attrs =>
    rw [ht] at hread
    obtain ⟨gs, t, hc, hids⟩ := h attrs
    exact ⟨gs, t, hread.bind_quiet hc, hids⟩

def stopOf (attrs : Attributes) : GradientStop where
  offset := ((attrs.lookup "offset").bind offset?).getD 0.0
  color := (attrs.lookup "stop-color").getD "black"

theorem stopOffset_comes (attrs : Attributes) :
    Comes (stopOffset attrs) [] (.ok (stopOf attrs).offset) := by
  simp only [stopOffset, stopOf]
  cases attrs.lookup "offset" with
  | none => exact Walk.comes_done _
  | some value =>
    dsimp only [Option.bind_some]
    cases offset? value with
    | some x => exact Walk.comes_done _
    | none => exact (Walk.comes_note _).bind_pure

theorem addStop_comes (s : Gradients) (attrs : Attributes) :
    Comes (s.addStop attrs) []
      (.ok { s with current := s.current.map (·.addStop (stopOf attrs)) }) := by
  obtain ⟨current, ids⟩ := s
  unfold Gradients.addStop
  cases current with
  | none => exact (Walk.comes_note _).bind_pure
  | some g => exact (stopOffset_comes attrs).bind_pure

theorem finish_comes (s : Gradients) :
    Comes s.finish (s.current.toList.map .register)
      (.ok ⟨none, s.ids ++ s.current.toList.map (·.id)⟩) := by
  obtain ⟨current, ids⟩ := s
  unfold Gradients.finish
  cases current with
  | none => simpa using Walk.comes_done (⟨none, ids⟩ : Gradients)
  | some g => exact (Walk.comes_ask _).bind_pure

theorem addStop_collects (s : Gradients) (attrs : Attributes) :
    Collects s.ids (s.addStop attrs) none :=
  collects_quiet (addStop_comes s attrs) rfl

theorem finish_collects (s : Gradients) : Collects s.ids s.finish none :=
  ⟨s.current.toList, _, finish_comes s, rfl⟩

theorem begin_collects (s : Gradients) (tag : Markup.Tag) :
    Collects s.ids (s.begin tag) (attributeFault tag) :=
  collects_attributes fun _ => collects_quiet (Walk.comes_pure _) rfl

theorem Gradients.meet_collects (s : Gradients) (tag : Markup.Tag) (whole : Bool) :
    Collects s.ids (s.meet tag whole) (gradientFault (eventOf tag whole)) := by
  simp only [gradientFault, tag?_eventOf]
  unfold Gradients.meet
  split
  · rename_i hn
    have hnext : ∀ t : Gradients, Collects t.ids (if whole then t.finish else pure t) none := by
      intro t
      cases whole with
      | true => exact finish_collects t
      | false => exact collects_quiet (Walk.comes_pure t) rfl
    simpa [hn] using (begin_collects s tag).bind hnext
  · rename_i hn
    simpa [hn] using collects_attributes (addStop_collects s)
  · rename_i hg hs
    have hg : Markup.localName tag.name ≠ "linearGradient" := hg
    have hs : Markup.localName tag.name ≠ "stop" := hs
    simpa [hg, hs] using collects_quiet (Walk.comes_done s) rfl

/-- One step of the first pass. -/
theorem Gradients.visit_collects (s : Gradients) (event : Markup.Event) :
    Collects s.ids (s.visit event) (gradientFault event) := by
  cases event with
  | start tag => exact s.meet_collects tag false
  | empty tag => exact s.meet_collects tag true
  | finish name =>
    simp only [Gradients.visit]
    split
    · exact finish_collects s
    · exact collects_quiet (Walk.comes_done s) rfl

theorem foldlM_visit_collects (events : List Markup.Event) (s : Gradients) :
    Collects s.ids (events.foldlM Gradients.visit s) (events.findSome? gradientFault) := by
  induction events generalizing s with
  | nil => exact collects_quiet (Walk.comes_pure s) rfl
  | cons event events ih =>
    have h := (s.visit_collects event).bind ih
    rw [List.foldlM_cons, List.findSome?_cons]
    cases hf : gradientFault event with
    | some e => simpa [hf] using h
    | none => simpa [hf] using h

theorem gradientPass_collects (reading : Markup.Reading) :
    Collects [] (gradientPass reading) (firstFault reading) := by
  refine (foldlM_visit_collects reading.events .initial).bind fun t => ?_
  cases reading.failure with
  | some e => exact ⟨[], Walk.comes_fail _⟩
  | none => exact collects_quiet (Walk.comes_pure t) rfl

def registered (reading : Markup.Reading) : List LinearGradient :=
  (gradientPass reading).calls.filterMap Call.gradient?

def registeredIds (reading : Markup.Reading) : List String :=
  (registered reading).map (·.id)

/-- What the first pass does and comes to. -/
theorem gradientPass_comes (reading : Markup.Reading) :
    match firstFault reading with
    | some e =>
      Comes (gradientPass reading) ((registered reading).map .register) (.error (.markup e))
    | none =>
      ∃ t, Comes (gradientPass reading) ((registered reading).map .register) (.ok t) ∧
        t.ids = registeredIds reading := by
  obtain ⟨gs, h⟩ := gradientPass_collects reading
  have hgs : (gradientPass reading).calls = gs.map .register → registered reading = gs := by
    intro hc
    rw [registered, hc, filterMap_gradient?_register]
  cases hf : firstFault reading with
  | some e =>
    rw [hf] at h
    rw [hgs h.calls_eq]
    exact h
  | none =>
    rw [hf] at h
    obtain ⟨t, ht, hids⟩ := h
    rw [registeredIds, hgs ht.calls_eq]
    exact ⟨t, ht, by simpa using hids⟩

/-! ## The second pass -/

/-- What follows the registrations: nothing if the document has a fault, and else the drawing. -/
def drawn (options : Options) (reading : Markup.Reading) : Block :=
  match firstFault reading with
  | some e => ⟨[], some (.markup e)⟩
  | none => .sequence (blocks options (registeredIds reading) [] reading.events)

/-- A rendering registers the gradients and then draws. -/
theorem renderReading_outcome (options : Options) (reading : Markup.Reading) :
    (renderReading options reading).calls =
        (registered reading).map .register ++ (drawn options reading).calls ∧
      (renderReading options reading).failure? = (drawn options reading).failure := by
  have hfirst := gradientPass_comes reading
  unfold drawn
  cases hf : firstFault reading with
  | some e =>
    rw [hf] at hfirst
    have hall : Comes (renderReading options reading) _ _ := hfirst.bind_error
    exact ⟨by simp [hall.calls_eq], by simp [Walk.failure?, hall.result_eq]⟩
  | none =>
    rw [hf] at hfirst
    obtain ⟨t, ht, hids⟩ := hfirst
    have hread : reading.failure = none := (Option.or_eq_none_iff.mp hf).2
    have hsecond := (drawingPass_carries options (registeredIds reading) hread).bind_quiet
      fun t => ⟨(), Walk.comes_note (.rendered t.paths t.skipped)⟩
    obtain ⟨hcalls, hfailure⟩ := hsecond.outcome
    rw [← hids] at hcalls hfailure ⊢
    have hall : Comes (renderReading options reading) _ _ := ht.bind (Walk.comes_self _)
    refine ⟨by rw [hall.calls_eq, hcalls], ?_⟩
    rw [← hfailure]
    simp only [Walk.failure?, hall.result_eq]

/-! ### Blocks of a list -/

variable {options : Options} {before : List Markup.Event} {event : Markup.Event}
  {failure : Failure}

theorem mem_blocks_iff {b : Block} {events : List Markup.Event} :
    b ∈ blocks options ids before events ↔
      ∃ earlier event later, events = earlier ++ event :: later ∧
        b = block options ids (before ++ earlier) event := by
  induction events generalizing before with
  | nil => simp [blocks]
  | cons event events ih =>
    simp only [blocks, List.mem_cons, ih]
    constructor
    · rintro (rfl | ⟨earlier, next, later, rfl, rfl⟩)
      · exact ⟨[], event, events, rfl, by simp⟩
      · exact ⟨event :: earlier, next, later, rfl, by simp⟩
    · rintro ⟨earlier, next, later, he, rfl⟩
      cases earlier with
      | nil =>
        cases he
        exact .inl (by simp)
      | cons first earlier =>
        cases he
        exact .inr ⟨earlier, next, later, rfl, by simp⟩

theorem Block.mem_sequence_calls {bs : List Block} {call : Call}
    (h : call ∈ (Block.sequence bs).calls) : ∃ b ∈ bs, call ∈ b.calls := by
  induction bs with
  | nil => cases h
  | cons b bs ih =>
    simp only [sequence] at h
    cases hb : b.failure with
    | some failure =>
      simp only [hb] at h
      exact ⟨b, List.mem_cons_self, h⟩
    | none =>
      simp only [hb] at h
      rcases List.mem_append.mp h with h | h
      · exact ⟨b, List.mem_cons_self, h⟩
      · obtain ⟨c, hc, hcall⟩ := ih h
        exact ⟨c, List.mem_cons_of_mem b hc, hcall⟩

theorem Block.sequence_failure {bs : List Block} (h : (Block.sequence bs).failure = some failure) :
    ∃ b ∈ bs, b.failure = some failure := by
  induction bs with
  | nil => cases h
  | cons b bs ih =>
    simp only [sequence] at h
    cases hb : b.failure with
    | some f =>
      simp only [hb] at h
      exact ⟨b, List.mem_cons_self, hb.trans h⟩
    | none =>
      simp only [hb] at h
      obtain ⟨c, hc, hfailure⟩ := ih h
      exact ⟨c, List.mem_cons_of_mem b hc, hfailure⟩

/-! ### Calls of a block -/

/-- The call registers nothing, and a gradient that it paints with is one of `ids`. -/
def Draws (ids : List String) : Call → Prop
  | .register _ => False
  | .setFill (.gradient id) => id ∈ ids
  | .setStroke (.gradient id) => id ∈ ids
  | _ => True

theorem Draws.gradient?_eq_none {call : Call} (h : Draws ids call) : call.gradient? = none := by
  cases call with
  | register g => exact h.elim
  | _ => rfl

theorem operation_draws (operation : Operation) : Draws ids operation.call := by
  cases operation <;> trivial

theorem fillCalls_draws {attrs : Attributes} {calls : List Call}
    (h : fillCalls ids attrs = .ok calls) : ∀ call ∈ calls, Draws ids call := by
  unfold fillCalls at h
  split at h
  · cases h
    simp
  · split at h
    · cases h
      simp [Draws]
    · split at h
      · rename_i hmem
        cases h
        simpa [Draws] using hmem
      · cases h

theorem svgBlock_draws (earlier attrs : Attributes) :
    ∀ call ∈ (svgBlock ids earlier attrs).calls, Draws ids call := by
  have hsize : ∀ call ∈ sizeCalls earlier attrs, Draws ids call := by
    unfold sizeCalls
    split <;> simp [Draws]
  unfold svgBlock
  cases hf : fillCalls ids attrs with
  | error failure => exact hsize
  | ok fill =>
    intro call hc
    rcases List.mem_append.mp hc with hc | hc
    · exact hsize call hc
    · exact fillCalls_draws hf call hc

theorem pathBlock_draws (attrs : Attributes) :
    ∀ call ∈ (pathBlock options ids attrs).calls, Draws ids call := by
  have hrefused : ∀ failure, ∀ call ∈ (refusedBlock options failure).calls, Draws ids call := by
    intro failure
    unfold refusedBlock
    split <;> simp [Block.empty]
  unfold pathBlock
  split
  · exact hrefused _
  · cases hf : fillCalls ids attrs with
    | error failure => exact hrefused failure
    | ok fill =>
      have hfill := fillCalls_draws hf
      intro call hc
      simp only [List.mem_append, List.mem_cons, List.mem_map, List.not_mem_nil, or_false] at hc
      rcases hc with ((rfl | ⟨operation, -, rfl⟩) | hc) | rfl | rfl
      · trivial
      · exact operation_draws operation
      · exact hfill call hc
      · trivial
      · trivial

theorem attributeBlock_draws {tag : Markup.Tag} {of : Attributes → Block}
    (h : ∀ attrs, ∀ call ∈ (of attrs).calls, Draws ids call) :
    ∀ call ∈ (attributeBlock tag of).calls, Draws ids call := by
  unfold attributeBlock
  split
  · simp
  · exact h _

theorem block_draws : ∀ call ∈ (block options ids before event).calls, Draws ids call := by
  unfold block
  split
  · simp [Block.empty]
  · split
    · exact attributeBlock_draws (svgBlock_draws _)
    · split
      · exact attributeBlock_draws pathBlock_draws
      · simp [Block.empty]

/-- The second pass registers nothing and paints with gradients of the document only. -/
theorem drawn_draws (options : Options) (reading : Markup.Reading) :
    ∀ call ∈ (drawn options reading).calls, Draws (registeredIds reading) call := by
  intro call hc
  unfold drawn at hc
  split at hc
  · cases hc
  · obtain ⟨b, hb, hc⟩ := Block.mem_sequence_calls hc
    obtain ⟨earlier, event, later, -, rfl⟩ := mem_blocks_iff.mp hb
    exact block_draws call hc

/-! ### Failures of a block -/

/-- The tag is one that the second pass looks at: of an `svg` element, or of a `path` element
    outside of `defs`. -/
def DrawnTag (before : List Markup.Event) (tag : Markup.Tag) : Prop :=
  Markup.localName tag.name = "svg" ∨ Markup.localName tag.name = "path" ∧ openDefs before = 0

/-- The failure is of a kind that the second pass can end with at this event: a tag that it looks
    at has attributes that cannot be read, path data that cannot, or an unknown gradient. -/
def DrawingFailure (before : List Markup.Event) (event : Markup.Event) (failure : Failure) : Prop :=
  ∃ tag, tag? event = some tag ∧ DrawnTag before tag ∧
    ((∃ e, attributeFault tag = some e ∧ failure = .markup e) ∨ (∃ e, failure = .lex e) ∨
      ∃ id, failure = .unknownGradient id)

theorem fillCalls_failure {attrs : Attributes} (h : fillCalls ids attrs = .error failure) :
    ∃ id, failure = .unknownGradient id := by
  unfold fillCalls at h
  split at h
  · cases h
  · split at h
    · cases h
    · split at h
      · cases h
      · cases h
        exact ⟨_, rfl⟩

theorem svgBlock_failure {earlier attrs : Attributes}
    (h : (svgBlock ids earlier attrs).failure = some failure) :
    ∃ id, failure = .unknownGradient id := by
  unfold svgBlock at h
  cases hf : fillCalls ids attrs with
  | ok fill => simp [hf] at h
  | error f =>
    simp only [hf, Option.some.injEq] at h
    exact h ▸ fillCalls_failure hf

theorem pathBlock_failure {attrs : Attributes}
    (h : (pathBlock options ids attrs).failure = some failure) :
    (∃ e, failure = .lex e) ∨ ∃ id, failure = .unknownGradient id := by
  have hrefused : ∀ f, (refusedBlock options f).failure = some failure → f = failure := by
    intro f hf
    unfold refusedBlock at hf
    split at hf
    · cases hf
    · simpa using hf
  unfold pathBlock at h
  split at h
  · rename_i f hcompiled
    obtain ⟨e, -, rfl⟩ := (compilePath_eq_error_iff _ _ _).mp hcompiled
    exact .inl ⟨e, (hrefused _ h).symm⟩
  · split at h
    · rename_i f hfill
      exact .inr (hrefused f h ▸ fillCalls_failure hfill)
    · cases h

theorem attributeBlock_failure {tag : Markup.Tag} {of : Attributes → Block}
    (h : (attributeBlock tag of).failure = some failure) :
    (∃ e, attributeFault tag = some e ∧ failure = .markup e) ∨
      ∃ attrs, tag.attributes = .ok attrs ∧ (of attrs).failure = some failure := by
  unfold attributeBlock at h
  unfold attributeFault
  cases ht : tag.attributes with
  | error e =>
    simp only [ht, Option.some.injEq] at h
    exact .inl ⟨e, rfl, h.symm⟩
  | ok attrs =>
    rw [ht] at h
    exact .inr ⟨attrs, rfl, h⟩

theorem block_failure (h : (block options ids before event).failure = some failure) :
    DrawingFailure before event failure := by
  unfold block at h
  split at h
  · cases h
  · rename_i tag ht
    split at h
    · rename_i hsvg
      refine ⟨tag, ht, .inl hsvg, ?_⟩
      rcases attributeBlock_failure h with hattrs | ⟨attrs, -, h⟩
      · exact .inl hattrs
      · exact .inr (.inr (svgBlock_failure h))
    · split at h
      · rename_i hpath
        refine ⟨tag, ht, .inr hpath, ?_⟩
        rcases attributeBlock_failure h with hattrs | ⟨attrs, -, h⟩
        · exact .inl hattrs
        · exact .inr (pathBlock_failure h)
      · cases h

/-- Without a fault a rendering fails at a tag that the second pass looks at. -/
theorem drawn_failure {reading : Markup.Reading} (hf : firstFault reading = none)
    (h : (drawn options reading).failure = some failure) :
    ∃ before event after, reading.events = before ++ event :: after ∧
      DrawingFailure before event failure := by
  unfold drawn at h
  rw [hf] at h
  obtain ⟨b, hb, h⟩ := Block.sequence_failure h
  obtain ⟨earlier, event, later, hevents, rfl⟩ := mem_blocks_iff.mp hb
  exact ⟨earlier, event, later, hevents, block_failure h⟩

/-! ## Both passes -/

/-- On a surface that refuses nothing, all gradients are registered before anything else is asked.
    The first fault of a document is what its rendering fails with, whatever else is wrong with
    the document, and nothing but registrations comes before it. Path data that cannot be read,
    unknown gradients, and attributes of `svg` and `path` tags only matter if there is no fault. -/
theorem render_in_two_passes {σ : Type} {surface : Surface σ} (accepts : surface.Accepting)
    (options : Options) (reading : Markup.Reading) (state : σ) :
    let calls := callsFor surface options reading state
    let failure := (replyTo surface options reading state).failure
    (∃ first second, calls = first ++ second ∧ (∀ call ∈ first, call.gradient?.isSome) ∧
      ∀ call ∈ second, call.gradient? = none) ∧
    (∀ e, firstFault reading = some e →
      failure = some (.markup e) ∧ ∀ call ∈ calls, call.gradient?.isSome) ∧
    (∀ f, failure = some f → (∃ e, f = .lex e) ∨ (∃ id, f = .unknownGradient id) →
      firstFault reading = none) ∧
    (∀ e, failure = some (.markup e) →
      firstFault reading = some e ∨
        firstFault reading = none ∧ ∃ before event after tag,
          reading.events = before ++ event :: after ∧ tag? event = some tag ∧
            DrawnTag before tag ∧ attributeFault tag = some e) := by
  intro calls failure
  obtain ⟨hcalls, hfailure⟩ := renderReading_outcome options reading
  have hcalls : calls = (registered reading).map .register ++ (drawn options reading).calls :=
    (callsFor_of_accepting accepts options reading state).trans hcalls
  have hfailure : failure = (drawn options reading).failure :=
    (failure_of_accepting accepts options reading state).trans hfailure
  have hfirst : ∀ call ∈ (registered reading).map Call.register, call.gradient?.isSome := by
    intro call hc
    obtain ⟨g, -, rfl⟩ := List.mem_map.mp hc
    rfl
  have hfault : ∀ e, firstFault reading = some e → drawn options reading = ⟨[], some (.markup e)⟩ := by
    intro e he
    simp only [drawn, he]
  refine ⟨⟨_, _, hcalls, hfirst, fun call hc => ?_⟩, ?_, ?_, ?_⟩
  · exact (drawn_draws options reading call hc).gradient?_eq_none
  · intro e he
    rw [hfault e he] at hcalls hfailure
    rw [hfailure, hcalls]
    exact ⟨rfl, by simpa using hfirst⟩
  · intro f hf hkind
    cases hfirstFault : firstFault reading with
    | none => rfl
    | some e =>
      rw [hfailure, hfault e hfirstFault] at hf
      cases hf
      rcases hkind with ⟨_, h⟩ | ⟨_, h⟩ <;> cases h
  · intro e he
    cases hfirstFault : firstFault reading with
    | some e' =>
      rw [hfailure, hfault e' hfirstFault] at he
      cases he
      exact .inl rfl
    | none =>
      rw [hfailure] at he
      obtain ⟨before, event, after, hevents, tag, htag, hdrawn, hkind⟩ :=
        drawn_failure hfirstFault he
      refine .inr ⟨rfl, before, event, after, tag, hevents, htag, hdrawn, ?_⟩
      rcases hkind with ⟨_, hattrs, h⟩ | ⟨_, h⟩ | ⟨_, h⟩
      · cases h
        exact hattrs
      · cases h
      · cases h

/-- A document with a path that cannot be read, before a stop whose attributes cannot and an end
    tag that does not match. -/
def threeFaults : String :=
  "<svg><linearGradient id='a'/><path d='Q' fill='url(#b)'/><stop offset/><path></svg>"

theorem render_in_two_passes_threeFaults :
    acceptingRecorder.Accepting ∧
      firstFault (Markup.read threeFaults) = some (.attributes (.expectedEquals 11)) ∧
      (replyTo acceptingRecorder .strict (Markup.read threeFaults) #[]).failure =
        some (.markup (.attributes (.expectedEquals 11))) ∧
      ∀ call ∈ callsFor acceptingRecorder .strict (Markup.read threeFaults) #[],
        call.gradient?.isSome := by
  have accepts : acceptingRecorder.Accepting := fun _ _ => rfl
  have hfault : firstFault (Markup.read threeFaults) = some (.attributes (.expectedEquals 11)) := by
    decide +kernel
  obtain ⟨-, hpasses, -, -⟩ := render_in_two_passes accepts .strict (Markup.read threeFaults) #[]
  exact ⟨accepts, hfault, hpasses _ hfault⟩

end Document

end SvgDraw
