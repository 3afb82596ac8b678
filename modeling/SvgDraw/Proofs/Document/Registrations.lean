/-
  SvgDraw.Proofs.Document.Registrations — which gradients a document registers.

  The first pass keeps one gradient at a time. What it registers can be said without that slot,
  from the places of the tags alone (`gradientsIn`): a gradient element without content is
  registered as it is. A start tag is registered if the next tag of a gradient, of whichever kind,
  is an end tag, with the stops between the two. No other tag is. So a gradient inside of another
  one takes its place for good, and stops that are not between two such tags go nowhere
  (`enclosedStops`).

  A step of the pass is split into what happens to the slot (`slotAfter`) and what is registered
  (`releases`; `visit_comes`). Over a run, what is registered is what comes of the gradient in the
  slot (`pending`), and then the gradients of the tags to come (`released_eq`). A pass that ends at
  a fault has registered what stands before it (`registered_eq_collected`).
-/

import SvgDraw.Proofs.Document.Passes
import SvgDraw.Proofs.Document.Refusal

namespace SvgDraw.Document

open Walk (Comes)

/-! ## The reference -/

def marksGradient : Markup.Event → Bool
  | .start tag => Markup.localName tag.name = "linearGradient"
  | .empty tag => Markup.localName tag.name = "linearGradient"
  | .finish name => Markup.localName name = "linearGradient"

def readAttributes (tag : Markup.Tag) : Attributes :=
  tag.attributes.toOption.getD []

def stop? (event : Markup.Event) : Option GradientStop :=
  match tag? event with
  | some tag =>
    if Markup.localName tag.name = "stop" then some (stopOf (readAttributes tag)) else none
  | none => none

/-- The stops of the tags before the next one of a gradient. -/
def nearStops (events : List Markup.Event) : List GradientStop :=
  (events.takeWhile (!marksGradient ·)).filterMap stop?

def finishesNext (events : List Markup.Event) : Bool :=
  match events.find? marksGradient with
  | some (.finish _) => true
  | _ => false

/-- The gradient that is registered because of a tag, when `after` follows it. -/
def gradientAt (event : Markup.Event) (after : List Markup.Event) : Option LinearGradient :=
  if marksGradient event then
    match event with
    | .start tag =>
      if finishesNext after then
        some { gradientOf (readAttributes tag) with stops := nearStops after }
      else none
    | .empty tag => some (gradientOf (readAttributes tag))
    | .finish _ => none
  else none

def gradientsIn : List Markup.Event → List LinearGradient
  | [] => []
  | event :: after => (gradientAt event after).toList ++ gradientsIn after

/-- A tag between `before` and `after` is between the start tag of a gradient and the next tag of
    one, which is an end tag. -/
def enclosed (before after : List Markup.Event) : Bool :=
  match before.reverse.find? marksGradient with
  | some (.start _) => finishesNext after
  | _ => false

def enclosedStops : List Markup.Event → List Markup.Event → List GradientStop
  | _, [] => []
  | before, event :: after =>
    (if enclosed before after then (stop? event).toList else []) ++
      enclosedStops (before ++ [event]) after

variable {event : Markup.Event} {before after events : List Markup.Event}

/-! ### One more tag -/

theorem nearStops_of_mark (h : marksGradient event = true) : nearStops (event :: after) = [] := by
  simp [nearStops, h]

theorem nearStops_cons (h : marksGradient event = false) :
    nearStops (event :: after) = (stop? event).toList ++ nearStops after := by
  cases hs : stop? event with
  | none => simp [nearStops, h, hs]
  | some stop => simp [nearStops, h, hs]

theorem finishesNext_cons (h : marksGradient event = false) :
    finishesNext (event :: after) = finishesNext after := by
  simp [finishesNext, h]

theorem gradientAt_of_not_mark (h : marksGradient event = false) : gradientAt event after = none := by
  simp [gradientAt, h]

/-- No tag is both of a gradient and of a stop. -/
theorem stop?_of_mark (h : marksGradient event = true) : stop? event = none := by
  have htag : ∀ tag : Markup.Tag, Markup.localName tag.name = "linearGradient" →
      ¬ Markup.localName tag.name = "stop" := by
    intro tag hname
    rw [hname]
    decide
  cases event with
  | start tag => simp [stop?, tag?, htag tag (by simpa [marksGradient] using h)]
  | empty tag => simp [stop?, tag?, htag tag (by simpa [marksGradient] using h)]
  | finish name => rfl

/-! ## The slot -/

def slotAfter (current : Option LinearGradient) (event : Markup.Event) : Option LinearGradient :=
  if marksGradient event then
    match event with
    | .start tag => some (gradientOf (readAttributes tag))
    | _ => none
  else current.map fun g => { g with stops := g.stops ++ (stop? event).toList }

def releases (current : Option LinearGradient) (event : Markup.Event) : Option LinearGradient :=
  if marksGradient event then
    match event with
    | .start _ => none
    | .empty tag => some (gradientOf (readAttributes tag))
    | .finish _ => current
  else none

def released : Option LinearGradient → List Markup.Event → List LinearGradient
  | _, [] => []
  | current, event :: events =>
    (releases current event).toList ++ released (slotAfter current event) events

/-- What becomes of the gradient in the slot: it is registered with the stops up to the next tag of
    a gradient, or not at all. -/
def pending (current : Option LinearGradient) (events : List Markup.Event) :
    Option LinearGradient :=
  if finishesNext events then
    current.map fun g => { g with stops := g.stops ++ nearStops events }
  else none

@[simp] theorem pending_none (events : List Markup.Event) : pending none events = none := by
  simp [pending]

theorem pending_of_not_mark (h : marksGradient event = false) (current : Option LinearGradient) :
    pending current (event :: after) = pending (slotAfter current event) after := by
  simp only [pending, finishesNext_cons h, nearStops_cons h, slotAfter, h]
  cases current with
  | none => simp
  | some g => simp

/-- What is registered is what becomes of the gradient in the slot, and then what the tags to come
    are registered as. -/
theorem released_eq (current : Option LinearGradient) (events : List Markup.Event) :
    released current events = (pending current events).toList ++ gradientsIn events := by
  induction events generalizing current with
  | nil => rfl
  | cons event after ih =>
    rw [released, gradientsIn, ih]
    by_cases h : marksGradient event = true
    · cases event with
      | start tag =>
        -- The gradient in the slot is lost, and that of the tag is next.
        have hlost : pending current (.start tag :: after) = none := by
          simp [pending, finishesNext, h]
        have hnext : pending (some (gradientOf (readAttributes tag))) after =
            gradientAt (.start tag) after := by
          simp [pending, gradientAt, h, gradientOf]
        simp [hlost, ← hnext, releases, slotAfter, h]
      | empty tag =>
        have hlost : pending current (.empty tag :: after) = none := by
          simp [pending, finishesNext, h]
        simp [hlost, releases, slotAfter, gradientAt, h]
      | finish name =>
        have hkept : pending current (.finish name :: after) = current := by
          simp [pending, finishesNext, h, nearStops_of_mark h]
        simp [hkept, releases, slotAfter, gradientAt, h]
    · have h : marksGradient event = false := by simpa using h
      rw [pending_of_not_mark h, gradientAt_of_not_mark h]
      simp [releases, h]

/-! ## The first pass -/

/-- A tag whose attributes are needed for a result has attributes that can be read. -/
theorem readAttributes_of_ok {α : Type} {tag : Markup.Tag} {f : Attributes → Walk α} {a : α}
    (h : (attributesOf tag >>= f).result = .ok a) :
    Comes (attributesOf tag) [] (.ok (readAttributes tag)) := by
  obtain ⟨attrs, hattrs, -⟩ := Walk.result_bind_eq_ok h
  have hread := attributesOf_comes tag
  unfold readAttributes
  cases ht : tag.attributes with
  | error e =>
    rw [hread.result_eq, ht] at hattrs
    cases hattrs
  | ok attrs =>
    rw [ht] at hread
    exact hread

variable {s t : Gradients}

/-- A tag of a gradient is taken into the slot, and leaves it at once if it is a whole element. -/
theorem meet_comes_of_mark {tag : Markup.Tag} {whole : Bool}
    (hn : Markup.localName tag.name = "linearGradient") (h : (s.meet tag whole).result = .ok t) :
    ∃ u : Gradients, Comes (s.meet tag whole)
        ((releases s.current (eventOf tag whole)).toList.map .register) (.ok u) ∧
      u.current = slotAfter s.current (eventOf tag whole) := by
  simp only [Gradients.meet, hn] at h ⊢
  obtain ⟨begun, hbegun, -⟩ := Walk.result_bind_eq_ok h
  have hbegin : Comes (s.begin tag) []
      (.ok { s with current := some (gradientOf (readAttributes tag)) }) :=
    (readAttributes_of_ok hbegun).bind_pure
  cases whole with
  | false =>
    have hmark : marksGradient (.start tag) = true := by simp [marksGradient, hn]
    have hnone : releases s.current (.start tag) = none := by simp [releases]
    have hslot : slotAfter s.current (.start tag) = some (gradientOf (readAttributes tag)) := by
      simp [slotAfter, hmark]
    simp only [eventOf, Bool.false_eq_true, if_false, hnone, hslot]
    exact ⟨_, hbegin.bind (Walk.comes_pure _), rfl⟩
  | true =>
    have hmark : marksGradient (.empty tag) = true := by simp [marksGradient, hn]
    have hsome : releases s.current (.empty tag) = some (gradientOf (readAttributes tag)) := by
      simp [releases, hmark]
    have hslot : slotAfter s.current (.empty tag) = none := by simp [slotAfter, hmark]
    simp only [eventOf, if_true, hsome, hslot]
    exact ⟨_, hbegin.bind (finish_comes _), rfl⟩

/-- Any other tag leaves the slot as it is, but for a stop. -/
theorem meet_comes_of_not_mark {tag : Markup.Tag} {whole : Bool}
    (hn : Markup.localName tag.name ≠ "linearGradient") (h : (s.meet tag whole).result = .ok t) :
    ∃ u : Gradients, Comes (s.meet tag whole)
        ((releases s.current (eventOf tag whole)).toList.map .register) (.ok u) ∧
      u.current = slotAfter s.current (eventOf tag whole) := by
  have hmark : marksGradient (eventOf tag whole) = false := by
    cases whole <;> simp [eventOf, marksGradient, hn]
  have hnone : releases s.current (eventOf tag whole) = none := by simp [releases, hmark]
  rw [hnone]
  unfold Gradients.meet at h ⊢
  split at h
  · contradiction
  · rename_i hs
    have hread := readAttributes_of_ok h
    refine ⟨_, hread.bind_quiet (addStop_comes s _), ?_⟩
    simp [slotAfter, hmark, stop?, tag?_eventOf, hs, LinearGradient.addStop]
  · rename_i hg hs
    have hs : Markup.localName tag.name ≠ "stop" := hs
    refine ⟨s, Walk.comes_done s, ?_⟩
    simp [slotAfter, hmark, stop?, tag?_eventOf, hs]

/-- One step of the first pass. -/
theorem visit_comes (h : (s.visit event).result = .ok t) :
    Comes (s.visit event) ((releases s.current event).toList.map .register) (.ok t) ∧
      t.current = slotAfter s.current event := by
  have hmeet : ∀ (tag : Markup.Tag) (whole : Bool), (s.meet tag whole).result = .ok t →
      ∃ u : Gradients, Comes (s.meet tag whole)
          ((releases s.current (eventOf tag whole)).toList.map .register) (.ok u) ∧
        u.current = slotAfter s.current (eventOf tag whole) := by
    intro tag whole h
    by_cases hn : Markup.localName tag.name = "linearGradient"
    · exact meet_comes_of_mark hn h
    · exact meet_comes_of_not_mark hn h
  have hcomes : ∃ u : Gradients,
      Comes (s.visit event) ((releases s.current event).toList.map .register) (.ok u) ∧
        u.current = slotAfter s.current event := by
    cases event with
    | start tag => exact hmeet tag false h
    | empty tag => exact hmeet tag true h
    | finish name =>
      by_cases hn : Markup.localName name = "linearGradient"
      · refine ⟨_, by simpa [Gradients.visit, releases, marksGradient, hn] using finish_comes s, ?_⟩
        simp [slotAfter, marksGradient, hn]
      · refine ⟨s, by simpa [Gradients.visit, releases, marksGradient, hn] using Walk.comes_done s, ?_⟩
        simp [slotAfter, marksGradient, hn, stop?, tag?]
  obtain ⟨u, hu, hcurrent⟩ := hcomes
  have hsame := hu.result_eq
  rw [h] at hsame
  obtain rfl : t = u := Except.ok.inj hsame
  exact ⟨hu, hcurrent⟩

/-- A tag with a fault makes no call. -/
theorem visit_comes_of_fault {e : Markup.Error} (h : gradientFault event = some e) :
    Comes (s.visit event) [] (.error (.markup e)) := by
  have hmeet : ∀ (tag : Markup.Tag) (whole : Bool), gradientFault (eventOf tag whole) = some e →
      Comes (s.meet tag whole) [] (.error (.markup e)) := by
    intro tag whole h
    simp only [gradientFault, tag?_eventOf] at h
    split at h
    · rename_i hn
      have hread : Comes (attributesOf tag) [] (.error (.markup e)) := by
        unfold attributeFault at h
        have hread := attributesOf_comes tag
        split at h
        · rename_i ht
          cases h
          rw [ht] at hread
          exact hread
        · cases h
      unfold Gradients.meet
      split
      · exact hread.bind_error.bind_error
      · exact hread.bind_error
      · rename_i hg hs
        exact absurd hn (not_or.mpr ⟨hg, hs⟩)
    · cases h
  cases event with
  | start tag => exact hmeet tag false h
  | empty tag => exact hmeet tag true h
  | finish name => cases h

/-- The events that the first pass gets past: those before its first fault. -/
def collected (events : List Markup.Event) : List Markup.Event :=
  events.takeWhile fun event => (gradientFault event).isNone

theorem foldlM_visit_calls (events : List Markup.Event) (s : Gradients) :
    (events.foldlM Gradients.visit s).calls =
      (released s.current (collected events)).map .register := by
  induction events generalizing s with
  | nil => rfl
  | cons event events ih =>
    rw [List.foldlM_cons, collected, List.takeWhile_cons]
    cases hf : gradientFault event with
    | some e =>
      have hend : Comes (s.visit event >>= fun t => events.foldlM Gradients.visit t) [] _ :=
        (visit_comes_of_fault hf).bind_error
      exact hend.calls_eq
    | none =>
      obtain ⟨gs, t, ht, -⟩ := hf ▸ s.visit_collects event
      obtain ⟨hstep, hcurrent⟩ := visit_comes ht.result_eq
      have hall : Comes (s.visit event >>= fun t => events.foldlM Gradients.visit t) _ _ :=
        hstep.bind (Walk.comes_self _)
      rw [hall.calls_eq, ih, hcurrent, ← List.map_append]
      rfl

/-- The first pass registers the gradients of the document, up to its first fault. -/
theorem registered_eq_collected (reading : Markup.Reading) :
    registered reading = gradientsIn (collected reading.events) := by
  have hcalls : (gradientPass reading).calls =
      (reading.events.foldlM Gradients.visit .initial).calls := by
    unfold gradientPass pass
    apply Walk.calls_bind_of_quiet
    intro last
    cases reading.failure with
    | some e => rfl
    | none => rfl
  rw [registered, hcalls, foldlM_visit_calls, filterMap_gradient?_register, released_eq]
  simp [Gradients.initial]

theorem collected_of_findSome? (h : events.findSome? gradientFault = none) :
    collected events = events := by
  rw [collected, List.takeWhile_eq_self_iff]
  intro event hm
  rw [List.findSome?_eq_none_iff.mp h event hm]
  rfl

/-- A first pass that gets to the end registers the gradients of the document. -/
theorem registered_eq {reading : Markup.Reading} {gradients : Gradients}
    (h : (gradientPass reading).result = .ok gradients) :
    registered reading = gradientsIn reading.events := by
  have hfault : firstFault reading = none := by
    have hpass := gradientPass_comes reading
    cases hf : firstFault reading with
    | none => rfl
    | some e =>
      rw [hf] at hpass
      rw [hpass.result_eq] at h
      cases h
  rw [registered_eq_collected, collected_of_findSome? (Option.or_eq_none_iff.mp hfault).1]

/-! ## Stops -/

/-- The stops at the beginning of the events that are between the two tags of a gradient. -/
def enclosedNear (before events : List Markup.Event) : List GradientStop :=
  if enclosed before events then nearStops events else []

theorem enclosed_snoc_of_mark (h : marksGradient event = true) :
    enclosed (before ++ [event]) after =
      match event with
      | .start _ => finishesNext after
      | _ => false := by
  simp only [enclosed, List.reverse_append, List.reverse_singleton, List.singleton_append,
    List.find?_cons_of_pos h]
  cases event with
  | _ => rfl

theorem enclosed_snoc_of_not_mark (h : marksGradient event = false) :
    enclosed (before ++ [event]) after = enclosed before after := by
  simp [enclosed, h]

theorem enclosed_cons (h : marksGradient event = false) :
    enclosed before (event :: after) = enclosed before after := by
  simp only [enclosed, finishesNext_cons h]

/-- The stops that are between the two tags of a gradient are those of the gradients. -/
theorem enclosedStops_eq (before events : List Markup.Event) :
    enclosedStops before events =
      enclosedNear before events ++ (gradientsIn events).flatMap (·.stops) := by
  induction events generalizing before with
  | nil => simp [enclosedStops, enclosedNear, nearStops, gradientsIn]
  | cons event after ih =>
    rw [enclosedStops, ih, gradientsIn, List.flatMap_append, ← List.append_assoc,
      ← List.append_assoc]
    congr 1
    by_cases h : marksGradient event = true
    · rw [stop?_of_mark h, enclosedNear, enclosed_snoc_of_mark h, enclosedNear, nearStops_of_mark h]
      cases event with
      | start tag =>
        by_cases hf : finishesNext after = true
        · simp [gradientAt, h, hf]
        · simp [gradientAt, h, hf]
      | empty tag => simp [gradientAt, h, gradientOf]
      | finish name => simp [gradientAt]
    · have h : marksGradient event = false := by simpa using h
      rw [enclosedNear, enclosed_snoc_of_not_mark h, enclosedNear, enclosed_cons h,
        nearStops_cons h, gradientAt_of_not_mark h]
      by_cases he : enclosed before after = true
      · simp [he]
      · simp [he]

/-! ## Renderings -/

/-- Where the first pass fails at nothing, a rendering on a surface that refuses nothing registers
    one gradient for each gradient element without content and for each start tag of a gradient
    that is followed by an end tag of one before any other tag of one, in the order of the tags.
    Each has the id and the coordinates of its tag, and the stops up to that end tag. All other
    stops are in no gradient. -/
theorem registrations_of_reading {σ : Type} {surface : Surface σ} (accepts : surface.Accepting)
    (options : Options) (reading : Markup.Reading) (state : σ) {gradients : Gradients}
    (h : (gradientPass reading).result = .ok gradients) :
    let registrations := (callsFor surface options reading state).filterMap Call.gradient?
    registrations = gradientsIn reading.events ∧
      registrations.flatMap (·.stops) = enclosedStops [] reading.events := by
  intro registrations
  have hcalls : callsFor surface options reading state =
      (registered reading).map .register ++ (drawn options reading).calls :=
    (callsFor_of_accepting accepts options reading state).trans
      (renderReading_outcome options reading).1
  have hdrawn : (drawn options reading).calls.filterMap Call.gradient? = [] := by
    rw [List.filterMap_eq_nil_iff]
    intro call hc
    exact (drawn_draws options reading call hc).gradient?_eq_none
  have hall : registrations = gradientsIn reading.events := by
    show (callsFor surface options reading state).filterMap Call.gradient? = _
    rw [hcalls, List.filterMap_append, filterMap_gradient?_register, hdrawn, List.append_nil,
      registered_eq h]
  refine ⟨hall, ?_⟩
  rw [hall, enclosedStops_eq]
  rfl

/-- A gradient with another one inside of it, with a stop between their ends, and a gradient with a
    stop in another element. -/
def strayStops : String :=
  "<linearGradient id='a'><linearGradient id='b' x1='1'/><stop/></linearGradient>" ++
  "<linearGradient id='c'><g><stop offset='50%' stop-color='red'/></g></linearGradient>"

theorem read_strayStops :
    Markup.read strayStops =
      ⟨[.start ⟨"linearGradient".toList, " id='a'".toList⟩,
        .empty ⟨"linearGradient".toList, " id='b' x1='1'".toList⟩,
        .empty ⟨"stop".toList, []⟩,
        .finish "linearGradient".toList,
        .start ⟨"linearGradient".toList, " id='c'".toList⟩,
        .start ⟨"g".toList, []⟩,
        .empty ⟨"stop".toList, " offset='50%' stop-color='red'".toList⟩,
        .finish "g".toList,
        .finish "linearGradient".toList], none⟩ := by
  decide +kernel

theorem registrations_of_reading_strayStops :
    acceptingRecorder.Accepting ∧
      (gradientPass (Markup.read strayStops)).result = .ok ⟨none, ["b", "c"]⟩ ∧
      (callsFor acceptingRecorder .strict (Markup.read strayStops) #[]).filterMap Call.gradient? =
        [⟨"b", ⟨1.0, 0.0⟩, ⟨0.0, 0.0⟩, []⟩,
          ⟨"c", ⟨0.0, 0.0⟩, ⟨0.0, 0.0⟩, [⟨0.5, "red"⟩]⟩] := by
  have accepts : acceptingRecorder.Accepting := fun _ _ => rfl
  have hpass : (gradientPass (Markup.read strayStops)).result = .ok ⟨none, ["b", "c"]⟩ := by
    rw [read_strayStops]
    decide +kernel
  have hgradients : gradientsIn (Markup.read strayStops).events =
      [⟨"b", ⟨1.0, 0.0⟩, ⟨0.0, 0.0⟩, []⟩, ⟨"c", ⟨0.0, 0.0⟩, ⟨0.0, 0.0⟩, [⟨0.5, "red"⟩]⟩] := by
    rw [read_strayStops]
    decide +kernel
  refine ⟨accepts, hpass, ?_⟩
  rw [(registrations_of_reading accepts .strict (Markup.read strayStops) #[] hpass).1, hgradients]

end SvgDraw.Document
