/-
  SvgDraw.Proofs.Document.Defs — the paths inside of `defs` elements are the ones not drawn.

  The second pass knows how deep it is in `defs` elements by a counter. Where end tags match, as
  they do in whatever is read from a document, the counter is the number of `defs` elements that
  are open (`defsDepth_of_arrives`), under any prefix and however they nest, and the counter is
  never taken below zero (`pos_of_finish`). So a path tag is compiled exactly if it stands in no
  `defs` element (`compiled_iff`), and otherwise it is passed over unread: the rendering is the
  same whatever stands in the tag (`renderReading_replace`), and without the tag it makes the same
  calls and ends in the same way (`renderReading_delete`).
-/

import SvgDraw.Proofs.Document.Skipping
import SvgDraw.Proofs.Markup.Nesting

namespace SvgDraw.Document

open Walk (Comes)

variable {options : Options} {ids : List String} {before after : List Markup.Event}
  {opened : List (List Char)} {s : Drawing} {tag : Markup.Tag}

/-! ## The counter -/

def defsAmong (names : List (List Char)) : Nat :=
  names.countP (Markup.localName · = "defs")

def InDefs (names : List (List Char)) : Prop :=
  ∃ name ∈ names, Markup.localName name = "defs"

theorem defsAmong_pos_iff (names : List (List Char)) : 0 < defsAmong names ↔ InDefs names := by
  simp only [defsAmong, InDefs, List.countP_pos_iff, decide_eq_true_eq]

theorem defsAmong_cons (name : List Char) (names : List (List Char)) :
    defsAmong (name :: names) =
      if Markup.localName name = "defs" then defsAmong names + 1 else defsAmong names := by
  by_cases h : Markup.localName name = "defs" <;> simp [defsAmong, h]

/-- One event changes the count of the open `defs` elements as it changes the open elements. -/
theorem depthAfter_defsAmong {event : Markup.Event} {inside : List (List Char)}
    (h : Markup.openAfter? opened event = some inside) :
    depthAfter (defsAmong opened) event = defsAmong inside := by
  cases event with
  | start tag =>
    cases h
    rw [defsAmong_cons]
    rfl
  | empty tag =>
    cases h
    rfl
  | finish name =>
    cases opened with
    | nil => cases h
    | cons innermost others =>
      simp only [Markup.openAfter?] at h
      split at h
      · rename_i hname
        cases h
        simp only [depthAfter, defsAmong_cons, hname]
        by_cases hd : Markup.localName name = "defs" <;> simp [hd]
      · cases h

theorem foldl_depthAfter {events : List Markup.Event} {inside : List (List Char)}
    (h : events.foldlM Markup.openAfter? opened = some inside) :
    events.foldl depthAfter (defsAmong opened) = defsAmong inside := by
  induction events generalizing opened with
  | nil =>
    cases h
    rfl
  | cons event events ih =>
    rw [List.foldlM_cons] at h
    obtain ⟨middle, hevent, hrest⟩ := Option.bind_eq_some_iff.mp h
    rw [List.foldl_cons, depthAfter_defsAmong hevent]
    exact ih hrest

theorem openDefs_eq (h : Markup.opened? before = some opened) : openDefs before = defsAmong opened :=
  foldl_depthAfter h

/-! ## Points of the pass -/

/-- The second pass is in this state after the events `before`. -/
def Arrives (options : Options) (ids : List String) (before : List Markup.Event) (s : Drawing) :
    Prop :=
  (before.foldlM (Drawing.visit options ids) .initial).result = .ok s

theorem Arrives.tracks (h : Arrives options ids before s) : Tracks before s :=
  ((foldlM_visit_carries tracks_initial before).of_ok h).2

theorem defsDepth_of_arrives (h : Arrives options ids before s)
    (ho : Markup.opened? before = some opened) : s.defsDepth = defsAmong opened :=
  h.tracks.depth.trans (openDefs_eq ho)

/-- An end tag that the counter goes down by has a `defs` element to close. -/
theorem pos_of_finish {name : List Char} (h : Arrives options ids before s)
    (hm : Markup.Matched (before ++ .finish name :: after)) (hn : Markup.localName name = "defs") :
    0 < s.defsDepth := by
  obtain ⟨outer, ho⟩ := hm.innermost
  rw [defsDepth_of_arrives h ho, defsAmong_cons, if_pos hn]
  omega

/-! ## The fate of a path tag -/

def compiledPath (ids : List String) (attrs : Attributes) : Except Failure (List Call) :=
  (resolvePath ids (compilePath (pathData attrs) .fresh).1 attrs).map fun (operations, fill) =>
    pathCalls operations fill

/-- The step for a path tag, from the state `s`, takes the path up: it is drawn, or skipped, or a
    failure is reported for it. -/
inductive Compiled (options : Options) (ids : List String) (s : Drawing) (tag : Markup.Tag)
    (step : Walk Drawing) : Prop where
  | drawn {attrs : Attributes} {calls : List Call} (read : tag.attributes = .ok attrs)
      (resolved : compiledPath ids attrs = .ok calls)
      (comes : Comes step calls (.ok { s with paths := s.paths + 1 }))
  | skipped {attrs : Attributes} {failure : Failure} (read : tag.attributes = .ok attrs)
      (refused : compiledPath ids attrs = .error failure) (skips : options.skipInvalidPaths = true)
      (comes : Comes step [] (.ok { s with skipped := s.skipped + 1 }))
  | reported {attrs : Attributes} {failure : Failure} (read : tag.attributes = .ok attrs)
      (refused : compiledPath ids attrs = .error failure) (strict : options.skipInvalidPaths = false)
      (comes : Comes step [] (.error failure))
  /-- The failure that comes first, since the attributes are read before the data is. -/
  | unreadable {e : Markup.Error} (unread : tag.attributes = .error e)
      (comes : Comes step [] (.error (.markup e)))

theorem visit_eventOf (whole : Bool) :
    s.visit options ids (eventOf tag whole) = s.meet options ids tag whole := by
  cases whole <;> rfl

/-- A path tag in a `defs` element is passed over, whatever stands in it. -/
theorem visit_of_defs (hname : Markup.localName tag.name = "path") (hd : 0 < s.defsDepth)
    (whole : Bool) :
    s.visit options ids (eventOf tag whole) = .report .pathInDefs (.done s) := by
  rw [visit_eventOf]
  simp only [Drawing.meet, hname, hd, if_true]
  rfl

theorem path_compiled {attrs : Attributes} (read : tag.attributes = .ok attrs) :
    Compiled options ids s tag (s.path options ids attrs) := by
  have hpen := leave_compilePath_enter (pathData attrs) s.pen
  have hsame := compilePath_enter (pathData attrs) s.pen
  have hnotes := Walk.comes_noteAll (compileJournal (pathData attrs) s.pen.enter)
  simp only [Drawing.path, hpen, hsame]
  cases hr : resolvePath ids (compilePath (pathData attrs) .fresh).1 attrs with
  | ok drawn =>
    have hc : compiledPath ids attrs = .ok (pathCalls drawn.1 drawn.2) := by
      simp only [compiledPath, hr, Except.map]
    exact .drawn read hc (hnotes.bind_quiet (drawPath_comes drawn.1 drawn.2).bind_pure)
  | error failure =>
    have hc : compiledPath ids attrs = .error failure := by
      simp only [compiledPath, hr, Except.map]
    cases ho : options.skipInvalidPaths with
    | true =>
      exact .skipped read hc ho
        (hnotes.bind_quiet (Walk.comes_note (.skippingPath failure)).bind_pure)
    | false => exact .reported read hc ho (hnotes.bind_quiet (Walk.comes_fail failure))

theorem attributesOf_bind {attrs : Attributes} {f : Attributes → Walk Drawing}
    (read : tag.attributes = .ok attrs) : attributesOf tag >>= f = f attrs := by
  unfold attributesOf
  rw [read]
  rfl

theorem visit_compiled (hname : Markup.localName tag.name = "path") (hd : s.defsDepth = 0)
    (whole : Bool) :
    Compiled options ids s tag (s.visit options ids (eventOf tag whole)) := by
  rw [visit_eventOf]
  simp only [Drawing.meet, hname, hd, Nat.lt_irrefl, if_false]
  cases ha : tag.attributes with
  | error e =>
    have hread := attributesOf_comes tag
    rw [ha] at hread
    exact .unreadable ha hread.bind_error
  | ok attrs =>
    rw [attributesOf_bind ha]
    exact path_compiled ha

/-- Compiling a path tag leaves a trace: a count goes up or the pass ends. -/
theorem Compiled.result_ne {step : Walk Drawing} (h : Compiled options ids s tag step) :
    step.result ≠ .ok s := by
  intro hs
  cases h with
  | drawn _ _ comes =>
    have hcount := congrArg Drawing.paths (Except.ok.inj (comes.result_eq.symm.trans hs))
    simp at hcount
  | skipped _ _ _ comes =>
    have hcount := congrArg Drawing.skipped (Except.ok.inj (comes.result_eq.symm.trans hs))
    simp at hcount
  | reported _ _ _ comes => cases comes.result_eq.symm.trans hs
  | unreadable _ comes => cases comes.result_eq.symm.trans hs

theorem compiled_iff (hname : Markup.localName tag.name = "path") (whole : Bool) :
    Compiled options ids s tag (s.visit options ids (eventOf tag whole)) ↔ s.defsDepth = 0 := by
  constructor
  · intro h
    by_contra hd
    refine h.result_ne ?_
    rw [visit_of_defs hname (Nat.pos_of_ne_zero hd)]
    rfl
  · intro hd
    exact visit_compiled hname hd whole

/-! ## Renderings without the tag -/

/-- The states that the second pass can be in after `before` are all in a `defs` element. -/
def Hides (options : Options) (before : List Markup.Event) : Prop :=
  ∀ ids s, Arrives options ids before s → 0 < s.defsDepth

theorem drawingPass_delete (after : List Markup.Event)
    (hname : Markup.localName tag.name = "path") (hd : Hides options before) (whole : Bool)
    (failure : Option Markup.Error) :
    Comes (drawingPass options ids ⟨before ++ eventOf tag whole :: after, failure⟩)
      (drawingPass options ids ⟨before ++ after, failure⟩).calls
      (drawingPass options ids ⟨before ++ after, failure⟩).result := by
  refine Comes.bind_of_ok ?_ fun t _ => Walk.comes_self _
  simp only [List.foldlM_append]
  refine Comes.bind_of_ok (Walk.comes_self _) fun s hs => ?_
  rw [List.foldlM_cons, visit_of_defs hname (hd ids s hs)]
  exact Comes.bind_quiet ⟨rfl, rfl⟩ (Walk.comes_self _)

theorem renderReading_delete (after : List Markup.Event)
    (hname : Markup.localName tag.name = "path") (hd : Hides options before) (whole : Bool)
    (failure : Option Markup.Error) :
    Comes (renderReading options ⟨before ++ eventOf tag whole :: after, failure⟩)
      (renderReading options ⟨before ++ after, failure⟩).calls
      (renderReading options ⟨before ++ after, failure⟩).result := by
  unfold renderReading
  rw [gradientPass_path hname]
  refine Comes.bind_of_ok (Walk.comes_self _) fun g _ => ?_
  exact Comes.bind_of_ok (drawingPass_delete after hname hd whole failure) fun t _ => Walk.comes_self _

theorem renderReading_replace {other : Markup.Tag} (after : List Markup.Event)
    (hname : Markup.localName tag.name = "path") (hother : Markup.localName other.name = "path")
    (hd : Hides options before) (whole : Bool) (failure : Option Markup.Error) :
    renderReading options ⟨before ++ eventOf other whole :: after, failure⟩ =
      renderReading options ⟨before ++ eventOf tag whole :: after, failure⟩ := by
  have hdraw : ∀ ids, drawingPass options ids ⟨before ++ eventOf other whole :: after, failure⟩ =
      drawingPass options ids ⟨before ++ eventOf tag whole :: after, failure⟩ := by
    intro ids
    simp only [drawingPass, pass, List.foldlM_append, bind_assoc]
    refine (Walk.propagates_foldlM (Drawing.visit_propagates options ids) before _).bind_congr
      fun s hs => ?_
    rw [List.foldlM_cons, List.foldlM_cons, visit_of_defs hname (hd ids s hs),
      visit_of_defs hother (hd ids s hs)]
  unfold renderReading
  simp only [gradientPass_path hname, gradientPass_path hother, hdraw]

/-! ## All points of a document -/

/-- Wherever the second pass has got to in events that match, as those of every document do, its
    counter is the number of the open `defs` elements, and no end tag takes it below zero. So a
    path tag is compiled, and then drawn, skipped or reported, exactly if no element around it is
    a `defs` element. Otherwise it is passed over: the rendering does not depend on what stands in
    the tag, and makes the calls and has the end that it has without the tag. -/
theorem path_compiled_iff_outside_defs :
    (∀ source, Markup.Matched (Markup.read source).events) ∧
    ∀ (options : Options) (before after : List Markup.Event), Markup.Matched (before ++ after) →
      ∃ opened, Markup.opened? before = some opened ∧
        (∀ ids s, Arrives options ids before s →
          s.defsDepth = defsAmong opened ∧
          (∀ name rest, after = .finish name :: rest → Markup.localName name = "defs" →
            0 < s.defsDepth) ∧
          ∀ tag whole rest, after = eventOf tag whole :: rest →
            Markup.localName tag.name = "path" →
            (Compiled options ids s tag (s.visit options ids (eventOf tag whole)) ↔
              ¬ InDefs opened) ∧
            (InDefs opened →
              s.visit options ids (eventOf tag whole) = .report .pathInDefs (.done s))) ∧
        ∀ tag whole rest failure, after = eventOf tag whole :: rest →
          Markup.localName tag.name = "path" → InDefs opened →
          (∀ body, renderReading options
              ⟨before ++ eventOf { tag with body := body } whole :: rest, failure⟩ =
            renderReading options ⟨before ++ after, failure⟩) ∧
          (renderReading options ⟨before ++ after, failure⟩).calls =
            (renderReading options ⟨before ++ rest, failure⟩).calls ∧
          (renderReading options ⟨before ++ after, failure⟩).result =
            (renderReading options ⟨before ++ rest, failure⟩).result := by
  refine ⟨Markup.read_matched, fun options before after hm => ?_⟩
  obtain ⟨opened, ho⟩ := hm.of_append.exists_opened
  refine ⟨opened, ho, fun ids s hs => ?_, ?_⟩
  · have hdepth := defsDepth_of_arrives hs ho
    refine ⟨hdepth, ?_, ?_⟩
    · intro name rest hafter hname
      rw [hafter] at hm
      exact pos_of_finish hs hm hname
    · intro tag whole rest _ hname
      rw [compiled_iff hname, ← defsAmong_pos_iff, hdepth]
      refine ⟨by omega, fun hd => visit_of_defs hname ?_ whole⟩
      rw [hdepth]
      exact hd
  · intro tag whole rest failure hafter hname hin
    have hhides : Hides options before := by
      intro ids s hs
      rw [defsDepth_of_arrives hs ho]
      exact (defsAmong_pos_iff opened).mpr hin
    subst hafter
    have hdelete := renderReading_delete rest hname hhides whole failure
    refine ⟨fun body => ?_, hdelete.calls_eq, hdelete.result_eq⟩
    have hother : Markup.localName { tag with body := body }.name = "path" := hname
    exact renderReading_replace rest hname hother hhides whole failure

def hiddenPath : String :=
  "<svg><x:defs><defs/><g><path d='Q' d/></g></x:defs><path d='z'/></svg>"

def beforeHidden : List Markup.Event :=
  [.start ⟨"svg".toList, []⟩, .start ⟨"x:defs".toList, []⟩, .empty ⟨"defs".toList, []⟩,
   .start ⟨"g".toList, []⟩]

/-- The tag of the path. Its attributes cannot be read. -/
def hiddenTag : Markup.Tag := ⟨"path".toList, " d='Q' d".toList⟩

def afterHidden : List Markup.Event :=
  [.finish "g".toList, .finish "x:defs".toList, .empty ⟨"path".toList, " d='z'".toList⟩,
   .finish "svg".toList]

theorem read_hiddenPath :
    Markup.read hiddenPath =
      ⟨beforeHidden ++ eventOf hiddenTag true :: afterHidden, none⟩ := by
  decide +kernel

theorem path_compiled_iff_outside_defs_hiddenPath :
    let s : Drawing := { Drawing.initial with defsDepth := 1 }
    Markup.Matched (beforeHidden ++ eventOf hiddenTag true :: afterHidden) ∧
      (∃ e, hiddenTag.attributes = .error e) ∧ Arrives .strict [] beforeHidden s ∧
      ¬ Compiled .strict [] s hiddenTag (s.visit .strict [] (eventOf hiddenTag true)) ∧
      (renderReading .strict (Markup.read hiddenPath)).result =
        (renderReading .strict ⟨beforeHidden ++ afterHidden, none⟩).result := by
  intro s
  have hm : Markup.Matched (beforeHidden ++ eventOf hiddenTag true :: afterHidden) := by
    decide +kernel
  have hs : Arrives .strict [] beforeHidden s := by
    unfold Arrives
    decide +kernel
  have hopened : Markup.opened? beforeHidden =
      some ["g".toList, "x:defs".toList, "svg".toList] := by decide
  obtain ⟨opened, ho, hpoint, hrender⟩ := path_compiled_iff_outside_defs.2 .strict _ _ hm
  have hin : InDefs opened := by
    cases hopened.symm.trans ho
    exact ⟨"x:defs".toList, by decide, by decide⟩
  have hpath := (hpoint [] s hs).2.2 hiddenTag true afterHidden rfl rfl
  refine ⟨hm, ⟨.attributes (.expectedEquals 12), by decide +kernel⟩, hs, ?_, ?_⟩
  · intro h
    exact hpath.1.mp h hin
  · rw [read_hiddenPath]
    exact (hrender hiddenTag true afterHidden none rfl rfl hin).2.2

end SvgDraw.Document
