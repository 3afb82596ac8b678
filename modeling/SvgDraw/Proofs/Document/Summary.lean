/-
  SvgDraw.Proofs.Document.Summary — the counts in the last report of a rendering.

  A rendering that gets to its end reports how many paths it has drawn and how many it has skipped.
  The counts of the pass add up to the path tags with no `defs` element open around them
  (`outerPaths`, `passes_of_ok`), and the report is behind both passes (`renderReading_of_ok`). A
  rendering that fails, by itself or since the surface refuses a call, has not got there
  (`mem_notes_of_failed`). `summary_adds_up` puts it together. It speaks of what the rendering
  itself reports (`reportsFor`); what the surface reports of the calls changes nothing in this,
  unless it is of the same kind.
-/

import SvgDraw.Proofs.Document.Counting
import SvgDraw.Proofs.Document.Defs

namespace SvgDraw.Document

variable {options : Options} {before : List Markup.Event} {reading : Markup.Reading}

/-! ## Path tags outside of `defs` -/

/-- The event, when `before` precedes it, is a path tag with no `defs` element open around it. -/
def outerPath (before : List Markup.Event) (event : Markup.Event) : Bool :=
  (tag? event).any (fun tag => Markup.localName tag.name = "path") &&
    (Markup.opened? before).any fun opened => opened.all (Markup.localName · ≠ "defs")

def outerPaths : List Markup.Event → List Markup.Event → Nat
  | _, [] => 0
  | before, event :: events =>
    (outerPath before event).toNat + outerPaths (before ++ [event]) events

theorem outerPath_eq (hm : Markup.Matched before) (event : Markup.Event) :
    outerPath before event = outerTag before event := by
  obtain ⟨opened, ho⟩ := hm.exists_opened
  have hdefs : opened.all (Markup.localName · ≠ "defs") = decide (openDefs before = 0) := by
    rw [openDefs_eq ho, defsAmong, Bool.eq_iff_iff]
    simp [List.countP_eq_zero]
  simp only [outerPath, outerTag, ho, Option.any_some, hdefs]

/-- Where end tags match, the open elements tell what the counter of the pass does. -/
theorem outerPaths_eq (before events : List Markup.Event)
    (hm : Markup.Matched (before ++ events)) :
    outerPaths before events = outerTags before events := by
  induction events generalizing before with
  | nil => rfl
  | cons event events ih =>
    have hrest : Markup.Matched ((before ++ [event]) ++ events) := by
      rwa [List.append_assoc]
    rw [outerPaths, outerTags, outerPath_eq hm.of_append, ih _ hrest]

/-! ## Both passes -/

def passes (options : Options) (reading : Markup.Reading) : Walk Drawing := do
  let gradients ← gradientPass reading
  drawingPass options gradients.ids reading

theorem renderReading_eq_bind (options : Options) (reading : Markup.Reading) :
    renderReading options reading =
      passes options reading >>= fun last => Walk.note (.rendered last.paths last.skipped) :=
  (bind_assoc ..).symm

theorem renderReading_of_ok {last : Drawing} (h : (passes options reading).result = .ok last) :
    (renderReading options reading).actions =
        (passes options reading).actions ++ [.note (.rendered last.paths last.skipped)] ∧
      (renderReading options reading).result = .ok () := by
  rw [renderReading_eq_bind]
  exact Walk.bind_of_ok h

theorem renderReading_of_error {failure : Failure}
    (h : (passes options reading).result = .error failure) :
    (renderReading options reading).actions = (passes options reading).actions ∧
      (renderReading options reading).result = .error failure := by
  rw [renderReading_eq_bind]
  exact Walk.bind_of_error h

/-- The passes do not report their counts themselves. -/
theorem filter_notes_passes (options : Options) (reading : Markup.Reading) :
    (passes options reading).notes.filter (·.message = "rendered document") = [] := by
  have hunsummed : .summed ∉ (passes options reading).tallies := by
    cases hr : (gradientPass reading).result with
    | error failure =>
      rw [passes, Walk.tallies_bind_error hr, tallies_gradientPass]
      exact List.not_mem_nil
    | ok gradients =>
      rw [passes, Walk.tallies_bind_ok hr, tallies_gradientPass, List.nil_append]
      exact (drawingPass_counts options gradients.ids reading).unsummed
  have hnone := List.count_eq_zero.mpr hunsummed
  rw [Walk.tallies, Tally.countP_message rfl, List.countP_eq_length_filter] at hnone
  exact List.eq_nil_of_length_eq_zero hnone

/-- The counts that the passes come to, in what they do. -/
theorem passes_of_ok {last : Drawing} (h : (passes options reading).result = .ok last) :
    let calls := (passes options reading).calls
    let skips := (passes options reading).notes.countP (·.message = "skipping path")
    last.paths = calls.count .beginPath ∧ last.paths = calls.count .fill ∧
      last.paths = calls.count .closePath ∧ last.skipped = skips ∧
      last.paths + last.skipped = outerTags [] reading.events ∧
      (options.skipInvalidPaths = false → last.skipped = 0) := by
  obtain ⟨gradients, hg, hlast⟩ := Walk.result_bind_eq_ok h
  have htallies : (passes options reading).tallies =
      (drawingPass options gradients.ids reading).tallies := by
    rw [passes, Walk.tallies_bind_ok hg, tallies_gradientPass, List.nil_append]
  have hadds := (drawingPass_counts options gradients.ids reading).adds last hlast
  rw [← htallies] at hadds
  obtain ⟨hbegun, hfilled, hclosed, hskipped, -, hall, hstrict⟩ := hadds
  simp only [Drawing.initial, Nat.zero_add] at hbegun hfilled hclosed hskipped
  rw [← hbegun, ← hskipped] at hall
  rw [← hskipped] at hstrict
  exact ⟨hbegun.trans (Tally.count_call rfl _), hfilled.trans (Tally.count_call rfl _),
    hclosed.trans (Tally.count_call rfl _), hskipped.trans (Tally.countP_message rfl _), hall,
    hstrict⟩

/-! ## Whole renderings -/

/-- What rendering a reading on a surface reports, less what the surface reports of the calls. -/
def reportsFor {σ : Type} (surface : Surface σ) (options : Options) (reading : Markup.Reading)
    (state : σ) : List Log.Event :=
  (replyTo surface.muted options reading state).events

section Whole

variable {σ : Type} {surface : Surface σ} {state : σ}

theorem replyTo_events (surface : Surface σ) (options : Options) (reading : Markup.Reading)
    (state : σ) :
    (replyTo surface options reading state).events =
      (surface.play (renderReading options reading).actions state).events := by
  rw [replyTo, (renderReading_propagates options reading).runOn_eq]

/-- A rendering that gets to its end has made all its calls and all its reports. -/
theorem reports_of_ok (h : (replyTo surface options reading state).failure = none) :
    ∃ last, (passes options reading).result = .ok last ∧
      callsFor surface options reading state = (passes options reading).calls ∧
      reportsFor surface options reading state =
        (passes options reading).notes ++ [.rendered last.paths last.skipped] := by
  have hcalls := callsFor_of_ok h
  rw [(replyTo_outcome surface options reading state).2, Option.or_eq_none_iff] at h
  obtain ⟨haccepted, hended⟩ := h
  cases hr : (passes options reading).result with
  | error failure =>
    rw [Walk.failure?, (renderReading_of_error hr).2] at hended
    cases hended
  | ok last =>
    refine ⟨last, rfl, ?_, ?_⟩
    · rw [hcalls, Walk.calls, (renderReading_of_ok hr).1]
      simp [Walk.calls, Action.call?]
    · have hplayed : (surface.play (renderReading options reading).actions state).failure = none :=
        (surface.play_failure _ state).trans haccepted
      rw [reportsFor, replyTo_events, Surface.events_muted_of_accepted hplayed,
        (renderReading_of_ok hr).1]
      simp [Walk.notes, Action.event?]

/-- A rendering that fails reports nothing that the passes do not. -/
theorem mem_notes_of_failed (h : (replyTo surface options reading state).failure ≠ none)
    {event : Log.Event} (he : event ∈ reportsFor surface options reading state) :
    event ∈ (passes options reading).notes := by
  refine List.mem_filterMap.mpr ⟨.note event, ?_, rfl⟩
  rw [reportsFor, replyTo_events] at he
  cases hr : (passes options reading).result with
  | error failure =>
    rw [(renderReading_of_error hr).1] at he
    exact Surface.note_mem_of_events_muted he
  | ok last =>
    rw [(replyTo_outcome surface options reading state).2, Walk.failure?,
      (renderReading_of_ok hr).2, Walk.calls, (renderReading_of_ok hr).1, ← Surface.play_failure,
      Surface.play_append] at h
    rw [(renderReading_of_ok hr).1, Surface.play_append, (surface.play_muted _ state).2] at he
    -- The report of the counts cannot be refused, so one of the calls before it is.
    cases hp : (surface.play (passes options reading).actions state).failure with
    | none =>
      rw [hp] at h
      exact absurd rfl h
    | some failure =>
      rw [hp] at he
      exact Surface.note_mem_of_events_muted he

end Whole

/-- The end tags among the events of a document match. Wherever they do, a rendering that gets to
    its end reports its counts once: as many paths were drawn as were begun, filled and closed, and
    as many skipped as were reported so, none if the options do not let any be; and both make up
    the path tags with no `defs` element open around them. A rendering that fails does not report
    its counts. All this is about what the rendering itself reports; a surface that does not report
    such events adds none. -/
theorem summary_adds_up {σ : Type} (surface : Surface σ) (options : Options) (state : σ) :
    (∀ source, Markup.Matched (Markup.read source).events) ∧
    ∀ reading : Markup.Reading, Markup.Matched reading.events →
      let reply := replyTo surface options reading state
      let calls := callsFor surface options reading state
      let reports := reportsFor surface options reading state
      (reply.failure = none →
        ∃ paths skipped,
          reports.filter (·.message = "rendered document") = [.rendered paths skipped] ∧
          calls.count .beginPath = paths ∧ calls.count .fill = paths ∧
          calls.count .closePath = paths ∧
          paths + skipped = outerPaths [] reading.events ∧
          reports.countP (·.message = "skipping path") = skipped ∧
          (options.skipInvalidPaths = false → skipped = 0)) ∧
      (reply.failure ≠ none → reports.filter (·.message = "rendered document") = []) ∧
      ∀ p, surface.NeverReports p → reply.events.filter p = reports.filter p := by
  refine ⟨Markup.read_matched, ?_⟩
  intro reading hm reply calls reports
  have hnotes := filter_notes_passes options reading
  have houter : outerTags [] reading.events = outerPaths [] reading.events :=
    (outerPaths_eq [] reading.events hm).symm
  refine ⟨fun hok => ?_, fun hfail => ?_, fun p hp => ?_⟩
  · obtain ⟨last, hlast, hcalls, hreports⟩ := reports_of_ok hok
    obtain ⟨hbegun, hfilled, hclosed, hskipped, hall, hstrict⟩ := passes_of_ok hlast
    simp only [calls, reports, hcalls, hreports]
    refine ⟨last.paths, last.skipped, ?_, hbegun.symm, hfilled.symm, hclosed.symm,
      hall.trans houter, ?_, hstrict⟩
    · rw [List.filter_append, hnotes]
      rfl
    · rw [List.countP_append, ← hskipped]
      rfl
  · rw [List.filter_eq_nil_iff] at hnotes ⊢
    exact fun event he => hnotes event (mem_notes_of_failed hfail he)
  · simp only [reply, reports, reportsFor, replyTo_events]
    exact Surface.filter_events_of_neverReports hp _ _

def scriptMessages : List String :=
  ["emitted statement", "gradient id redefined", "defined linear gradient"]

theorem script_neverReports {message : String} (h : message ∉ scriptMessages) :
    Script.surface.NeverReports (·.message = message) := by
  have hemitted : ∀ statements, ∀ event ∈ Script.emittedEvents statements,
      event.message ∈ scriptMessages := by
    intro statements
    exact List.forall_mem_map.mpr fun _ _ => by simp [scriptMessages, Log.Event.message]
  intro script call event he
  suffices hm : event.message ∈ scriptMessages from decide_eq_false fun heq => h (heq ▸ hm)
  simp only [Script.surface] at he
  split at he
  · cases he
  · cases call
    case register gradient =>
      simp only [Script.callJournal, Script.defineJournal, List.mem_append] at he
      rcases he with (he | he) | he
      · exact hemitted _ event he
      · split at he
        · cases List.mem_singleton.mp he
          simp [scriptMessages, Log.Event.message]
        · cases he
      · cases List.mem_singleton.mp he
        simp [scriptMessages, Log.Event.message]
    all_goals exact hemitted _ event he

/-- A document with a path in a `defs` element, one that can be drawn and one that cannot. -/
def countedPaths : String :=
  "<svg><defs><path d='z'/></defs><path d='z'></path><g><path d='Q'/></g></svg>"

theorem summary_adds_up_countedPaths :
    (compile .skipping countedPaths).failure = none ∧
      (compile .strict countedPaths).failure ≠ none ∧
      (∃ paths skipped,
        (compile .skipping countedPaths).events.filter (·.message = "rendered document") =
          [.rendered paths skipped] ∧ paths + skipped = 2) ∧
      (compile .strict countedPaths).events.filter (·.message = "rendered document") = [] := by
  have hscript : Script.surface.NeverReports (·.message = "rendered document") :=
    script_neverReports (by decide)
  have hskipping : (compile .skipping countedPaths).failure = none := by decide +kernel
  have hstrict : (compile .strict countedPaths).failure ≠ none := by decide +kernel
  have houter : outerPaths [] (Markup.read countedPaths).events = 2 := by decide +kernel
  have hcompile := fun options =>
    (summary_adds_up Script.surface options (.empty Script.defaultReceiver)).2
      (Markup.read countedPaths) (Markup.read_matched countedPaths)
  obtain ⟨paths, skipped, hsummary, -, -, -, hall, -⟩ := (hcompile .skipping).1 hskipping
  refine ⟨hskipping, hstrict, ⟨paths, skipped, ?_, hall.trans houter⟩, ?_⟩
  · exact ((hcompile .skipping).2.2 _ hscript).trans hsummary
  · exact ((hcompile .strict).2.2 _ hscript).trans ((hcompile .strict).2.1 hstrict)

end SvgDraw.Document
