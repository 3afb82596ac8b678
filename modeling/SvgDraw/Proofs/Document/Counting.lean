/-
  SvgDraw.Proofs.Document.Counting — how many paths of a document are drawn and how many skipped.

  Of all actions five kinds matter for these counts (`Tally`): a path is begun, filled, closed or
  skipped, or the counts are reported. Reading path data, the first pass and the size and the paint
  of the document do none of them. A path tag outside of `defs` is drawn with one action of each of
  the first three kinds, or skipped with one of the fourth, or it ends the pass (`path_counts`); so
  along the second pass the counts go up with the tallies, together by one for each such tag, and
  the count of skipped paths by one for each tag that cannot be drawn (`Adds`, `visit_counts`,
  `foldlM_visit_counts`).
-/

import SvgDraw.Proofs.Canvas.Journal
import SvgDraw.Proofs.Document.Skipping

namespace SvgDraw

/-! ## What is counted -/

/-- An action that matters for the counts. -/
inductive Tally where
  | begun
  | filled
  | closed
  | skipped
  | summed
  deriving DecidableEq, Repr

def Action.tally? : Action → Option Tally
  | .perform .beginPath => some .begun
  | .perform .fill => some .filled
  | .perform .closePath => some .closed
  | .note (.skippingPath _) => some .skipped
  | .note (.rendered _ _) => some .summed
  | _ => none

namespace Tally

def call? : Tally → Option Call
  | begun => some .beginPath
  | filled => some .fill
  | closed => some .closePath
  | _ => none

def message? : Tally → Option String
  | skipped => some "skipping path"
  | summed => some "rendered document"
  | _ => none

variable {tally : Tally}

/-- The tallies tell how often a call is made. -/
theorem count_call {call : Call} (h : tally.call? = some call) (actions : List Action) :
    (actions.filterMap Action.tally?).count tally =
      (actions.filterMap Action.call?).count call := by
  rw [List.count_filterMap, List.count_filterMap]
  congr 1
  funext action
  cases action with
  | note event => cases event <;> cases tally <;> cases h <;> rfl
  | perform other => cases tally <;> cases h <;> cases other <;> rfl

/-- The tallies tell how often a message is reported. -/
theorem countP_message {message : String} (h : tally.message? = some message)
    (actions : List Action) :
    (actions.filterMap Action.tally?).count tally =
      (actions.filterMap Action.event?).countP (·.message = message) := by
  rw [List.countP_filterMap, List.count_filterMap]
  congr 1
  funext action
  cases action with
  | perform call => cases call <;> cases tally <;> cases h <;> rfl
  | note event =>
    cases tally <;> cases h <;> cases event <;>
      simp [Action.event?, Action.tally?, Log.Event.message]

end Tally

namespace Walk

variable {α β : Type} {d : Walk α} {f : α → Walk β}

def notes (d : Walk α) : List Log.Event := d.actions.filterMap Action.event?

def tallies (d : Walk α) : List Tally := d.actions.filterMap Action.tally?

theorem tallies_bind_ok {a : α} (h : d.result = .ok a) :
    (d >>= f).tallies = d.tallies ++ (f a).tallies := by
  rw [tallies, (bind_of_ok h).1]
  exact List.filterMap_append

theorem tallies_bind_error {failure : Failure} (h : d.result = .error failure) :
    (d >>= f).tallies = d.tallies := by
  rw [tallies, (bind_of_error h).1]
  rfl

theorem tallies_bind_eq_nil (hd : d.tallies = []) (hf : ∀ a, (f a).tallies = []) :
    (d >>= f).tallies = [] := by
  cases hr : d.result with
  | error failure => rw [tallies_bind_error hr, hd]
  | ok a => rw [tallies_bind_ok hr, hd, hf a, List.nil_append]

theorem tallies_ofExcept (result : Except Failure α) : (ofExcept result).tallies = [] := by
  cases result <;> rfl

theorem tallies_foldlM_eq_nil {τ ε : Type} {step : τ → ε → Walk τ}
    (h : ∀ t e, (step t e).tallies = []) (es : List ε) (t : τ) :
    (es.foldlM step t).tallies = [] := by
  induction es generalizing t with
  | nil => rfl
  | cons e es ih =>
    rw [List.foldlM_cons]
    exact tallies_bind_eq_nil (h t e) ih

end Walk

/-! ## Path data -/

theorem tally?_tokenizeJournal (data : String) :
    ∀ event ∈ tokenizeJournal data, (Action.note event).tally? = none := by
  unfold tokenizeJournal
  refine List.forall_mem_append.mpr ⟨?_, ?_⟩
  · exact List.forall_mem_map.mpr fun placed _ => rfl
  · cases (scan data).error with
    | some e => exact List.forall_mem_nil _
    | none => exact List.forall_mem_singleton.mpr rfl

theorem tally?_tokenEvent (token : Token) (after : Pen) :
    (Action.note (token.event after)).tally? = none := by
  unfold Token.event
  cases token.command <;> rfl

theorem tally?_resolveEvents (tokens : List Token) (pen : Pen) :
    ∀ event ∈ resolveEvents tokens pen, (Action.note event).tally? = none := by
  induction tokens generalizing pen with
  | nil => exact List.forall_mem_nil _
  | cons token tokens ih =>
    unfold resolveEvents
    cases token.resolve pen with
    | error e => exact List.forall_mem_nil _
    | ok r => exact List.forall_mem_cons.mpr ⟨tally?_tokenEvent token r.2, ih r.2⟩

theorem tally?_resolveJournal (tokens : List Token) (pen : Pen) :
    ∀ event ∈ resolveJournal tokens pen, (Action.note event).tally? = none := by
  unfold resolveJournal
  refine List.forall_mem_append.mpr ⟨tally?_resolveEvents tokens pen, ?_⟩
  cases (resolveTokens tokens pen).1 with
  | ok operations => exact List.forall_mem_singleton.mpr rfl
  | error e => exact List.forall_mem_nil _

/-- Reading and resolving path data reports nothing that is counted. -/
theorem tallies_compileJournal (data : String) (pen : Pen) :
    (Walk.noteAll (compileJournal data pen)).tallies = [] := by
  have hnone : ∀ event ∈ compileJournal data pen, (Action.note event).tally? = none := by
    unfold compileJournal
    refine List.forall_mem_append.mpr ⟨tally?_tokenizeJournal data, ?_⟩
    cases tokenize data with
    | error e => exact List.forall_mem_nil _
    | ok tokens => exact tally?_resolveJournal tokens pen
  rw [Walk.tallies, Walk.actions_noteAll]
  exact List.filterMap_eq_nil_iff.mpr (List.forall_mem_map.mpr hnone)

namespace Document

variable {options : Options} {ids : List String} {before : List Markup.Event} {s t : Drawing}

/-! ## The first pass -/

theorem tallies_stopOffset (attrs : Attributes) : (stopOffset attrs).tallies = [] := by
  unfold stopOffset
  cases attrs.lookup "offset" with
  | none => rfl
  | some value =>
    dsimp only
    cases offset? value with
    | some x => rfl
    | none => rfl

theorem tallies_addStop (s : Gradients) (attrs : Attributes) : (s.addStop attrs).tallies = [] := by
  unfold Gradients.addStop
  cases s.current with
  | none => rfl
  | some g => exact Walk.tallies_bind_eq_nil (tallies_stopOffset attrs) fun _ => rfl

theorem tallies_finish (s : Gradients) : s.finish.tallies = [] := by
  unfold Gradients.finish
  cases s.current with
  | none => rfl
  | some g => rfl

theorem tallies_gradientVisit (s : Gradients) (event : Markup.Event) :
    (s.visit event).tallies = [] := by
  have hmeet : ∀ tag whole, (s.meet tag whole).tallies = [] := by
    intro tag whole
    unfold Gradients.meet
    split
    · refine Walk.tallies_bind_eq_nil ?_ fun begun => ?_
      · exact Walk.tallies_bind_eq_nil (Walk.tallies_ofExcept _) fun _ => rfl
      · cases whole with
        | true => exact tallies_finish begun
        | false => rfl
    · exact Walk.tallies_bind_eq_nil (Walk.tallies_ofExcept _) (tallies_addStop s)
    · rfl
  cases event with
  | start tag => exact hmeet tag false
  | empty tag => exact hmeet tag true
  | finish name =>
    simp only [Gradients.visit]
    split
    · exact tallies_finish s
    · rfl

theorem tallies_gradientPass (reading : Markup.Reading) : (gradientPass reading).tallies = [] := by
  refine Walk.tallies_bind_eq_nil (Walk.tallies_foldlM_eq_nil tallies_gradientVisit _ _) ?_
  intro last
  cases reading.failure with
  | none => rfl
  | some error => rfl

/-! ## The second pass -/

theorem tallies_setSide (name value : String) (set : Float → Drawing) (sized : Bool) :
    (setSide name value set s sized).tallies = [] := by
  unfold setSide
  cases length? value with
  | some x => rfl
  | none => rfl

theorem tallies_takeSide (state : Drawing × Bool) (a : String × String) :
    (takeSide state a).tallies = [] := by
  obtain ⟨s, sized⟩ := state
  obtain ⟨name, value⟩ := a
  simp only [takeSide]
  split
  · exact tallies_setSide ..
  · exact tallies_setSide ..
  · rfl

theorem tallies_askFill (fill : Option Paint) : (askFill fill).tallies = [] := by
  cases fill <;> rfl

theorem tallies_root (attrs : Attributes) : (s.root ids attrs).tallies = [] := by
  have hfill : ∀ t : Drawing, (do
      askFill (← Walk.ofExcept (fillPaint ids attrs))
      return t : Walk Drawing).tallies = [] := by
    intro t
    refine Walk.tallies_bind_eq_nil (Walk.tallies_ofExcept _) fun fill => ?_
    exact Walk.tallies_bind_eq_nil (tallies_askFill fill) fun _ => rfl
  refine Walk.tallies_bind_eq_nil (Walk.tallies_foldlM_eq_nil tallies_takeSide attrs _) ?_
  intro (t, sized)
  cases sized with
  | true => exact Walk.tallies_bind_eq_nil rfl fun _ => hfill t
  | false => exact hfill t

theorem tallies_apply (operations : List Operation) :
    (operations.forM Operation.apply).tallies = [] := by
  induction operations with
  | nil => rfl
  | cons operation operations ih =>
    refine Walk.tallies_bind_eq_nil ?_ fun _ => ih
    cases operation <;> rfl

theorem tallies_drawPath (operations : List Operation) (fill : Option Paint) :
    (drawPath operations fill).tallies = [.begun, .filled, .closed] := by
  have happly := (Walk.comes_apply operations).result_eq
  have hfill := (askFill_comes fill).result_eq
  simp only [drawPath, Walk.tallies_bind_ok (Walk.comes_ask _).result_eq,
    Walk.tallies_bind_ok happly, Walk.tallies_bind_ok hfill, tallies_apply, tallies_askFill]
  rfl

/-! ## Counts -/

/-- From `s` to `t` the counts go up by what the tallies say: by `outer` in all, of which `undrawn`
    are skipped. -/
structure Adds (options : Options) (outer undrawn : Nat) (s t : Drawing) (tallies : List Tally) :
    Prop where
  begun : t.paths = s.paths + tallies.count .begun
  filled : t.paths = s.paths + tallies.count .filled
  closed : t.paths = s.paths + tallies.count .closed
  skipped : t.skipped = s.skipped + tallies.count .skipped
  undrawn : tallies.count .skipped = undrawn
  all : tallies.count .begun + tallies.count .skipped = outer
  strict : options.skipInvalidPaths = false → tallies.count .skipped = 0

theorem adds_nil (hp : t.paths = s.paths) (hs : t.skipped = s.skipped) :
    Adds options 0 0 s t [] :=
  ⟨hp, hp, hp, hs, rfl, rfl, fun _ => rfl⟩

theorem Adds.append {n m i j : Nat} {u : Drawing} {xs ys : List Tally}
    (h : Adds options n i s t xs) (h' : Adds options m j t u ys) :
    Adds options (n + m) (i + j) s u (xs ++ ys) where
  begun := by rw [h'.begun, h.begun, List.count_append, Nat.add_assoc]
  filled := by rw [h'.filled, h.filled, List.count_append, Nat.add_assoc]
  closed := by rw [h'.closed, h.closed, List.count_append, Nat.add_assoc]
  skipped := by rw [h'.skipped, h.skipped, List.count_append, Nat.add_assoc]
  undrawn := by rw [List.count_append, h.undrawn, h'.undrawn]
  all := by
    rw [← h.all, ← h'.all, List.count_append, List.count_append]
    omega
  strict := by
    intro hstrict
    rw [List.count_append, h.strict hstrict, h'.strict hstrict]

/-- A part of the pass, from `s`, that comes by `outer` path tags outside of `defs`, `undrawn` of
    which cannot be drawn: it reports no summary, and if it gets to its end, the counts have gone
    up as it says. -/
structure Counts (options : Options) (outer undrawn : Nat) (s : Drawing) (w : Walk Drawing) :
    Prop where
  unsummed : .summed ∉ w.tallies
  adds : ∀ t, w.result = .ok t → Adds options outer undrawn s t w.tallies

theorem counts_of_ok {n i : Nat} {w : Walk Drawing} (xs : List Tally) (h : w.tallies = xs)
    (hr : w.result = .ok t) (hx : .summed ∉ xs) (hadds : Adds options n i s t xs) :
    Counts options n i s w := by
  refine ⟨h ▸ hx, fun u hu => ?_⟩
  cases hr.symm.trans hu
  exact h ▸ hadds

/-- What does nothing that is counted and leaves the counts alone. -/
theorem counts_of_quiet {w : Walk Drawing} (h : w.tallies = [])
    (hsame : ∀ t, w.result = .ok t → t.paths = s.paths ∧ t.skipped = s.skipped) :
    Counts options 0 0 s w := by
  refine ⟨by simp [h], fun t ht => ?_⟩
  rw [h]
  exact adds_nil (hsame t ht).1 (hsame t ht).2

theorem counts_same {w : Walk Drawing} (h : w.tallies = []) (hr : w.result = .ok t)
    (hp : t.paths = s.paths) (hs : t.skipped = s.skipped) : Counts options 0 0 s w :=
  counts_of_ok [] h hr List.not_mem_nil (adds_nil hp hs)

theorem counts_of_error {n i : Nat} {w : Walk Drawing} {failure : Failure} (h : w.tallies = [])
    (hfail : w.result = .error failure) : Counts options n i s w := by
  refine ⟨by simp [h], fun t ht => ?_⟩
  cases hfail.symm.trans ht

theorem Counts.bind {n m i j : Nat} {w : Walk Drawing} {f : Drawing → Walk Drawing}
    (hw : Counts options n i s w) (hf : ∀ t, w.result = .ok t → Counts options m j t (f t)) :
    Counts options (n + m) (i + j) s (w >>= f) := by
  cases hr : w.result with
  | error failure =>
    refine ⟨by simpa only [Walk.tallies_bind_error hr] using hw.unsummed, fun u hu => ?_⟩
    obtain ⟨t, ht, -⟩ := Walk.result_bind_eq_ok hu
    cases hr.symm.trans ht
  | ok t =>
    have hrest := hf t hr
    refine ⟨?_, fun u hu => ?_⟩
    · simp only [Walk.tallies_bind_ok hr, List.mem_append, not_or]
      exact ⟨hw.unsummed, hrest.unsummed⟩
    · obtain ⟨t', ht', hu⟩ := Walk.result_bind_eq_ok hu
      cases hr.symm.trans ht'
      rw [Walk.tallies_bind_ok hr]
      exact (hw.adds t hr).append (hrest.adds u hu)

/-- What does nothing that is counted may come first. -/
theorem counts_behind {α : Type} {n i : Nat} {w : Walk α} {f : α → Walk Drawing}
    (hw : w.tallies = []) (hf : ∀ a, w.result = .ok a → Counts options n i s (f a)) :
    Counts options n i s (w >>= f) := by
  cases hr : w.result with
  | error failure =>
    exact counts_of_error ((Walk.tallies_bind_error hr).trans hw) (Walk.bind_of_error hr).2
  | ok a =>
    have htallies : (w >>= f).tallies = (f a).tallies := by
      rw [Walk.tallies_bind_ok hr, hw, List.nil_append]
    refine ⟨htallies ▸ (hf a hr).unsummed, fun t ht => htallies ▸ (hf a hr).adds t ?_⟩
    rwa [(Walk.bind_of_ok hr).2] at ht

/-- A path is drawn as a whole, or skipped, or it ends the pass. -/
theorem path_counts (attrs : Attributes) :
    Counts options 1 (unresolvable ids attrs).toNat s (s.path options ids attrs) := by
  have hok := isOk_resolvePath ids attrs s.pen.enter
  refine counts_behind (tallies_compileJournal (pathData attrs) s.pen.enter) fun _ _ => ?_
  cases hr : resolvePath ids (compilePath (pathData attrs) s.pen.enter).1 attrs with
  | ok drawn =>
    have hu : unresolvable ids attrs = false := by
      simpa [hr, Except.isOk, Except.toBool] using hok
    have hdraw := drawPath_comes drawn.1 drawn.2
    refine counts_of_ok [.begun, .filled, .closed] ?_ hdraw.bind_pure.result_eq (by decide) ?_
    · rw [Walk.tallies_bind_ok hdraw.result_eq, tallies_drawPath]
      rfl
    · rw [hu]
      exact ⟨rfl, rfl, rfl, rfl, rfl, rfl, fun _ => rfl⟩
  | error failure =>
    have hu : unresolvable ids attrs = true := by
      simpa [hr, Except.isOk, Except.toBool] using hok
    cases ho : options.skipInvalidPaths with
    | true =>
      refine counts_of_ok [.skipped] rfl rfl (by decide) ?_
      rw [hu]
      exact ⟨rfl, rfl, rfl, rfl, rfl, rfl, fun h => by simp [ho] at h⟩
    | false => exact counts_of_error rfl rfl

/-! ## The pass -/

/-- The event, when `before` precedes it, is a path tag outside of `defs`. -/
def outerTag (before : List Markup.Event) (event : Markup.Event) : Bool :=
  (tag? event).any (fun tag => Markup.localName tag.name = "path") && openDefs before = 0

def outerTags : List Markup.Event → List Markup.Event → Nat
  | _, [] => 0
  | before, event :: events =>
    (outerTag before event).toNat + outerTags (before ++ [event]) events

def skips (ids : List String) : List Markup.Event → List Markup.Event → Nat
  | _, [] => 0
  | before, event :: events =>
    (undrawable ids before event).toNat + skips ids (before ++ [event]) events

theorem attributes_of_ok {tag : Markup.Tag} {attrs : Attributes}
    (h : (attributesOf tag).result = .ok attrs) : tag.attributes = .ok attrs := by
  rw [(attributesOf_comes tag).result_eq] at h
  cases ht : tag.attributes with
  | error e =>
    rw [ht] at h
    cases h
  | ok found =>
    rw [ht] at h
    cases h
    rfl

theorem meet_counts (h : Tracks before s) (tag : Markup.Tag) (whole : Bool) :
    Counts options (outerTag before (eventOf tag whole)).toNat
      (undrawable ids before (eventOf tag whole)).toNat s (s.meet options ids tag whole) := by
  have hnone : Markup.localName tag.name ≠ "path" ∨ openDefs before ≠ 0 →
      outerTag before (eventOf tag whole) = false ∧
        undrawable ids before (eventOf tag whole) = false := by
    intro h
    rcases h with hn | hopen
    · simp [outerTag, undrawable, tag?_eventOf, hn]
    · simp [outerTag, undrawable, tag?_eventOf, hopen]
  unfold Drawing.meet
  split
  · rename_i hn
    obtain ⟨houter, hundrawable⟩ := hnone (.inl (by simp [hn]))
    rw [houter, hundrawable]
    refine counts_behind (Walk.tallies_ofExcept _) fun attrs _ => ?_
    refine counts_of_quiet (tallies_root attrs) fun t ht => ?_
    obtain ⟨-, rfl⟩ := (root_carries h attrs).of_ok ht
    exact ⟨rfl, rfl⟩
  · rename_i hn
    obtain ⟨houter, hundrawable⟩ := hnone (.inl (by simp [hn]))
    rw [houter, hundrawable]
    cases whole with
    | true => exact counts_same rfl rfl rfl rfl
    | false => exact counts_same rfl rfl rfl rfl
  · rename_i hn
    by_cases hd : 0 < s.defsDepth
    · rw [if_pos hd]
      rw [h.depth] at hd
      obtain ⟨houter, hundrawable⟩ := hnone (.inr (by omega))
      rw [houter, hundrawable]
      exact counts_same rfl rfl rfl rfl
    · rw [if_neg hd]
      have hopen : openDefs before = 0 := by
        rw [← h.depth]
        omega
      refine counts_behind (Walk.tallies_ofExcept _) fun attrs ha => ?_
      have houter : outerTag before (eventOf tag whole) = true := by
        simp [outerTag, tag?_eventOf, hn, hopen]
      have hundrawable : undrawable ids before (eventOf tag whole) = unresolvable ids attrs := by
        simp [undrawable, tag?_eventOf, hn, hopen, attributes_of_ok ha]
      rw [houter, hundrawable]
      exact path_counts attrs
  · rename_i hp
    have hp : Markup.localName tag.name ≠ "path" := hp
    obtain ⟨houter, hundrawable⟩ := hnone (.inl hp)
    rw [houter, hundrawable]
    exact counts_same rfl rfl rfl rfl

/-- One step of the pass. -/
theorem visit_counts (h : Tracks before s) (event : Markup.Event) :
    Counts options (outerTag before event).toNat (undrawable ids before event).toNat s
      (s.visit options ids event) := by
  cases event with
  | start tag => exact meet_counts h tag false
  | empty tag => exact meet_counts h tag true
  | finish name =>
    refine counts_of_quiet rfl fun t ht => ?_
    cases ht
    by_cases hn : Markup.localName name = "defs"
    · simp [hn]
    · simp [hn]

/-- The whole pass. -/
theorem foldlM_visit_counts (events : List Markup.Event) (h : Tracks before s) :
    Counts options (outerTags before events) (skips ids before events) s
      (events.foldlM (Drawing.visit options ids) s) := by
  induction events generalizing before s with
  | nil => exact counts_same rfl rfl rfl rfl
  | cons event events ih =>
    rw [List.foldlM_cons]
    refine (visit_counts h event).bind fun t ht => ?_
    exact ih ((visit_carries h event).of_ok ht).2

theorem drawingPass_counts (options : Options) (ids : List String) (reading : Markup.Reading) :
    Counts options (outerTags [] reading.events) (skips ids [] reading.events) .initial
      (drawingPass options ids reading) := by
  have hevents : Counts options _ _ .initial
      (reading.events.foldlM (Drawing.visit options ids) .initial) :=
    foldlM_visit_counts reading.events tracks_initial
  refine hevents.bind (m := 0) (j := 0) fun last _ => ?_
  cases reading.failure with
  | some error => exact counts_of_error rfl rfl
  | none => exact counts_same rfl rfl rfl rfl

end Document

end SvgDraw
