/-
  SvgDraw.Proofs.Document.References — the gradients that a fill can name.

  A fill refers to a gradient if it is `url(` and `)` between blanks. Of what stands in the
  parentheses, blanks, then quotes and then one hash sign are taken off; the rest is the id
  (`referenced`, `gradientReference?_eq_some_iff`). So an id never ends in a quote
  (`endsOutside_referenced`), and every id that does not is reached: between quotes of either kind
  in any case, and without quotes if it does not end in a blank (`Names`,
  `gradientReference?_of_names`).

  On a path in front of a document, such a fill names the gradient (`pathFirst`,
  `renderReading_pathFirst`): the path is filled with it, and the rest of the document is rendered
  as without the path. Any data and fill can be written into a document so (`read_withPath`).
  `gradient_references` puts this together.
-/

import SvgDraw.Proofs.Document.Defs
import SvgDraw.Proofs.Markup.Writing

namespace SvgDraw.Document

/-! ## References -/

def referenced (body : List Char) : List Char :=
  (afterHead? ['#'] (stripWhile isQuote (trim body))).getD (stripWhile isQuote (trim body))

def referenceText (body : List Char) : List Char :=
  "url(".toList ++ body ++ [')']

theorem gradientReference?_eq_some_iff {value id : String} :
    gradientReference? value = some id ↔
      ∃ body, trim value.toList = referenceText body ∧ id = .ofList (referenced body) := by
  unfold gradientReference?
  simp only [Option.bind_eq_bind, Option.bind_eq_some_iff, afterHead?_eq_some_iff,
    beforeTail?_eq_some_iff, Option.pure_def, Option.some.injEq]
  constructor
  · rintro ⟨opened, hopened, body, rfl, rfl⟩
    exact ⟨body, by rw [hopened, referenceText, List.append_assoc], rfl⟩
  · rintro ⟨body, hvalue, rfl⟩
    exact ⟨body ++ [')'], by rw [hvalue, referenceText, List.append_assoc], body, rfl, rfl⟩

theorem gradientReference?_eq_none_iff {value : String} :
    gradientReference? value = none ↔ ¬ ∃ body, trim value.toList = referenceText body := by
  rw [Option.eq_none_iff_forall_ne_some]
  constructor
  · rintro h ⟨body, hbody⟩
    exact h _ (gradientReference?_eq_some_iff.mpr ⟨body, hbody, rfl⟩)
  · intro h id hid
    obtain ⟨body, hbody, -⟩ := gradientReference?_eq_some_iff.mp hid
    exact h ⟨body, hbody⟩

/-- What is named does not end in a quote. -/
theorem endsOutside_referenced (body : List Char) : EndsOutside isQuote (referenced body) := by
  have hends := (bare_stripWhile isQuote (trim body)).2
  unfold referenced
  cases hhash : afterHead? ['#'] (stripWhile isQuote (trim body)) with
  | none => exact hends
  | some id =>
    rw [afterHead?_eq_some_iff.mp hhash] at hends
    show EndsOutside isQuote id
    by_cases hid : id = []
    · subst hid
      exact endsOutside_nil
    · exact (endsOutside_append hid).mp hends

/-! ## Every id -/

theorem isBlank_of_isQuote {q : Char} (h : isQuote q = true) : isBlank q = false := by
  simp only [isQuote, Bool.or_eq_true, decide_eq_true_eq] at h
  rcases h with rfl | rfl <;> decide

/-- An id with its hash sign. -/
theorem bare_hash {p : Char → Bool} {id : List Char} (hhash : p '#' = false)
    (hid : EndsOutside p id) : Bare p ('#' :: id) := by
  refine ⟨stops_cons.mpr hhash, ?_⟩
  by_cases hnil : id = []
  · subst hnil
    show EndsOutside p ([] ++ ['#'])
    exact endsOutside_concat.mpr hhash
  · show EndsOutside p (['#'] ++ id)
    exact (endsOutside_append hnil).mpr hid

theorem referenced_quoted {id : List Char} {q : Char} (hq : isQuote q = true)
    (hid : EndsOutside isQuote id) : referenced ([q] ++ '#' :: id ++ [q]) = id := by
  have hquotes : ∀ c ∈ [q], isQuote c = true := by simpa using hq
  have hbare : Bare isBlank ([q] ++ '#' :: id ++ [q]) :=
    ⟨stops_cons.mpr (isBlank_of_isQuote hq), endsOutside_concat.mpr (isBlank_of_isQuote hq)⟩
  have hinner := bare_hash (by decide) hid
  rw [referenced, trim, stripWhile_of_bare hbare, stripWhile_around hquotes hquotes hinner]
  rfl

theorem referenced_unquoted {id : List Char} (hid : EndsOutside isQuote id)
    (hblank : EndsOutside isBlank id) : referenced ('#' :: id) = id := by
  rw [referenced, trim, stripWhile_of_bare (bare_hash (by decide) hblank),
    stripWhile_of_bare (bare_hash (by decide) hid)]
  rfl

/-- The value is a reference to the gradient `id`, with blanks around it, and with quotes of one
    kind or, unless the id ends in a blank, without. -/
inductive Names (id value : String) : Prop where
  | quoted {before after : List Char} {q : Char} (blankBefore : ∀ c ∈ before, isBlank c = true)
      (blankAfter : ∀ c ∈ after, isBlank c = true) (quote : isQuote q = true)
      (text : value.toList =
        before ++ referenceText ([q] ++ '#' :: id.toList ++ [q]) ++ after)
  | unquoted {before after : List Char} (blankBefore : ∀ c ∈ before, isBlank c = true)
      (blankAfter : ∀ c ∈ after, isBlank c = true) (ends : EndsOutside isBlank id.toList)
      (text : value.toList = before ++ referenceText ('#' :: id.toList) ++ after)

theorem trim_around_reference {before after : List Char}
    (hbefore : ∀ c ∈ before, isBlank c = true) (hafter : ∀ c ∈ after, isBlank c = true)
    (body : List Char) :
    trim (before ++ referenceText body ++ after) = referenceText body := by
  have hfirst : isBlank 'u' = false := by decide
  have hlast : isBlank ')' = false := by decide
  exact stripWhile_around hbefore hafter
    ⟨stops_cons.mpr hfirst, endsOutside_concat.mpr hlast⟩

theorem gradientReference?_of_names {id value : String} (hid : EndsOutside isQuote id.toList)
    (h : Names id value) : gradientReference? value = some id := by
  rw [gradientReference?_eq_some_iff]
  cases h with
  | quoted hbefore hafter hq htext =>
    rw [htext, trim_around_reference hbefore hafter]
    exact ⟨_, rfl, by rw [referenced_quoted hq hid, String.ofList_toList]⟩
  | unquoted hbefore hafter hblank htext =>
    rw [htext, trim_around_reference hbefore hafter]
    exact ⟨_, rfl, by rw [referenced_unquoted hid hblank, String.ofList_toList]⟩

theorem fillPaint_of_names {id value : String} (hid : EndsOutside isQuote id.toList)
    (h : Names id value) {ids : List String} (hmem : id ∈ ids) {attrs : Attributes}
    (hfill : attrs.lookup "fill" = some value) :
    fillPaint ids attrs = .ok (some (.gradient id)) := by
  simp [fillPaint, hfill, gradientReference?_of_names hid h, hmem]

/-! ## Documents -/

variable {options : Options} {ids : List String} {before before' : List Markup.Event}

/-- Blocks depend on what precedes them by the size and the open `defs` elements only. -/
theorem blocks_congr (events : List Markup.Event)
    (hs : svgAttributes before = svgAttributes before')
    (hd : openDefs before = openDefs before') :
    blocks options ids before events = blocks options ids before' events := by
  induction events generalizing before before' with
  | nil => rfl
  | cons event events ih =>
    rw [blocks, blocks, block_congr hs hd]
    congr 1
    refine ih ?_ ?_
    · rw [svgAttributes_snoc, svgAttributes_snoc, hs]
    · rw [openDefs_snoc, openDefs_snoc, hd]

def pathAttributes (data fill : String) : Attributes :=
  [("d", data), ("fill", fill)]

def withPath (data fill source : String) : String :=
  .ofList (Markup.elementText "path".toList (pathAttributes data fill)) ++ source

def pathTag (data fill : String) : Markup.Tag :=
  Markup.writtenTag "path".toList (pathAttributes data fill)

def pathFirst (data fill : String) (reading : Markup.Reading) : Markup.Reading :=
  ⟨[] ++ eventOf (pathTag data fill) true :: reading.events, reading.failure⟩

theorem localName_pathTag (data fill : String) :
    Markup.localName (pathTag data fill).name = "path" := by
  have hname : Markup.localName "path".toList = "path" := by decide
  exact hname

theorem read_withPath (data fill source : String) :
    Markup.read (withPath data fill source) = pathFirst data fill (Markup.read source) ∧
      (pathTag data fill).attributes = .ok (pathAttributes data fill) := by
  have hname : Markup.IsWord "path".toList := ⟨by decide, by simp⟩
  have hkeys : ∀ a ∈ pathAttributes data fill, Markup.IsWord a.1.toList := by
    simp [pathAttributes, Markup.IsWord]
  exact Markup.read_element hname hkeys (by simp [pathAttributes]) source

variable {reading : Markup.Reading}

/-- The first pass takes no notice of the path. -/
theorem first_pathFirst (data fill : String) (reading : Markup.Reading) :
    registered (pathFirst data fill reading) = registered reading ∧
      firstFault (pathFirst data fill reading) = firstFault reading := by
  have hname := localName_pathTag data fill
  constructor
  · rw [registered, pathFirst, gradientPass_path hname]
    rfl
  · have hfault : gradientFault (eventOf (pathTag data fill) true) = none := by
      simp [gradientFault, tag?_eventOf, hname]
    simp [firstFault, pathFirst, hfault]

/-- The path is drawn with its fill, and then the document is drawn as without it. -/
theorem drawn_pathFirst {data fill : String} {operations : List Operation} {paint : Paint}
    (hdata : (compilePath data .fresh).1 = .ok operations)
    (hfill : fillPaint (registeredIds reading) (pathAttributes data fill) = .ok (some paint))
    (hfault : firstFault reading = none) :
    drawn options (pathFirst data fill reading) =
      ⟨pathCalls operations (some paint) ++ (drawn options reading).calls,
        (drawn options reading).failure⟩ := by
  have hname := localName_pathTag data fill
  obtain ⟨-, hattrs⟩ := read_withPath data fill ""
  obtain ⟨hregistered, hsame⟩ := first_pathFirst data fill reading
  have hids : registeredIds (pathFirst data fill reading) = registeredIds reading := by
    rw [registeredIds, hregistered, registeredIds]
  have hblock : block options (registeredIds reading) [] (eventOf (pathTag data fill) true) =
      ⟨pathCalls operations (some paint), none⟩ := by
    have hlookup : (pathAttributes data fill).lookup "d" = some data := rfl
    simp only [block, tag?_eventOf, hname, attributeBlock, hattrs, pathBlock, hlookup,
      Option.getD_some, hdata, fillCalls_eq, hfill]
    rfl
  obtain ⟨hsize, hdefs⟩ := path_keeps hname true []
  have hrest : blocks options (registeredIds reading)
      ([] ++ [eventOf (pathTag data fill) true]) reading.events =
      blocks options (registeredIds reading) [] reading.events :=
    blocks_congr _ hsize hdefs
  unfold drawn
  simp only [hsame, hfault, hids]
  simp only [pathFirst, List.nil_append, blocks] at hrest ⊢
  rw [Block.sequence, hblock, hrest]

/-- The ids of a first pass that gets to its end are those of the gradients it registers. -/
theorem of_gradientPass_ok {reading : Markup.Reading} {gradients : Gradients}
    (h : (gradientPass reading).result = .ok gradients) :
    firstFault reading = none ∧ gradients.ids = registeredIds reading := by
  have hfirst := gradientPass_comes reading
  cases hfault : firstFault reading with
  | some e =>
    rw [hfault] at hfirst
    cases hfirst.result_eq.symm.trans h
  | none =>
    rw [hfault] at hfirst
    obtain ⟨t, ht, hids⟩ := hfirst
    obtain rfl : t = gradients := Except.ok.inj (ht.result_eq.symm.trans h)
    exact ⟨rfl, hids⟩

/-- A document with a path that names one of its gradients is rendered as the document without the
    path is, and the path is drawn, with the gradient for its fill, before anything else is. -/
theorem renderReading_pathFirst {gradients : Gradients} {id value data : String}
    {operations : List Operation} (options : Options)
    (hpass : (gradientPass reading).result = .ok gradients) (hmem : id ∈ gradients.ids)
    (hid : EndsOutside isQuote id.toList) (hvalue : Names id value)
    (hdata : (compilePath data .fresh).1 = .ok operations) :
    (renderReading options (pathFirst data value reading)).calls =
        (registered reading).map .register ++ pathCalls operations (some (.gradient id)) ++
          (drawn options reading).calls ∧
      (renderReading options (pathFirst data value reading)).failure? =
        (drawn options reading).failure := by
  obtain ⟨hfault, hids⟩ := of_gradientPass_ok hpass
  rw [hids] at hmem
  have hfill := fillPaint_of_names hid hvalue hmem
    (show (pathAttributes data value).lookup "fill" = some value from rfl)
  obtain ⟨hcalls, hfailure⟩ := renderReading_outcome options (pathFirst data value reading)
  rw [drawn_pathFirst hdata hfill hfault] at hcalls hfailure
  rw [(first_pathFirst data value reading).1, ← List.append_assoc] at hcalls
  exact ⟨hcalls, hfailure⟩

/-- An id that does not end in a quote is named by a reference to it between quotes, and without
    quotes if it does not end in a blank either; blanks around the reference do not matter. No
    reference names an id that ends in a quote, and what is not `url(` and `)` between blanks is no
    reference. So every gradient that a document registers, unless its id ends in a quote, can be
    the fill of its paths: wherever a tag asks for it, it gets it, and a path in front of the
    document that asks for it is drawn with it, the rest being rendered as without the path. A path
    with any data and any fill can be written in front of a document. -/
theorem gradient_references :
    (∀ id value, EndsOutside isQuote id.toList → Names id value →
      gradientReference? value = some id) ∧
    (∀ value id, gradientReference? value = some id → EndsOutside isQuote id.toList) ∧
    (∀ value, gradientReference? value = none ↔
      ¬ ∃ body, trim value.toList = "url(".toList ++ body ++ [')']) ∧
    (∀ ids id value attrs, id ∈ ids → EndsOutside isQuote id.toList → Names id value →
      List.lookup "fill" attrs = some value → fillPaint ids attrs = .ok (some (.gradient id))) ∧
    (∀ data fill source,
      Markup.read (withPath data fill source) = pathFirst data fill (Markup.read source) ∧
        (pathTag data fill).attributes = .ok [("d", data), ("fill", fill)]) ∧
    ∀ (σ : Type) (surface : Surface σ) (options : Options) (reading : Markup.Reading) (state : σ)
      (gradients : Gradients), surface.Accepting → (gradientPass reading).result = .ok gradients →
      ∀ id ∈ gradients.ids, EndsOutside isQuote id.toList → ∀ value, Names id value →
      ∀ data operations, (compilePath data .fresh).1 = .ok operations →
      ∃ first second, (∀ call ∈ first, call.gradient?.isSome) ∧
        (∀ call ∈ second, call.gradient? = none) ∧
        callsFor surface options reading state = first ++ second ∧
        callsFor surface options (pathFirst data value reading) state =
          first ++ pathCalls operations (some (.gradient id)) ++ second ∧
        (replyTo surface options (pathFirst data value reading) state).failure =
          (replyTo surface options reading state).failure := by
  refine ⟨fun id value hid h => gradientReference?_of_names hid h, ?_,
    fun value => gradientReference?_eq_none_iff,
    fun ids id value attrs hmem hid h hfill => fillPaint_of_names hid h hmem hfill,
    read_withPath, ?_⟩
  · intro value id h
    obtain ⟨body, -, rfl⟩ := gradientReference?_eq_some_iff.mp h
    rw [String.toList_ofList]
    exact endsOutside_referenced body
  · intro σ surface options reading state gradients accepts hpass id hmem hid value hvalue data
      operations hdata
    obtain ⟨hcalls, hfailure⟩ := renderReading_outcome options reading
    obtain ⟨hnamed, hend⟩ := renderReading_pathFirst options hpass hmem hid hvalue hdata
    refine ⟨(registered reading).map .register, (drawn options reading).calls, ?_, ?_, ?_, ?_, ?_⟩
    · intro call hc
      obtain ⟨g, -, rfl⟩ := List.mem_map.mp hc
      rfl
    · intro call hc
      exact (drawn_draws options reading call hc).gradient?_eq_none
    · exact (callsFor_of_accepting accepts options reading state).trans hcalls
    · exact (callsFor_of_accepting accepts options _ state).trans hnamed
    · rw [failure_of_accepting accepts, failure_of_accepting accepts]
      exact hend.trans hfailure.symm

/-- A document that registers a gradient whose id has quotes, blanks, a parenthesis, a hash sign
    and an ampersand in it. -/
def hostileId : String :=
  "<linearGradient id='&quot;a&apos; )#&amp; b'/>"

theorem gradient_references_hostileId :
    let id := "\"a' )#& b"
    let value := " url('#\"a' )#& b')\t"
    (gradientPass (Markup.read hostileId)).result = .ok ⟨none, [id]⟩ ∧
      gradientReference? value = some id ∧
      ∃ g, callsFor acceptingRecorder .strict (Markup.read (withPath "z" value hostileId)) #[] =
        [.register g, .beginPath, .setFill (.gradient id), .fill, .closePath] := by
  intro id value
  have hpass : (gradientPass (Markup.read hostileId)).result = .ok ⟨none, [id]⟩ := by
    decide +kernel
  have hid : EndsOutside isQuote id.toList := by
    have hlast : id.toList.getLast? = some 'b' := by decide
    intro c hc
    rw [hlast] at hc
    cases hc
    decide
  have hvalue : Names id value := by
    have htext : value.toList =
        [' '] ++ referenceText (['\''] ++ '#' :: id.toList ++ ['\'']) ++ ['\t'] := by decide
    refine .quoted ?_ ?_ (by decide) htext
    · simp [isBlank, blankRanges]
    · simp [isBlank, blankRanges]
  have hplain : callsFor acceptingRecorder .strict (Markup.read hostileId) #[] =
      [.register ⟨id, ⟨0.0, 0.0⟩, ⟨0.0, 0.0⟩, []⟩] := by
    decide +kernel
  obtain ⟨hnames, -, -, -, hwritten, hdocument⟩ := gradient_references
  obtain ⟨first, second, -, hsecond, hwithout, hwith, -⟩ :=
    hdocument _ acceptingRecorder .strict (Markup.read hostileId) #[] _ (fun _ _ => rfl) hpass id
      List.mem_cons_self hid value hvalue "z" [] (by decide +kernel)
  refine ⟨hpass, hnames id value hid hvalue, ⟨id, ⟨0.0, 0.0⟩, ⟨0.0, 0.0⟩, []⟩, ?_⟩
  -- The only call without the path registers the gradient, so it is not one of the second part.
  rw [hplain] at hwithout
  rw [(hwritten "z" value hostileId).1]
  rcases List.cons_eq_append_iff.mp hwithout with ⟨rfl, rfl⟩ | ⟨rest, rfl, hrest⟩
  · exact absurd (hsecond _ List.mem_cons_self) (by simp [Call.gradient?])
  · obtain ⟨rfl, rfl⟩ := List.append_eq_nil_iff.mp hrest.symm
    exact hwith

end SvgDraw.Document
