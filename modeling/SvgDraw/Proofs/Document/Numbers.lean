/-
  SvgDraw.Proofs.Document.Numbers — which numbers of attributes reach a surface.

  A rendering hands on three kinds of numbers that it reads from attributes: the sides of `svg`
  tags, the coordinates of gradients and the offsets of their stops. `HandsOn` gives the texts of
  these from the places of the tags alone: a side counts if the second pass gets to its tag, a
  coordinate if its tag is registered, an offset if its stop is between the two tags of a gradient.
  Where a text is no number, the size stays as it is and the coordinate or the offset is zero.

  What is read as a number is handed on, whatever it is. So every number that reaches a surface is
  finite exactly if none of these texts is read as one that is not (`attribute_numbers_finite_iff`).
  Some documents hand on others (`endlessNumbers`).
-/

import SvgDraw.Proofs.Document.Registrations
import SvgDraw.Proofs.Document.Sizing
import SvgDraw.Proofs.Markup.Writing
import SvgDraw.Proofs.Number.Finite

namespace SvgDraw

/-- The numbers of a call that are read from attributes. -/
def Call.attributeNumbers : Call → List Float
  | .resize width height => [width, height]
  | .register g => [g.start.x, g.start.y, g.finish.x, g.finish.y] ++ g.stops.map (·.offset)
  | _ => []

namespace Document

open Number (isFinite Unbounded)

/-! ## Values -/

def lengthText (value : String) : List Char :=
  trim (dropTail "px".toList (trim value.toList))

def offsetText (value : String) : List Char :=
  match beforeTail? ['%'] (trim value.toList) with
  | some percent => trim percent
  | none => trim value.toList

theorem length?_finite_iff (value : String) :
    (∀ x ∈ length? value, isFinite x = true) ↔ ¬ Unbounded (lengthText value) :=
  Number.read?_finite_iff _

theorem offset?_finite_iff (value : String) :
    (∀ x ∈ offset? value, isFinite x = true) ↔ ¬ Unbounded (offsetText value) := by
  simp only [offset?, offsetText]
  cases beforeTail? ['%'] (trim value.toList) with
  | none => exact Number.read?_finite_iff _
  | some percent =>
    rw [← Number.read?_finite_iff]
    simp [Number.isFinite_div_hundred]

/-- A number that is zero if its attribute is missing or cannot be read. -/
theorem isFinite_lookup_iff (attrs : Attributes) (name : String) (read : String → Option Float) :
    isFinite (((attrs.lookup name).bind read).getD 0.0) = true ↔
      ∀ value, attrs.lookup name = some value → ∀ x ∈ read value, isFinite x = true := by
  have hzero : isFinite 0.0 = true := by decide +kernel
  cases attrs.lookup name with
  | none => simp [hzero]
  | some value =>
    cases hread : read value with
    | none => simp [hread, hzero]
    | some x => simp [hread]

theorem coordinate_finite_iff (attrs : Attributes) (name : String) :
    isFinite (coordinate attrs name) = true ↔
      ∀ value, attrs.lookup name = some value → ¬ Unbounded (lengthText value) := by
  simp only [← length?_finite_iff]
  exact isFinite_lookup_iff attrs name length?

theorem stopOf_finite_iff (attrs : Attributes) :
    isFinite (stopOf attrs).offset = true ↔
      ∀ value, attrs.lookup "offset" = some value → ¬ Unbounded (offsetText value) := by
  simp only [← offset?_finite_iff]
  exact isFinite_lookup_iff attrs "offset" offset?

/-! ## The reference -/

def sideNames : List String := ["width", "height"]

def coordinateNames : List String := ["x1", "y1", "x2", "y2"]

/-- The text is that of a number which a rendering hands on, if it is read as one. -/
inductive HandsOn (options : Options) (reading : Markup.Reading) : List Char → Prop
  /-- The second pass gets to the `svg` tag. -/
  | side {before after event name value} (faultless : firstFault reading = none)
      (split : reading.events = before ++ event :: after)
      (reached : Reaches options (registeredIds reading) [] before)
      (isSide : name ∈ sideNames) (given : (name, value) ∈ svgAttributesOf event) :
      HandsOn options reading (lengthText value)
  /-- The tag is registered as a gradient. -/
  | coordinate {before after event tag name value}
      (split : collected reading.events = before ++ event :: after)
      (isTag : tag? event = some tag) (isRegistered : (gradientAt event after).isSome = true)
      (isCoordinate : name ∈ coordinateNames)
      (given : (readAttributes tag).lookup name = some value) :
      HandsOn options reading (lengthText value)
  /-- The stop is between the two tags of a gradient. -/
  | offset {before after event tag value}
      (split : collected reading.events = before ++ event :: after)
      (isTag : tag? event = some tag) (isStop : Markup.localName tag.name = "stop")
      (isEnclosed : enclosed before after = true)
      (given : (readAttributes tag).lookup "offset" = some value) :
      HandsOn options reading (offsetText value)

variable {options : Options} {reading : Markup.Reading} {event : Markup.Event}
  {before after events : List Markup.Event} {earlier attrs : Attributes}

/-! ## Gradients -/

theorem mem_gradientsIn_iff {g : LinearGradient} :
    g ∈ gradientsIn events ↔
      ∃ before event after, events = before ++ event :: after ∧
        gradientAt event after = some g := by
  induction events with
  | nil => simp [gradientsIn]
  | cons event after ih =>
    rw [exists_split_cons, gradientsIn, List.mem_append, Option.mem_toList, ih]

theorem mem_enclosedStops_iff {stop : GradientStop} :
    stop ∈ enclosedStops before events ↔
      ∃ between event after, events = between ++ event :: after ∧
        enclosed (before ++ between) after = true ∧ stop? event = some stop := by
  induction events generalizing before with
  | nil => simp [enclosedStops]
  | cons event after ih =>
    rw [exists_split_cons, enclosedStops, List.mem_append, ih]
    apply or_congr
    · by_cases he : enclosed before after = true
      · simp [he]
      · simp [he]
    · simp only [List.append_assoc, List.singleton_append]

/-- The stops of the gradients of a document are those between the two tags of one. -/
theorem mem_stops_iff {stop : GradientStop} :
    (∃ g ∈ gradientsIn events, stop ∈ g.stops) ↔
      ∃ before event after, events = before ++ event :: after ∧
        enclosed before after = true ∧ stop? event = some stop := by
  have hstops : enclosedStops [] events = (gradientsIn events).flatMap (·.stops) :=
    enclosedStops_eq [] events
  rw [← List.mem_flatMap, ← hstops, mem_enclosedStops_iff]
  simp only [List.nil_append]

/-- A gradient has the coordinates of its tag. -/
theorem coordinates_of_gradientAt {g : LinearGradient} (h : gradientAt event after = some g) :
    ∃ tag, tag? event = some tag ∧ [g.start.x, g.start.y, g.finish.x, g.finish.y] =
      coordinateNames.map (coordinate (readAttributes tag)) := by
  unfold gradientAt at h
  split at h
  · cases event with
    | start tag =>
      refine ⟨tag, rfl, ?_⟩
      dsimp only at h
      split at h
      · cases h
        rfl
      · cases h
    | empty tag =>
      refine ⟨tag, rfl, ?_⟩
      cases h
      rfl
    | finish name => cases h
  · cases h

theorem stop?_eq_some_iff {stop : GradientStop} :
    stop? event = some stop ↔
      ∃ tag, tag? event = some tag ∧ Markup.localName tag.name = "stop" ∧
        stopOf (readAttributes tag) = stop := by
  unfold stop?
  cases tag? event with
  | none => simp
  | some tag => simp

/-- The numbers of the gradients that a rendering registers are finite if no text among theirs is
    unbounded. -/
theorem registered_finite (h : ∀ text, HandsOn options reading text → ¬ Unbounded text) :
    ∀ g ∈ registered reading, ∀ x ∈ (Call.register g).attributeNumbers, isFinite x = true := by
  intro g hg x hx
  rw [registered_eq_collected] at hg
  rcases List.mem_append.mp hx with hx | hx
  · obtain ⟨before, event, after, hsplit, hat⟩ := mem_gradientsIn_iff.mp hg
    obtain ⟨tag, htag, hcoordinates⟩ := coordinates_of_gradientAt hat
    rw [hcoordinates] at hx
    obtain ⟨name, hname, rfl⟩ := List.mem_map.mp hx
    rw [coordinate_finite_iff]
    intro value hvalue
    exact h _ (.coordinate hsplit htag (by rw [hat]; rfl) hname hvalue)
  · obtain ⟨stop, hstop, rfl⟩ := List.mem_map.mp hx
    obtain ⟨before, event, after, hsplit, henclosed, hs⟩ := mem_stops_iff.mp ⟨g, hg, hstop⟩
    obtain ⟨tag, htag, hname, rfl⟩ := stop?_eq_some_iff.mp hs
    rw [stopOf_finite_iff]
    intro value hvalue
    exact h _ (.offset hsplit htag hname henclosed hvalue)

/-! ## Sizes -/

theorem reaches_append {ids : List String} {as bs : List Markup.Event} :
    Reaches options ids before (as ++ bs) ↔
      Reaches options ids before as ∧ Reaches options ids (before ++ as) bs := by
  induction as generalizing before with
  | nil =>
    have hnil : Reaches options ids before [] := rfl
    simp [hnil]
  | cons event as ih =>
    rw [List.cons_append, reaches_cons, reaches_cons, ih, and_assoc, List.append_assoc,
      List.singleton_append]

/-- A side has the default size or a length that an attribute gives. -/
theorem latestLength_cases (side : String) (size : Float) (attrs : Attributes) :
    latestLength side size attrs = size ∨
      ∃ value, (side, value) ∈ attrs ∧ latestLength side size attrs ∈ length? value := by
  unfold latestLength
  cases hlast : ((attrs.filter (·.1 = side)).filterMap fun a => length? a.2).getLast? with
  | none => exact .inl rfl
  | some x =>
    obtain ⟨a, ha, hx⟩ := List.mem_filterMap.mp (List.mem_of_getLast? hlast)
    obtain ⟨hmem, hside⟩ := List.mem_filter.mp ha
    obtain ⟨name, value⟩ := a
    obtain rfl : name = side := by simpa using hside
    exact .inr ⟨value, hmem, hx⟩

/-- The length that an attribute gives for a side is the latest one if no other attribute of the
    tag has its key. -/
theorem latestLength_of_mem {name value : String} {x : Float} (hkeys : (attrs.map Prod.fst).Nodup)
    (hmem : (name, value) ∈ attrs) (hx : length? value = some x) (size : Float) :
    latestLength name size (earlier ++ attrs) = x := by
  obtain ⟨as, bs, rfl⟩ := List.append_of_mem hmem
  have hlater : name ∉ bs.map Prod.fst := by
    rw [List.map_append, List.map_cons] at hkeys
    exact (List.nodup_cons.mp (List.nodup_append.mp hkeys).2.1).1
  have hsplit : earlier ++ (as ++ (name, value) :: bs) =
      earlier ++ as ++ [(name, value)] ++ bs := by
    simp
  rw [hsplit, ← latestLength_append, ← latestLength_append name size, latestLength_singleton,
    if_pos rfl, hx, Option.getD_some]
  rcases latestLength_cases name x bs with h | ⟨other, hother, -⟩
  · exact h
  · exact absurd (List.mem_map_of_mem hother) hlater

theorem nodup_svgAttributesOf (event : Markup.Event) :
    ((svgAttributesOf event).map Prod.fst).Nodup := by
  unfold svgAttributesOf
  split
  · rename_i tag _
    split
    · cases ha : tag.attributes with
      | error e => exact List.nodup_nil
      | ok attrs => exact Markup.Tag.keys_nodup ha
    · exact List.nodup_nil
  · exact List.nodup_nil

/-- The numbers of a call that sets the size are the latest lengths of the two sides. -/
theorem resize_mem_sizeCalls_iff {w h : Float} :
    .resize w h ∈ sizeCalls earlier attrs ↔
      givesSize attrs = true ∧
        [w, h] = sideNames.map fun side => latestLength side defaultSize (earlier ++ attrs) := by
  unfold sizeCalls
  by_cases hg : givesSize attrs = true
  · simp [hg, sideNames]
  · simp [hg]

/-- A side that the second pass sets is finite if no text among those of the sides is
    unbounded. -/
theorem drawn_finite (h : ∀ text, HandsOn options reading text → ¬ Unbounded text) :
    ∀ call ∈ (drawn options reading).calls, ∀ x ∈ call.attributeNumbers, isFinite x = true := by
  intro call hc x hx
  have hdraws := drawn_draws options reading call hc
  cases call with
  | register g => exact hdraws.elim
  | resize width height =>
    unfold drawn at hc
    split at hc
    · cases hc
    · rename_i hfault
      obtain ⟨before, event, after, hsplit, hcall, hreach⟩ := mem_sequence_iff.mp hc
      obtain ⟨-, hsides⟩ := resize_mem_sizeCalls_iff.mp (mem_block_iff_sizeCalls.mp hcall)
      have hx : x ∈ [width, height] := hx
      rw [hsides] at hx
      obtain ⟨side, hside, rfl⟩ := List.mem_map.mp hx
      rcases latestLength_cases side defaultSize _ with hdefault | ⟨value, hvalue, hlength⟩
      · rw [hdefault]
        decide +kernel
      · have hbounded : ¬ Unbounded (lengthText value) := by
          rcases List.mem_append.mp hvalue with hvalue | hvalue
          · -- The length is given by a tag before this one, which the pass gets to as well.
            obtain ⟨svg, hsvg, hgiven⟩ := List.mem_flatMap.mp hvalue
            obtain ⟨as, bs, rfl⟩ := List.append_of_mem hsvg
            rw [List.append_assoc] at hsplit
            exact h _ (.side hfault hsplit (reaches_append.mp hreach).1 hside hgiven)
          · exact h _ (.side hfault hsplit hreach hside hvalue)
        exact (length?_finite_iff value).mpr hbounded _ hlength
  | _ => cases hx

/-- The second pass sets the size at every `svg` tag that gives one and that it gets to. -/
theorem exists_mem_drawn_calls (hfault : firstFault reading = none)
    (hsplit : reading.events = before ++ event :: after)
    (hreach : Reaches options (registeredIds reading) [] before)
    (hgives : givesSize (svgAttributesOf event) = true) :
    ∃ call ∈ (drawn options reading).calls, call.attributeNumbers = sideNames.map fun side =>
      latestLength side defaultSize (svgAttributes before ++ svgAttributesOf event) := by
  refine ⟨.resize _ _, ?_, rfl⟩
  rw [drawn, hfault]
  refine mem_sequence_iff.mpr ⟨before, event, after, hsplit, ?_, hreach⟩
  exact mem_block_iff_sizeCalls.mpr (resize_mem_sizeCalls_iff.mpr ⟨hgives, rfl⟩)

/-! ## Renderings -/

/-- A text whose number is handed on is not unbounded if all numbers that are handed on are
    finite. -/
theorem HandsOn.not_unbounded {text : List Char} (hands : HandsOn options reading text)
    (hregistered : ∀ g ∈ registered reading, ∀ x ∈ (Call.register g).attributeNumbers,
      isFinite x = true)
    (hdrawn : ∀ call ∈ (drawn options reading).calls, ∀ x ∈ call.attributeNumbers,
      isFinite x = true) : ¬ Unbounded text := by
  rw [registered_eq_collected] at hregistered
  cases hands with
  | side hfault hsplit hreach hside hgiven =>
    rename_i before after event name value
    rw [← length?_finite_iff]
    intro x hx
    have hgives : givesSize (svgAttributesOf event) = true := by
      rw [givesSize, List.any_eq_true]
      refine ⟨_, hgiven, ?_⟩
      simpa [sideNames, Option.mem_def.mp hx] using hside
    obtain ⟨call, hcall, hnumbers⟩ := exists_mem_drawn_calls hfault hsplit hreach hgives
    refine hdrawn call hcall x ?_
    rw [hnumbers, List.mem_map]
    exact ⟨name, hside, latestLength_of_mem (nodup_svgAttributesOf event) hgiven hx defaultSize⟩
  | coordinate hsplit htag hat hname hgiven =>
    obtain ⟨g, hg⟩ := Option.isSome_iff_exists.mp hat
    obtain ⟨tag, hsame, hcoordinates⟩ := coordinates_of_gradientAt hg
    obtain rfl := Option.some.inj (htag.symm.trans hsame)
    refine (coordinate_finite_iff _ _).mp ?_ _ hgiven
    apply hregistered g (mem_gradientsIn_iff.mpr ⟨_, _, _, hsplit, hg⟩)
    refine List.mem_append_left _ ?_
    rw [hcoordinates]
    exact List.mem_map_of_mem hname
  | offset hsplit htag hname henclosed hgiven =>
    obtain ⟨g, hg, hstop⟩ := mem_stops_iff.mpr
      ⟨_, _, _, hsplit, henclosed, stop?_eq_some_iff.mpr ⟨_, htag, hname, rfl⟩⟩
    refine (stopOf_finite_iff _).mp ?_ _ hgiven
    exact hregistered g hg _ (List.mem_append_right _ (List.mem_map_of_mem hstop))

theorem renderReading_finite_iff (options : Options) (reading : Markup.Reading) :
    (∀ call ∈ (renderReading options reading).calls, ∀ x ∈ call.attributeNumbers,
        isFinite x = true) ↔
      ∀ text, HandsOn options reading text → ¬ Unbounded text := by
  rw [(renderReading_outcome options reading).1]
  constructor
  · intro h text hands
    refine hands.not_unbounded ?_ ?_
    · intro g hg
      exact h _ (List.mem_append_left _ (List.mem_map_of_mem hg))
    · intro call hc
      exact h call (List.mem_append_right _ hc)
  · intro h call hc
    rcases List.mem_append.mp hc with hc | hc
    · obtain ⟨g, hg, rfl⟩ := List.mem_map.mp hc
      exact registered_finite h g hg
    · exact drawn_finite h call hc

/-- Every number from an attribute that a rendering hands on to any surface is finite exactly if
    no text of these numbers names infinity or the value that is no number, or overflows. The
    texts that are read as a length or an offset, but not as a finite one, are these and no
    others. -/
theorem attribute_numbers_finite_iff (options : Options) (reading : Markup.Reading) :
    ((∀ (σ : Type) (surface : Surface σ) (state : σ),
        ∀ call ∈ callsFor surface options reading state, ∀ x ∈ call.attributeNumbers,
          isFinite x = true) ↔
      ∀ text, HandsOn options reading text → ¬ Unbounded text) ∧
      (∀ value, (∀ x ∈ length? value, isFinite x = true) ↔ ¬ Unbounded (lengthText value)) ∧
      ∀ value, (∀ x ∈ offset? value, isFinite x = true) ↔ ¬ Unbounded (offsetText value) := by
  refine ⟨?_, length?_finite_iff, offset?_finite_iff⟩
  rw [← renderReading_finite_iff]
  constructor
  · intro h call hc
    have accepts : acceptingRecorder.Accepting := fun _ _ => rfl
    have hcalls : callsFor acceptingRecorder options reading #[] =
        (renderReading options reading).calls :=
      callsFor_of_accepting accepts options reading #[]
    exact h _ acceptingRecorder #[] call (hcalls ▸ hc)
  · intro h σ surface state call hc
    rw [callsFor_eq_asked] at hc
    exact h call ((surface.asked_prefix state _).subset hc)

/-- A document with a side, a coordinate and an offset that are no finite numbers. -/
def endlessNumbers : String :=
  "<svg width='nan'><linearGradient id='g' x2='1e400'><stop offset='-inf%'/></linearGradient></svg>"

theorem attribute_numbers_finite_iff_endlessNumbers :
    callsFor acceptingRecorder .strict (Markup.read endlessNumbers) #[] =
      [.register ⟨"g", ⟨0.0, 0.0⟩, ⟨1.0 / 0.0, 0.0⟩, [⟨-1.0 / 0.0, "black"⟩]⟩,
        .resize (0.0 / 0.0) 800.0] ∧
      ¬ ∀ text, HandsOn .strict (Markup.read endlessNumbers) text → ¬ Unbounded text := by
  have hcalls : callsFor acceptingRecorder .strict (Markup.read endlessNumbers) #[] =
      [.register ⟨"g", ⟨0.0, 0.0⟩, ⟨1.0 / 0.0, 0.0⟩, [⟨-1.0 / 0.0, "black"⟩]⟩,
        .resize (0.0 / 0.0) 800.0] := by
    decide +kernel
  refine ⟨hcalls, ?_⟩
  intro hbounded
  have hfinite := (attribute_numbers_finite_iff .strict (Markup.read endlessNumbers)).1.mpr hbounded _
    acceptingRecorder #[] (.resize (0.0 / 0.0) 800.0) (by simp [hcalls]) (0.0 / 0.0)
    List.mem_cons_self
  rw [Number.isFinite_nan] at hfinite
  cases hfinite

end Document

end SvgDraw
