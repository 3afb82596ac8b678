/-
  SvgDraw.Proofs.Markup.Nesting — the elements of a document nest.

  The elements that are open after some events are a stack (`opened?`): a start tag puts its name
  on top, a whole element changes nothing, and an end tag takes the top away if that has its name.
  Events are `Matched` if every end tag does. What a document is read into always is
  (`read_matched`): the reader keeps the same stack, and where an end tag does not match, the
  reading stops before it.
-/

import SvgDraw.Markup.Reading

namespace SvgDraw.Markup

/-- The names of the elements open after one more event, the innermost first, unless the event
    ends another element than the innermost one. -/
def openAfter? (opened : List (List Char)) : Event → Option (List (List Char))
  | .start tag => some (tag.name :: opened)
  | .empty _ => some opened
  | .finish name =>
    match opened with
    | [] => none
    | innermost :: others => if innermost = name then some others else none

def opened? (events : List Event) : Option (List (List Char)) :=
  events.foldlM openAfter? []

/-- Every end tag has the name of the innermost element that is open before it. -/
def Matched (events : List Event) : Prop :=
  (opened? events).isSome

instance (events : List Event) : Decidable (Matched events) :=
  inferInstanceAs (Decidable ((opened? events).isSome = true))

variable {before after : List Event} {opened : List (List Char)}

theorem opened?_snoc (before : List Event) (event : Event) :
    opened? (before ++ [event]) = (opened? before).bind (openAfter? · event) := by
  simp only [opened?, List.foldlM_append, List.foldlM_cons, List.foldlM_nil, bind_pure]
  rfl

theorem Matched.of_append (h : Matched (before ++ after)) : Matched before := by
  unfold Matched opened? at h ⊢
  rw [List.foldlM_append] at h
  cases hb : before.foldlM openAfter? [] with
  | none => simp [hb] at h
  | some opened => rfl

theorem Matched.exists_opened (h : Matched before) : ∃ opened, opened? before = some opened :=
  Option.isSome_iff_exists.mp h

/-- Where an end tag matches, the element that it ends is the innermost one. -/
theorem Matched.innermost {name : List Char} (h : Matched (before ++ .finish name :: after)) :
    ∃ outer, opened? before = some (name :: outer) := by
  rw [List.append_cons] at h
  obtain ⟨inside, hi⟩ := h.of_append.exists_opened
  rw [opened?_snoc] at hi
  obtain ⟨opened, ho, hf⟩ := Option.bind_eq_some_iff.mp hi
  cases opened with
  | nil => cases hf
  | cons innermost others =>
    simp only [openAfter?] at hf
    split at hf
    · rename_i hn
      exact ⟨others, hn ▸ ho⟩
    · cases hf

/-! ## The reader -/

theorem openAfter?_openElement (opened : List (List Char)) (content : List Char) :
    openAfter? opened (openElement opened content).1 = some (openElement opened content).2 := by
  unfold openElement
  cases beforeTail? ['/'] content with
  | none => rfl
  | some inner => rfl

theorem openAfter?_of_closeElement {outside : List (List Char)} {name : List Char}
    (h : closeElement opened name = .ok outside) :
    openAfter? opened (.finish name) = some outside := by
  cases opened with
  | nil => cases h
  | cons innermost others =>
    simp only [closeElement] at h
    simp only [openAfter?]
    split at h
    · rename_i hn
      cases h
      rw [if_pos hn]
    · cases h

/-- A reading that goes on after an event goes on with the elements open then. -/
theorem matched_cons {event : Event} {inside : List (List Char)} {r : Reading}
    (hevent : openAfter? opened event = some inside)
    (hrest : (r.events.foldlM openAfter? inside).isSome) :
    ((r.cons event).events.foldlM openAfter? opened).isSome := by
  simp only [Reading.cons, List.foldlM_cons, hevent]
  exact hrest

theorem readFrom_matched (opened : List (List Char)) (cs : List Char) :
    ((readFrom opened cs).events.foldlM openAfter? opened).isSome := by
  -- The stack of the reader is the stack of the events, so each case carries it along.
  fun_induction readFrom opened cs with
  | case1 => rfl
  | case2 => rfl
  | case3 opened rest after h h' hlt ih => exact ih
  | case4 opened rest after content h event inside htag h' hlt ih =>
    have hevent := openAfter?_openElement opened content
    rw [htag] at hevent
    exact matched_cons hevent ih
  | case5 => rfl
  | case6 opened rest after content h name outside hclose h' hlt ih =>
    exact matched_cons (openAfter?_of_closeElement hclose) ih
  | case7 opened rest after h hne hlt ih => exact ih
  | case8 => rfl
  | case9 opened c rest hlt hamp ih => exact ih

/-- A document is read into events that match, whether or not the reading gets to its end. -/
theorem read_matched (source : String) : Matched (read source).events := by
  unfold read
  cases source.toList with
  | nil => rfl
  | cons c rest => exact readFrom_matched [] _

end SvgDraw.Markup
