/-
  SvgDraw.Proofs.Script.Gradients — which constant a gradient id stands for during a run.

  `Kept` ties the bindings, the counter and the statements of a script to the ids that were
  defined, in order: an id is bound to the number of its last definition, and the constant of
  every definition is declared by a statement. Every edit keeps it (`Kept.step`), so it holds
  after every run from an empty script (`run_kept`), and what resolving, painting and defining
  come to is read off it (`run_gradients`).
-/

import Mathlib.Data.List.Induction
import SvgDraw.Proofs.Script.Run

namespace SvgDraw.Script

/-! ## Constants -/

/-- No two definitions share a constant. -/
theorem gradientName_injective : Function.Injective gradientName := by
  intro m n h
  have hdigits : Nat.toDigits 10 m = Nat.toDigits 10 n := by
    have htext := congrArg String.toList h
    simpa [gradientName, Nat.toString_eq_ofList_toDigits] using htext
  calc
    m = Nat.ofDigitChars 10 (Nat.toDigits 10 m) 0 := Nat.ofDigitChars_ten_toDigits.symm
    _ = Nat.ofDigitChars 10 (Nat.toDigits 10 n) 0 := by rw [hdigits]
    _ = n := Nat.ofDigitChars_ten_toDigits

/-! ## The last occurrence in a list -/

/-- `id` stands at index `k` and nowhere after it. -/
def LastAt (ids : List String) (id : String) (k : Nat) : Prop :=
  ids[k]? = some id ∧ ∀ j, k < j → ids[j]? ≠ some id

theorem LastAt.lt {ids : List String} {id : String} {k : Nat} (h : LastAt ids id k) :
    k < ids.length := by
  obtain ⟨hk, -⟩ := List.getElem?_eq_some_iff.mp h.1
  exact hk

theorem LastAt.unique {ids : List String} {id : String} {k l : Nat} (hk : LastAt ids id k)
    (hl : LastAt ids id l) : k = l := by
  rcases Nat.lt_trichotomy k l with h | h | h
  · exact absurd hl.1 (hk.2 l h)
  · exact h
  · exact absurd hk.1 (hl.2 k h)

theorem lastAt_concat_self (ids : List String) (id : String) (k : Nat) :
    LastAt (ids ++ [id]) id k ↔ k = ids.length := by
  have hend : LastAt (ids ++ [id]) id ids.length := by
    refine ⟨by simp, ?_⟩
    intro j hj
    rw [List.getElem?_eq_none (by simp; omega)]
    simp
  constructor
  · intro h
    exact h.unique hend
  · rintro rfl
    exact hend

theorem lastAt_concat_of_ne {ids : List String} {id last : String} (h : last ≠ id) (k : Nat) :
    LastAt (ids ++ [last]) id k ↔ LastAt ids id k := by
  have hget : ∀ j : Nat, (ids ++ [last])[j]? = some id ↔ ids[j]? = some id := by
    intro j
    rcases Nat.lt_trichotomy j ids.length with hj | rfl | hj
    · rw [List.getElem?_append_left hj]
    · simp [h]
    · rw [List.getElem?_eq_none (by simp; omega), List.getElem?_eq_none (by omega)]
  simp only [LastAt, ne_eq, hget]

/-- Only what is in the list has a last occurrence, and it has one. -/
theorem exists_lastAt_iff (ids : List String) (id : String) :
    (∃ k, LastAt ids id k) ↔ id ∈ ids := by
  induction ids using List.reverseRecOn with
  | nil => simp [LastAt]
  | append_singleton ids last ih =>
    by_cases h : last = id
    · subst h
      simp [lastAt_concat_self]
    · simp only [lastAt_concat_of_ne h, ih, List.mem_append, List.mem_singleton]
      exact ⟨Or.inl, fun hm => hm.resolve_right (Ne.symm h)⟩

def lastIndex? (ids : List String) (id : String) : Option Nat :=
  ids.zipIdx.foldl (fun found entry => if entry.1 = id then some entry.2 else found) none

theorem lastIndex?_concat (ids : List String) (last id : String) :
    lastIndex? (ids ++ [last]) id = if last = id then some ids.length else lastIndex? ids id := by
  simp [lastIndex?, List.zipIdx_append]

theorem lastIndex?_eq_some_iff (ids : List String) (id : String) (k : Nat) :
    lastIndex? ids id = some k ↔ LastAt ids id k := by
  induction ids using List.reverseRecOn with
  | nil => simp [lastIndex?, LastAt]
  | append_singleton ids last ih =>
    rw [lastIndex?_concat]
    by_cases h : last = id
    · subst h
      rw [if_pos rfl, lastAt_concat_self, Option.some.injEq]
      exact eq_comm
    · rw [if_neg h, lastAt_concat_of_ne h, ih]

/-! ## What a run keeps -/

def Effect.defined? : Effect → Option String
  | .define gradient => some gradient.id
  | _ => none

/-- The ids defined by a list of edits, one for each definition. -/
def definedIds (edits : List Edit) : List String :=
  edits.filterMap fun e => e.effect.defined?

theorem definedIds_append (edits later : List Edit) :
    definedIds (edits ++ later) = definedIds edits ++ definedIds later :=
  List.filterMap_append

theorem definedIds_singleton (e : Edit) : definedIds [e] = e.effect.defined?.toList := by
  rw [definedIds, List.filterMap_cons]
  cases e.effect.defined? with
  | none => rfl
  | some id => rfl

/-- The script is that of a run in which `ids` were defined. -/
structure Kept (receiver : String) (ids : List String) (s : Script) : Prop where
  receiver : s.receiver = receiver
  definitions : s.definitions = ids.length
  /-- An id is bound to its last definition. -/
  bound : ∀ id k, s.bindings[id]? = some k ↔ LastAt ids id k
  /-- The constant of every definition is declared. -/
  declared : ∀ k < ids.length, ∃ st ∈ s.statements, st.declared? = some (gradientName k)

variable {receiver : String} {ids : List String} {s : Script}

theorem kept_empty (receiver : String) : Kept receiver [] (.empty receiver) := by
  refine ⟨rfl, rfl, ?_, ?_⟩
  · intro id k
    simp [empty, LastAt]
  · intro k hk
    cases hk

theorem exists_declared_gradientStatements (s : Script) (g : LinearGradient) :
    ∃ st ∈ s.gradientStatements g, st.declared? = some s.nextName :=
  ⟨_, List.mem_cons_self, rfl⟩

theorem Kept.step_define (h : Kept receiver ids s) (g : LinearGradient) :
    Kept receiver (ids ++ [g.id]) (s.define g) := by
  rw [define_eq]
  -- The new id goes to the number after all earlier ones, and takes no other id with it.
  refine ⟨h.receiver, by simp [h.definitions], ?_, ?_⟩
  · intro id k
    simp only [Std.TreeMap.getElem?_insert, Std.LawfulEqOrd.compare_eq_iff_eq]
    split
    · rename_i heq
      subst heq
      rw [lastAt_concat_self, Option.some.injEq, h.definitions]
      exact eq_comm
    · rename_i hne
      rw [lastAt_concat_of_ne hne, h.bound]
  · intro k hk
    have hcases : k < ids.length ∨ k = s.definitions := by
      rw [h.definitions]
      simp at hk
      omega
    rcases hcases with hlt | rfl
    · obtain ⟨st, hst, hname⟩ := h.declared k hlt
      exact ⟨st, by simp [hst], hname⟩
    · obtain ⟨st, hst, hname⟩ := s.exists_declared_gradientStatements g
      exact ⟨st, by simp [hst], hname⟩

/-- What leaves the gradients alone keeps the invariant. -/
theorem Kept.of_appended {t : Script} (h : Kept receiver ids s) (hr : t.receiver = s.receiver)
    (hd : t.definitions = s.definitions) (hb : t.bindings = s.bindings)
    (hst : s.statements.toList <+: t.statements.toList) : Kept receiver ids t := by
  refine ⟨hr.trans h.receiver, hd.trans h.definitions, ?_, ?_⟩
  · rw [hb]
    exact h.bound
  · intro k hk
    obtain ⟨st, hmem, hname⟩ := h.declared k hk
    exact ⟨st, by simpa using hst.subset (by simpa using hmem), hname⟩

/-- What defines nothing leaves the gradients alone. -/
theorem enact_gradients (s : Script) {effect : Effect} (h : effect.defined? = none) :
    (s.enact effect).state.definitions = s.definitions ∧
      (s.enact effect).state.bindings = s.bindings := by
  cases effect with
  | define gradient => cases h
  | invoke method numbers => exact ⟨rfl, rfl⟩
  | resize width height => exact ⟨rfl, rfl⟩
  | style property paint =>
    simp only [enact]
    cases s.paintLiteral paint with
    | error failure => exact ⟨rfl, rfl⟩
    | ok value => exact ⟨rfl, rfl⟩

theorem Kept.step (h : Kept receiver ids s) (effect : Effect) :
    Kept receiver (ids ++ effect.defined?.toList) (s.enact effect).state := by
  cases hd : effect.defined? with
  | some id =>
    cases effect with
    | define gradient =>
      cases hd
      exact h.step_define gradient
    | _ => cases hd
  | none =>
    obtain ⟨hdefinitions, hbindings⟩ := s.enact_gradients hd
    rw [Option.toList_none, List.append_nil]
    refine h.of_appended (s.enact_receiver effect) hdefinitions hbindings ?_
    rw [enact_statements]
    exact List.prefix_append _ _

theorem run_kept (receiver : String) (edits : List Edit) :
    Kept receiver (definedIds edits) ((empty receiver).run edits) := by
  induction edits using List.reverseRecOn with
  | nil => exact kept_empty receiver
  | append_singleton edits e ih =>
    rw [run_concat, definedIds_append, definedIds_singleton, edit_eq_enact]
    exact ih.step e.effect

/-! ## Resolving ids -/

section Resolve

variable (h : Kept receiver ids s)
include h

theorem Kept.unbound_iff (id : String) : s.bindings[id]? = none ↔ id ∉ ids := by
  rw [← exists_lastAt_iff, Option.eq_none_iff_forall_ne_some]
  simp only [ne_eq, h.bound, not_exists]

theorem Kept.resolve_eq_ok_iff (id name : String) :
    s.resolve id = .ok name ↔ ∃ k, LastAt ids id k ∧ name = gradientName k := by
  simp only [← h.bound, resolve, boundName?]
  cases s.bindings[id]? with
  | none => simp
  | some k => simp [eq_comm]

theorem Kept.resolve_eq_error_iff (id : String) (failure : Failure) :
    s.resolve id = .error failure ↔ id ∉ ids ∧ failure = .unknownGradient id := by
  simp only [← h.unbound_iff, resolve, boundName?]
  cases s.bindings[id]? with
  | none => simp [eq_comm]
  | some k => simp

/-- Only a gradient paint whose id was never defined is refused. -/
theorem Kept.failure_iff (e : Edit) (failure : Failure) :
    (s.edit e).failure = some failure ↔
      ∃ property id, e.effect = .style property (.gradient id) ∧ id ∉ ids ∧
        failure = .unknownGradient id := by
  rw [edit_eq_enact]
  cases e.effect with
  | define gradient => simp [enact]
  | invoke method numbers => simp [enact]
  | resize width height => simp [enact]
  | style property paint =>
    cases paint with
    | color text => simp [enact, paintLiteral]
    | gradient id =>
      have hr := h.resolve_eq_error_iff id failure
      simp only [enact, paintLiteral]
      cases hres : s.resolve id with
      | error f =>
        rw [hres] at hr
        simpa [Except.map] using hr
      | ok name =>
        rw [hres] at hr
        simpa [Except.map] using hr

/-- A gradient paint that is not refused assigns a constant that is declared already. -/
theorem Kept.styled {e : Edit} {property id : String}
    (he : e.effect = .style property (.gradient id)) (hf : (s.edit e).failure = none) :
    ∃ name, (s.edit e).state.statements =
        s.statements.push (.assign receiver property (.raw name)) ∧
      ∃ st ∈ s.statements, st.declared? = some name := by
  rw [edit_eq_enact, he] at hf ⊢
  simp only [enact, paintLiteral] at hf ⊢
  cases hres : s.resolve id with
  | error failure => simp [hres, Except.map] at hf
  | ok name =>
    obtain ⟨k, hk, rfl⟩ := (h.resolve_eq_ok_iff id name).mp hres
    refine ⟨gradientName k, ?_, h.declared k hk.lt⟩
    simp only [Except.map, assign, emit, h.receiver]

end Resolve

theorem edit_state_of_failure {e : Edit} (hf : (s.edit e).failure ≠ none) :
    (s.edit e).state = s := by
  rw [edit_eq_enact] at hf ⊢
  cases he : e.effect with
  | define gradient => exact absurd rfl (he ▸ hf)
  | invoke method numbers => exact absurd rfl (he ▸ hf)
  | resize width height => exact absurd rfl (he ▸ hf)
  | style property paint =>
    rw [he] at hf
    simp only [enact] at hf ⊢
    cases hp : s.paintLiteral paint with
    | error failure => rfl
    | ok value => simp [hp] at hf

/-! ## Warnings -/

def redefinitions (events : List Log.Event) : List Log.Event :=
  events.filter fun event => event.level = .warn ∧ event.message = "gradient id redefined"

@[simp] theorem redefinitions_emittedEvents (statements : List Statement) :
    redefinitions (emittedEvents statements) = [] := by
  simp [redefinitions, emittedEvents, Log.Event.level]

theorem redefinitions_defineJournal (s : Script) (g : LinearGradient) :
    redefinitions (s.defineJournal g) =
      match s.bindings[g.id]? with
      | some k => [.gradientRedefined g.id (gradientName k) s.nextName]
      | none => [] := by
  have happ : ∀ as bs : List Log.Event,
      redefinitions (as ++ bs) = redefinitions as ++ redefinitions bs := by
    intro as bs
    exact List.filter_append ..
  have hdef : ∀ name stops, redefinitions [.gradientDefined g.id name stops] = [] := by
    intro name stops
    rfl
  simp only [defineJournal, happ, hdef, redefinitions_emittedEvents, boundName?]
  cases s.bindings[g.id]? with
  | none => rfl
  | some k => rfl

section Warnings

variable (h : Kept receiver ids s)
include h

theorem Kept.warns_of_lastAt {e : Edit} {g : LinearGradient} {k : Nat}
    (he : e.effect = .define g) (hk : LastAt ids g.id k) :
    redefinitions (s.edit e).events =
      [.gradientRedefined g.id (gradientName k) (gradientName ids.length)] := by
  rw [edit_eq_enact, he]
  show redefinitions (s.defineJournal g) = _
  rw [redefinitions_defineJournal, (h.bound g.id k).mpr hk, nextName, h.definitions]

theorem Kept.warns_not {e : Edit} (he : ∀ g, e.effect = .define g → g.id ∉ ids) :
    redefinitions (s.edit e).events = [] := by
  rw [edit_eq_enact]
  cases heff : e.effect with
  | define g =>
    show redefinitions (s.defineJournal g) = _
    rw [redefinitions_defineJournal, (h.unbound_iff g.id).mpr (he g heff)]
  | invoke method numbers => exact redefinitions_emittedEvents _
  | resize width height => rfl
  | style property paint =>
    simp only [enact]
    cases s.paintLiteral paint with
    | error failure => rfl
    | ok value => exact redefinitions_emittedEvents _

end Warnings

/-! ## Every run -/

/-- What gradient ids mean after any run, where `ids` are those it defined, in order. An id stands
    for the constant of its last definition, and for none if it was never defined. Only a paint
    with an id of the second kind is refused, and changes nothing. One with an id of the first
    kind is assigned a constant that an earlier statement declares, and statements stay for good.
    A definition is warned of exactly if its id was defined before. -/
theorem run_gradients (receiver : String) (edits : List Edit) :
    let s := (empty receiver).run edits
    let ids := definedIds edits
    (∀ id name, s.resolve id = .ok name ↔ ∃ k, LastAt ids id k ∧ name = gradientName k) ∧
    (∀ id failure, s.resolve id = .error failure ↔ id ∉ ids ∧ failure = .unknownGradient id) ∧
    (∀ e failure, (s.edit e).failure = some failure ↔
      ∃ property id, e.effect = .style property (.gradient id) ∧ id ∉ ids ∧
        failure = .unknownGradient id) ∧
    (∀ e, (s.edit e).failure ≠ none → (s.edit e).state = s) ∧
    (∀ e property id, e.effect = .style property (.gradient id) → (s.edit e).failure = none →
      ∃ name, (s.edit e).state.statements =
          s.statements.push (.assign receiver property (.raw name)) ∧
        ∃ st ∈ s.statements, st.declared? = some name) ∧
    (∀ later, s.statements.toList <+: (s.run later).statements.toList) ∧
    (∀ e g k, e.effect = .define g → LastAt ids g.id k →
      redefinitions (s.edit e).events =
        [.gradientRedefined g.id (gradientName k) (gradientName ids.length)]) ∧
    (∀ e, (∀ g, e.effect = .define g → g.id ∉ ids) → redefinitions (s.edit e).events = []) := by
  intro s ids
  have h : Kept receiver ids s := run_kept receiver edits
  refine ⟨h.resolve_eq_ok_iff, h.resolve_eq_error_iff, h.failure_iff, ?_, ?_, s.run_statements,
    ?_, ?_⟩
  · intro e hf
    exact edit_state_of_failure hf
  · intro e property id he hf
    exact h.styled he hf
  · intro e g k he hk
    exact h.warns_of_lastAt he hk
  · intro e he
    exact h.warns_not he

end SvgDraw.Script
