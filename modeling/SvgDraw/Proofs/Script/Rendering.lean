/-
  SvgDraw.Proofs.Script.Rendering — documents rendered into scripts.

  A rendering checks itself that the gradients it paints with are registered; a script refuses a
  paint whose gradient it does not know. The two agree, whatever the script held before: once the
  gradients of a document are registered, a script binds each of their ids to the constant of the
  last of them with that id (`Holds`), and what is drawn afterwards leaves the bindings alone. So
  a script refuses no call of a rendering (`Holds.accepts`, `reply_accepts`).

  Operations that are applied to a script one by one emit what they emit together (`runOn_apply`).
  `replay` makes recorded calls on a script, but emits the operations of a path together. It comes
  to making the calls one by one (`replay_eq_after`), so the script that a rendering leaves is the
  replay of the calls that it makes on a surface that accepts everything (`render_eq_replay`).
-/

import SvgDraw.Proofs.Document.Passes
import SvgDraw.Proofs.Document.Refusal
import SvgDraw.Proofs.Script.Gradients

namespace SvgDraw

def Call.operation? : Call → Option Operation
  | .moveTo p => some (.moveTo p)
  | .lineTo p => some (.lineTo p)
  | .curveTo c₁ c₂ p => some (.curveTo c₁ c₂ p)
  | .stroke => some .stroke
  | _ => none

theorem Call.eq_of_operation? {call : Call} {operation : Operation}
    (h : call.operation? = some operation) : call = operation.call := by
  cases call <;> cases h <;> rfl

namespace Script

open Document (Draws Options callsFor registered registeredIds replyTo)

/-! ## Operations emitted together -/

/-- The call for an operation emits its statement and does nothing else. -/
theorem reply_operation (s : Script) (operation : Operation) :
    surface.reply s operation.call =
      ⟨s.emit (s.operationStatement operation), emittedEvents [s.operationStatement operation],
        none⟩ := by
  cases operation with
  | moveTo p => rfl
  | lineTo p => rfl
  | curveTo c₁ c₂ p => rfl
  | stroke => rfl

/-- Operations applied one by one emit what they emit together, and nothing is refused. -/
theorem runOn_apply (s : Script) (operations : List Operation) :
    Walk.runOn surface (operations.forM Operation.apply) s =
      ⟨s.emitOperations operations, emittedEvents (operations.map s.operationStatement), none⟩ := by
  induction operations generalizing s with
  | nil => rfl
  | cons operation operations ih =>
    have hstep : Walk.runOn surface ((operation :: operations).forM Operation.apply) s =
        (Walk.runOn surface (operations.forM Operation.apply)
          (s.emit (s.operationStatement operation))).after
            (emittedEvents [s.operationStatement operation]) := by
      simp only [List.forM, Operation.apply, Walk.ask, Walk.attempt_bind, Walk.runOn,
        reply_operation, Walk.done_bind]
    rw [hstep, ih]
    rfl

theorem after_operations (s : Script) (operations : List Operation) :
    surface.after s (operations.map Operation.call) = s.emitOperations operations := by
  obtain ⟨hstate, hfailure⟩ := (Walk.propagates_apply operations).runOn_outcome surface s
  rw [runOn_apply, (Walk.comes_apply operations).calls_eq] at hstate hfailure
  rw [Surface.asked_of_refusal_eq_none (Option.or_eq_none_iff.mp hfailure.symm).1] at hstate
  exact hstate.symm

/-- Make the calls, with operations that follow each other emitted together; those `pending` come
    first. -/
def replayFrom (s : Script) (pending : List Operation) : List Call → Script
  | [] => s.emitOperations pending
  | call :: calls =>
    match call.operation? with
    | some operation => s.replayFrom (pending ++ [operation]) calls
    | none => (surface.reply (s.emitOperations pending) call).state.replayFrom [] calls

def replay (s : Script) (calls : List Call) : Script :=
  s.replayFrom [] calls

theorem replayFrom_eq_after (s : Script) (pending : List Operation) (calls : List Call) :
    s.replayFrom pending calls = surface.after (s.emitOperations pending) calls := by
  induction calls generalizing s pending with
  | nil => rfl
  | cons call calls ih =>
    rw [replayFrom]
    cases ho : call.operation? with
    | some operation =>
      show s.replayFrom (pending ++ [operation]) calls = _
      rw [ih, Call.eq_of_operation? ho, ← after_operations, ← after_operations, List.map_append,
        Surface.after_append]
      rfl
    | none => exact ih _ []

theorem replay_eq_after (s : Script) (calls : List Call) :
    s.replay calls = surface.after s calls :=
  s.replayFrom_eq_after [] calls

/-! ## The gradients of a document -/

def declaration (receiver name : String) (g : LinearGradient) : Statement :=
  .declare name receiver "createLinearGradient"
    [.number g.start.x, .number g.start.y, .number g.finish.x, .number g.finish.y]

/-- The script `t` has come from `s` by registering the gradients `gs`, and perhaps by drawing. -/
structure Holds (s : Script) (gs : List LinearGradient) (t : Script) : Prop where
  receiver : t.receiver = s.receiver
  definitions : t.definitions = s.definitions + gs.length
  /-- An id of one of the gradients is bound to the last of them that has it. -/
  bound : ∀ id k, LastAt (gs.map (·.id)) id k → t.bindings[id]? = some (s.definitions + k)
  declared : ∀ k g, gs[k]? = some g →
    declaration s.receiver (gradientName (s.definitions + k)) g ∈ t.statements.toList

variable {s t : Script} {gs : List LinearGradient} {call : Call}

theorem holds_nil (s : Script) : Holds s [] s := by
  refine ⟨rfl, rfl, ?_, ?_⟩
  · intro id k h
    simp [LastAt] at h
  · intro k g h
    simp at h

theorem Holds.define (h : Holds s gs t) (g : LinearGradient) :
    Holds s (gs ++ [g]) (t.define g) := by
  rw [define_eq]
  refine ⟨h.receiver, ?_, ?_, ?_⟩
  · simp [h.definitions, Nat.add_assoc]
  · intro id k hk
    rw [List.map_append, List.map_singleton] at hk
    simp only [Std.TreeMap.getElem?_insert, Std.LawfulEqOrd.compare_eq_iff_eq]
    split
    · rename_i heq
      subst heq
      rw [(lastAt_concat_self _ _ k).mp hk, List.length_map, h.definitions]
    · rename_i hne
      exact h.bound id k ((lastAt_concat_of_ne hne k).mp hk)
  · intro k g' hk
    rw [Array.toList_append, List.mem_append]
    rcases Nat.lt_or_ge k gs.length with hlt | hge
    · rw [List.getElem?_append_left hlt] at hk
      exact .inl (h.declared k g' hk)
    · obtain ⟨hlen, -⟩ := List.getElem?_eq_some_iff.mp hk
      have hlast : k = gs.length := by
        simp at hlen
        omega
      subst hlast
      obtain rfl : g = g' := by simpa using hk
      refine .inr ?_
      simp [gradientStatements, declaration, nextName, h.definitions, h.receiver]

theorem defined?_ask (call : Call) :
    (Edit.ask call).effect.defined? = call.gradient?.map (·.id) := by
  cases call <;> rfl

theorem Holds.draw (h : Holds s gs t) (hc : call.gradient? = none) :
    Holds s gs (surface.reply t call).state := by
  have hnone : (Edit.ask call).effect.defined? = none := by
    rw [defined?_ask, hc, Option.map_none]
  obtain ⟨hdefinitions, hbindings⟩ := t.enact_gradients hnone
  rw [reply_eq_enact]
  refine ⟨(enact_receiver _ _).trans h.receiver, hdefinitions.trans h.definitions, ?_, ?_⟩
  · rw [hbindings]
    exact h.bound
  · intro k g hk
    rw [enact_statements]
    exact List.mem_append_left _ (h.declared k g hk)

theorem holds_registered (s : Script) (gs : List LinearGradient) :
    Holds s gs (surface.after s (gs.map .register)) := by
  -- Gradients are registered one after the other, so the induction is from the end of the list.
  induction gs using List.reverseRecOn with
  | nil => exact holds_nil s
  | append_singleton gs g ih =>
    rw [List.map_append, Surface.after_append]
    exact ih.define g

theorem Holds.after (h : Holds s gs t) {calls : List Call}
    (hc : ∀ call ∈ calls, call.gradient? = none) : Holds s gs (surface.after t calls) := by
  induction calls generalizing t with
  | nil => exact h
  | cons call calls ih =>
    rw [List.forall_mem_cons] at hc
    exact ih (h.draw hc.1) hc.2

/-! ## Paints -/

theorem Holds.resolve (h : Holds s gs t) {id : String} {k : Nat}
    (hk : LastAt (gs.map (·.id)) id k) :
    t.resolve id = .ok (gradientName (s.definitions + k)) := by
  simp [Script.resolve, boundName?, h.bound id k hk]

/-- Setting a style to one of the gradients assigns the constant of the last one with its id. -/
theorem Holds.enact_style (h : Holds s gs t) {id : String} {k : Nat}
    (hk : LastAt (gs.map (·.id)) id k) (property : String) :
    (t.enact (.style property (.gradient id))).failure = none ∧
      (t.enact (.style property (.gradient id))).state.statements =
        t.statements.push
          (.assign s.receiver property (.raw (gradientName (s.definitions + k)))) := by
  simp only [enact, paintLiteral, h.resolve hk, Except.map, assign, emit, h.receiver, and_self]

/-- Nothing that is drawn with the gradients is refused. -/
theorem Holds.accepts (h : Holds s gs t) (hc : Draws (gs.map (·.id)) call) :
    (surface.reply t call).failure = none := by
  have hstyle : ∀ property id, id ∈ gs.map (·.id) →
      (t.enact (.style property (.gradient id))).failure = none := by
    intro property id hid
    obtain ⟨k, hk⟩ := (exists_lastAt_iff _ id).mpr hid
    exact (h.enact_style hk property).1
  rw [reply_eq_enact]
  cases call with
  | setFill paint =>
    cases paint with
    | color text => rfl
    | gradient id => exact hstyle "fillStyle" id hc
  | setStroke paint =>
    cases paint with
    | color text => rfl
    | gradient id => exact hstyle "strokeStyle" id hc
  | _ => rfl

/-! ## Renderings -/

section Rendering

variable {options : Options} {reading : Markup.Reading} {earlier later : List Call}

/-- A call of a rendering that registers nothing comes after all registrations. -/
theorem split_calls (hc : call.gradient? = none)
    (h : (registered reading).map .register ++ (Document.drawn options reading).calls =
      earlier ++ call :: later) :
    ∃ drawn, earlier = (registered reading).map .register ++ drawn ∧
      (Document.drawn options reading).calls = drawn ++ call :: later := by
  rcases List.append_eq_append_iff.mp h with ⟨drawn, he, hd⟩ | ⟨rest, he, hd⟩
  · exact ⟨drawn, he, hd⟩
  · cases rest with
    | nil => exact ⟨[], by simpa using he.symm, by simpa using hd.symm⟩
    | cons first rest =>
      cases hd
      have hmem : call ∈ (registered reading).map Call.register := by simp [he]
      obtain ⟨g, -, rfl⟩ := List.mem_map.mp hmem
      cases hc

/-- Where a call of a rendering registers nothing, the script holds the document's gradients, and
    the call draws with them. -/
theorem holds_before (s : Script) (hc : call.gradient? = none)
    (h : (Document.renderReading options reading).calls = earlier ++ call :: later) :
    Holds s (registered reading) (surface.after s earlier) ∧
      Draws (registeredIds reading) call := by
  have hdraws := Document.drawn_draws options reading
  rw [(Document.renderReading_outcome options reading).1] at h
  obtain ⟨drawn, rfl, hd⟩ := split_calls hc h
  rw [hd] at hdraws
  rw [Surface.after_append]
  refine ⟨(holds_registered s _).after ?_, hdraws call (by simp)⟩
  intro c hmem
  exact (hdraws c (by simp [hmem])).gradient?_eq_none

/-- A script refuses no call of a rendering. -/
theorem reply_accepts (s : Script)
    (h : (Document.renderReading options reading).calls = earlier ++ call :: later) :
    (surface.reply (surface.after s earlier) call).failure = none := by
  cases hc : call.gradient? with
  | some g =>
    cases call with
    | register gradient => rfl
    | _ => cases hc
  | none =>
    obtain ⟨hholds, hdraws⟩ := holds_before s hc h
    exact hholds.accepts hdraws

end Rendering

/-- What the recorder that accepts everything notes of a rendering. -/
def recorded (options : Options) (reading : Markup.Reading) : List Call :=
  (replyTo acceptingRecorder options reading #[]).state.toList

theorem recorded_eq (options : Options) (reading : Markup.Reading) :
    recorded options reading = (Document.renderReading options reading).calls := by
  have accepts : acceptingRecorder.Accepting := fun _ _ => rfl
  rw [recorded, (Document.replyTo_outcome acceptingRecorder options reading #[]).1,
    acceptingRecorder, toList_after_recorder]
  exact Document.callsFor_of_accepting accepts options reading #[]

/-- Whatever a script holds, rendering a document into it makes the calls that a surface which
    accepts everything notes, the script refuses none of them, and the rendering fails only if it
    does so there. The script comes out as if the noted calls were made on it with the operations
    of each path emitted together. A fill that names a gradient is assigned the constant of the
    last gradient with that id that the document registers, be it before or after the element that
    is filled; the constant is declared by then. -/
theorem render_eq_replay (options : Options) (reading : Markup.Reading) (s : Script) :
    let reply := replyTo surface options reading s
    let calls := recorded options reading
    let gradients := registered reading
    callsFor surface options reading s = calls ∧
    (∀ earlier call later, calls = earlier ++ call :: later →
      (surface.reply (surface.after s earlier) call).failure = none) ∧
    reply.failure = (replyTo acceptingRecorder options reading #[]).failure ∧
    reply.state = s.replay calls ∧
    (∀ earlier id later, calls = earlier ++ .setFill (.gradient id) :: later →
      ∃ k g, LastAt (gradients.map (·.id)) id k ∧ gradients[k]? = some g ∧
        declaration s.receiver (gradientName (s.definitions + k)) g ∈
          (surface.after s earlier).statements.toList ∧
        (surface.after s (earlier ++ [.setFill (.gradient id)])).statements =
          (surface.after s earlier).statements.push
            (.assign s.receiver "fillStyle" (.raw (gradientName (s.definitions + k))))) := by
  intro reply calls gradients
  have hcalls : calls = (Document.renderReading options reading).calls :=
    recorded_eq options reading
  have haccepts : ∀ earlier call later, calls = earlier ++ call :: later →
      (surface.reply (surface.after s earlier) call).failure = none := by
    intro earlier call later h
    exact reply_accepts s (hcalls.symm.trans h)
  have hrefusal : surface.refusal s calls = none := Surface.refusal_eq_none haccepts
  obtain ⟨hstate, hfailure⟩ : reply.state = _ ∧ reply.failure = _ :=
    Document.replyTo_outcome surface options reading s
  have hmade : callsFor surface options reading s = calls := by
    rw [Document.callsFor_eq_asked, ← hcalls]
    exact Surface.asked_of_refusal_eq_none hrefusal
  refine ⟨hmade, haccepts, ?_, ?_, ?_⟩
  · have accepts : acceptingRecorder.Accepting := fun _ _ => rfl
    rw [hfailure, ← hcalls, hrefusal, Document.failure_of_accepting accepts]
    rfl
  · rw [hstate, hmade, replay_eq_after]
  · intro earlier id later h
    obtain ⟨hholds, hmem⟩ := holds_before s rfl (hcalls.symm.trans h)
    obtain ⟨k, hk⟩ := (exists_lastAt_iff _ id).mpr hmem
    obtain ⟨g, hg, -⟩ : ∃ g, gradients[k]? = some g ∧ g.id = id := by
      simpa [registeredIds] using hk.1
    refine ⟨k, g, hk, hg, hholds.declared k g hg, ?_⟩
    rw [Surface.after_append, Surface.after_cons, Surface.after_nil, reply_eq_enact]
    exact (hholds.enact_style hk "fillStyle").2

/-- A document with a path between two gradients that have the id it is filled with. -/
def gradientTwice : String :=
  "<svg><linearGradient id='a'/><path d='z' fill='url(#a)'/><linearGradient id='a'/></svg>"

theorem render_eq_replay_gradientTwice :
    ∃ earlier later,
      recorded .strict (Markup.read gradientTwice) = earlier ++ .setFill (.gradient "a") :: later ∧
        (surface.after (empty "cx") (earlier ++ [.setFill (.gradient "a")])).statements =
          (surface.after (empty "cx") earlier).statements.push
            (.assign "cx" "fillStyle" (.raw (gradientName 1))) := by
  have hfill : (recorded .strict (Markup.read gradientTwice))[3]? = some (.setFill (.gradient "a")) := by
    decide +kernel
  have hids : registeredIds (Markup.read gradientTwice) = ["a", "a"] := by
    decide +kernel
  obtain ⟨hlt, hget⟩ := List.getElem?_eq_some_iff.mp hfill
  have hcalls : recorded .strict (Markup.read gradientTwice) =
      (recorded .strict (Markup.read gradientTwice)).take 3 ++ .setFill (.gradient "a") ::
        (recorded .strict (Markup.read gradientTwice)).drop 4 := by
    rw [← hget, ← List.drop_eq_getElem_cons hlt, List.take_append_drop]
  obtain ⟨-, -, -, -, hpaints⟩ := render_eq_replay .strict (Markup.read gradientTwice) (empty "cx")
  obtain ⟨k, g, hk, -, -, hpushed⟩ := hpaints _ "a" _ hcalls
  have hlast : k = 1 := by
    refine hk.unique ?_
    show LastAt (registeredIds (Markup.read gradientTwice)) "a" 1
    rw [hids]
    exact (lastAt_concat_self ["a"] "a" 1).mpr rfl
  subst hlast
  exact ⟨_, _, hcalls, hpushed⟩

end Script

end SvgDraw
