/-
  SvgDraw.Canvas.Walk — activities that ask a surface for what they do.

  A walk reports events and makes calls, one after the other, until it comes to a value or fails.
  It learns the reply to each call where it makes it, and what follows a refusal is up to the walk:
  it may go on, make other calls, or fail with a failure of its own. `ask` makes a call and fails
  as the surface refuses it; nothing but the walks themselves sees to it that this is what happens
  to a refusal. `runOn` carries a walk out on a surface.
-/

import SvgDraw.Canvas.Surface

namespace SvgDraw

inductive Walk (α : Type) where
  | done (a : α)
  | fail (failure : Failure)
  | report (event : Log.Event) (next : Walk α)
  /-- Make a call, and go on according to why it is refused, if it is. -/
  | attempt (call : Call) (next : Option Failure → Walk α)

namespace Walk

variable {α β σ : Type}

def andThen : Walk α → (α → Walk β) → Walk β
  | .done a, f => f a
  | .fail failure, _ => .fail failure
  | .report event next, f => .report event (next.andThen f)
  | .attempt call next, f => .attempt call fun refusal => (next refusal).andThen f

instance : Monad Walk where
  pure := done
  bind := andThen

def note (event : Log.Event) : Walk Unit := .report event (.done ())

def noteAll : List Log.Event → Walk Unit
  | [] => .done ()
  | event :: events => .report event (noteAll events)

/-- Make a call. A refusal is the failure of the walk. -/
def ask (call : Call) : Walk Unit :=
  .attempt call fun
    | some failure => .fail failure
    | none => .done ()

def ofExcept : Except Failure α → Walk α
  | .ok a => .done a
  | .error failure => .fail failure

def runOn (surface : Surface σ) : Walk α → σ → Reply σ
  | .done _, state => ⟨state, [], none⟩
  | .fail failure, state => ⟨state, [], some failure⟩
  | .report event next, state => (next.runOn surface state).after [event]
  | .attempt call next, state =>
    let r := surface.reply state call
    ((next r.failure).runOn surface r.state).after r.events

end Walk

def Operation.apply (operation : Operation) : Walk Unit :=
  Walk.ask operation.call

end SvgDraw
