/-
  SvgDraw.Path.Resolve — tokens and path data become operations.

  A token is resolved against the pen: coordinates of a relative command are counted from the
  pen's point, those of an absolute one from the origin. Horizontal and vertical lines keep the
  pen's other coordinate as it is. Every line and curve is stroked at once. Closing draws
  nothing and leaves the pen where it is.

  `resolveTokens` resolves tokens in order. The first token whose count of numbers does not fit its
  command ends it with an error; the pen has then moved as the tokens before it say. Path data is
  read as a whole before any of it is resolved (`compilePath`), so data that cannot be read leaves
  the pen alone.
-/

import SvgDraw.Path.Scan
import SvgDraw.Path.Operation

namespace SvgDraw

def Pen.base (pen : Pen) : Mode → Point
  | .absolute => .origin
  | .relative => pen.point

def Pen.drawLine (pen : Pen) (p : Point) : List Operation × Pen :=
  ([.lineTo p, .stroke], pen.moveTo p)

def Token.resolve (t : Token) (pen : Pen) : Except ArityError (List Operation × Pen) :=
  match t.command, t.arguments with
  | .move m, [x, y] =>
    let p := (pen.base m).shift x y
    .ok ([.moveTo p], pen.moveTo p)
  | .horizontal m, [x] => .ok (pen.drawLine ⟨(pen.base m).x + x, pen.point.y⟩)
  | .vertical m, [y] => .ok (pen.drawLine ⟨pen.point.x, (pen.base m).y + y⟩)
  | .line m, [x, y] => .ok (pen.drawLine ((pen.base m).shift x y))
  | .curve m, [x₁, y₁, x₂, y₂, x, y] =>
    let base := pen.base m
    let p := base.shift x y
    .ok ([.curveTo (base.shift x₁ y₁) (base.shift x₂ y₂) p, .stroke], pen.moveTo p)
  | .close, [] => .ok ([], pen)
  | command, arguments => .error ⟨command, arguments.length⟩

/-- The operations of all tokens, and the pen after them or at the first error. -/
def resolveTokens : List Token → Pen → Except ArityError (List Operation) × Pen
  | [], pen => (.ok [], pen)
  | t :: ts, pen =>
    match t.resolve pen with
    | .error e => (.error e, pen)
    | .ok (operations, moved) =>
      let (rest, last) := resolveTokens ts moved
      (rest.map (operations ++ ·), last)

def compilePath (data : String) (pen : Pen) : Except Failure (List Operation) × Pen :=
  match tokenize data with
  | .error e => (.error (.lex e), pen)
  | .ok tokens =>
    let (result, last) := resolveTokens tokens pen
    (result.mapError .arity, last)

/-! ## What is reported -/

/-- A resolved token is reported with the pen it leaves. -/
def Token.event (t : Token) (after : Pen) : Log.Event :=
  match t.command with
  | .close => .closeIgnored after.point.x after.point.y
  | command => .resolved command after.point.x after.point.y

def resolveEvents : List Token → Pen → List Log.Event
  | [], _ => []
  | t :: ts, pen =>
    match t.resolve pen with
    | .error _ => []
    | .ok (_, moved) => t.event moved :: resolveEvents ts moved

def resolveJournal (tokens : List Token) (pen : Pen) : List Log.Event :=
  resolveEvents tokens pen ++
    match (resolveTokens tokens pen).1 with
    | .ok operations => [.resolvedAll tokens.length operations.length]
    | .error _ => []

def compileJournal (data : String) (pen : Pen) : List Log.Event :=
  tokenizeJournal data ++
    match tokenize data with
    | .error _ => []
    | .ok tokens => resolveJournal tokens pen

end SvgDraw
