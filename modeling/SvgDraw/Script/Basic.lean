/-
  SvgDraw.Script.Basic — scripts that draw.

  A script collects statements on a drawing context, its receiver. Gradients become constants
  numbered in order of definition; an id is bound to the constant of its last definition.
  The program wraps the statements: it creates a canvas of the script's size, names the context
  after the receiver, and returns the picture as a data URL.
-/

import SvgDraw.Canvas.Surface
import SvgDraw.Script.Statement
import Std.Data.TreeMap

namespace SvgDraw

structure Script where
  /-- The name of the drawing context. -/
  receiver : String
  statements : Array Statement
  /-- Each gradient id with the number of its last definition. -/
  bindings : Std.TreeMap String Nat
  /-- How many gradients were defined. -/
  definitions : Nat
  width : Float
  height : Float

namespace Script

def defaultReceiver : String := "ctx"

def empty (receiver : String) : Script :=
  ⟨receiver, #[], ∅, 0, defaultSize, defaultSize⟩

def setSize (s : Script) (width height : Float) : Script :=
  { s with width := width, height := height }

/-! ## Statements -/

def emit (s : Script) (statement : Statement) : Script :=
  { s with statements := s.statements.push statement }

def emitAll (s : Script) (statements : List Statement) : Script :=
  statements.foldl emit s

def operationStatement (s : Script) (operation : Operation) : Statement :=
  .call s.receiver operation.name (operation.arguments.map .number)

def call (s : Script) (method : String) (arguments : List Literal) : Script :=
  s.emit (.call s.receiver method arguments)

def assign (s : Script) (property : String) (value : Literal) : Script :=
  s.emit (.assign s.receiver property value)

def emitOperations (s : Script) (operations : List Operation) : Script :=
  s.emitAll (operations.map s.operationStatement)

def since (before after : Script) : List Statement :=
  (after.statements.extract before.statements.size after.statements.size).toList

/-! ## Gradients -/

/-- The constant that holds the gradient defined as number `n`. -/
def gradientName (n : Nat) : String :=
  "gradient" ++ toString n

def nextName (s : Script) : String :=
  gradientName s.definitions

def gradientStatements (s : Script) (g : LinearGradient) : List Statement :=
  .declare s.nextName s.receiver "createLinearGradient"
      [.number g.start.x, .number g.start.y, .number g.finish.x, .number g.finish.y] ::
    g.stops.map fun stop =>
      .call s.nextName "addColorStop" [.number stop.offset, .text stop.color]

def bindNext (s : Script) (id : String) : Script :=
  { s with bindings := s.bindings.insert id s.definitions, definitions := s.definitions + 1 }

def define (s : Script) (g : LinearGradient) : Script :=
  (s.emitAll (s.gradientStatements g)).bindNext g.id

def boundName? (s : Script) (id : String) : Option String :=
  (s.bindings[id]?).map gradientName

def resolve (s : Script) (id : String) : Except Failure String :=
  match s.boundName? id with
  | some name => .ok name
  | none => .error (.unknownGradient id)

def paintLiteral (s : Script) : Paint → Except Failure Literal
  | .color text => .ok (.text text)
  | .gradient id => (s.resolve id).map .raw

/-! ## The program -/

def sideLine (side : String) (length : Float) : Line :=
  .plain ("canvas.setAttribute(\"" ++ side ++ "\", " ++ Number.scriptText length ++ ");")

def canvasLines : List Line :=
  [.plain "(function () \x7b",
   .plain "",
   .plain "// Initialize canvas",
   .constant "id" "crypto.randomUUID()",
   .constant "canvas" "document.createElement(\"canvas\")",
   .plain "canvas.setAttribute(\"id\", id);"]

def headLines (s : Script) : List Line :=
  canvasLines ++
    [sideLine "width" s.width,
     sideLine "height" s.height,
     .constant s.receiver "canvas.getContext(\"2d\")",
     .plain "",
     .plain "// Begin generation"]

def tailLines : List Line :=
  [.plain "return canvas.toDataURL();",
   .plain "",
   .plain "\x7d)()"]

def prologue (s : Script) : String :=
  String.join (s.headLines.map (·.source ++ "\n"))

/-- What follows the statements; the last line has no end. -/
def epilogue : String :=
  "\n".intercalate (tailLines.map Line.source)

def program (s : Script) : String :=
  s.prologue ++ String.join (s.statements.toList.map Statement.source) ++ epilogue

/-! ## What is reported -/

def emittedEvents (statements : List Statement) : List Log.Event :=
  statements.map fun statement => .emitted statement.source

/-- The report of a definition: its statements, the constant it takes an id from if it was bound
before, and the constant it binds the id to. -/
def defineJournal (s : Script) (g : LinearGradient) : List Log.Event :=
  emittedEvents (s.gradientStatements g) ++
    (match s.boundName? g.id with
    | some previous => [.gradientRedefined g.id previous s.nextName]
    | none => []) ++
    [.gradientDefined g.id s.nextName g.stops.length]

def programJournal (s : Script) : List Log.Event :=
  [.serialized s.statements.size s.program.utf8ByteSize]

end Script

end SvgDraw
