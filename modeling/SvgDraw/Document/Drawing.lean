/-
  SvgDraw.Document.Drawing — the second pass over a document: its size, its paint, its paths.

  An `svg` element sets the size and the fill that follow; a `path` element outside of `defs` is
  drawn with its own fill. All paths share one pen, and each is drawn in a scope of its own, from
  the origin. A path is drawn all or not at all: its data and its fill are settled before the
  first call for it. One that cannot be drawn ends the rendering, or is reported and skipped if
  the options say so. Everything else is passed over.
-/

import SvgDraw.Document.Gradients
import SvgDraw.Path.Resolve

namespace SvgDraw.Document

structure Options where
  /-- Paths that cannot be drawn are skipped. -/
  skipInvalidPaths : Bool
  deriving DecidableEq, Repr

def Options.strict : Options := ⟨false⟩

structure Drawing where
  pen : Pen
  width : Float
  height : Float
  /-- How many `defs` elements are open. -/
  defsDepth : Nat
  /-- How many paths were drawn. -/
  paths : Nat
  /-- How many paths were skipped. -/
  skipped : Nat
  deriving DecidableEq, Repr

def Drawing.initial : Drawing := ⟨.fresh, defaultSize, defaultSize, 0, 0, 0⟩

/-- The paint that the attributes ask for, if any. A gradient has to be one of `ids`. -/
def fillPaint (ids : List String) (attrs : Attributes) : Except Failure (Option Paint) :=
  match attrs.lookup "fill" with
  | none => .ok none
  | some value =>
    match gradientReference? value with
    | none => .ok (some (.color value))
    | some id =>
      if ids.contains id then .ok (some (.gradient id)) else .error (.unknownGradient id)

/-! ## The size and the paint of the document -/

def setSide (name value : String) (set : Float → Drawing) (s : Drawing) (sized : Bool) :
    Walk (Drawing × Bool) :=
  match length? value with
  | some x => .done (set x, true)
  | none => do
    Walk.note (.unsupportedLength name value)
    return (s, sized)

/-- Take in one attribute of an `svg` element; the flag says whether a side was set. -/
def takeSide : Drawing × Bool → String × String → Walk (Drawing × Bool)
  | (s, sized), (name, value) =>
    match name with
    | "width" => setSide name value (fun x => { s with width := x }) s sized
    | "height" => setSide name value (fun x => { s with height := x }) s sized
    | _ => .done (s, sized)

def askFill : Option Paint → Walk Unit
  | some paint => Walk.ask (.setFill paint)
  | none => .done ()

def Drawing.root (ids : List String) (s : Drawing) (attrs : Attributes) : Walk Drawing := do
  let (s, sized) ← attrs.foldlM takeSide (s, false)
  if sized then Walk.ask (.resize s.width s.height)
  askFill (← Walk.ofExcept (fillPaint ids attrs))
  return s

/-! ## Paths -/

def pathData (attrs : Attributes) : String :=
  (attrs.lookup "d").getD ""

/-- What draws the path of an element, or why it cannot be drawn. -/
def resolvePath (ids : List String) (compiled : Except Failure (List Operation))
    (attrs : Attributes) : Except Failure (List Operation × Option Paint) := do
  let operations ← compiled
  let fill ← fillPaint ids attrs
  return (operations, fill)

def drawPath (operations : List Operation) (fill : Option Paint) : Walk Unit := do
  Walk.ask .beginPath
  operations.forM Operation.apply
  askFill fill
  Walk.ask .fill
  Walk.ask .closePath

def Drawing.path (options : Options) (ids : List String) (s : Drawing) (attrs : Attributes) :
    Walk Drawing := do
  let data := pathData attrs
  let scope := s.pen.enter
  let compiled := compilePath data scope
  let s := { s with pen := compiled.2.leave }
  Walk.noteAll (compileJournal data scope)
  match resolvePath ids compiled.1 attrs with
  | .ok (operations, fill) =>
    drawPath operations fill
    return { s with paths := s.paths + 1 }
  | .error failure =>
    if options.skipInvalidPaths then
      Walk.note (.skippingPath failure)
      return { s with skipped := s.skipped + 1 }
    else Walk.fail failure

/-! ## Elements -/

def Drawing.meet (options : Options) (ids : List String) (s : Drawing) (tag : Markup.Tag)
    (whole : Bool) : Walk Drawing :=
  match Markup.localName tag.name with
  | "svg" => do s.root ids (← attributesOf tag)
  | "defs" => .done (if whole then s else { s with defsDepth := s.defsDepth + 1 })
  | "path" =>
    if 0 < s.defsDepth then do
      Walk.note .pathInDefs
      return s
    else do s.path options ids (← attributesOf tag)
  | name => do
    Walk.note (.ignoredElement name)
    return s

def Drawing.visit (options : Options) (ids : List String) (s : Drawing) :
    Markup.Event → Walk Drawing
  | .start tag => s.meet options ids tag false
  | .empty tag => s.meet options ids tag true
  | .finish name =>
    .done (if Markup.localName name = "defs" then { s with defsDepth := s.defsDepth - 1 } else s)

end SvgDraw.Document
