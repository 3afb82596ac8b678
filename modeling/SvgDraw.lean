import SvgDraw.Text.Basic
import SvgDraw.Number.Binary
import SvgDraw.Number.Decimal
import SvgDraw.Number.Shortest
import SvgDraw.Number.Style
import SvgDraw.Path.Command
import SvgDraw.Failure
import SvgDraw.Log
import SvgDraw.Path.Scan
import SvgDraw.Path.Pen
import SvgDraw.Path.Operation
import SvgDraw.Path.Resolve
import SvgDraw.Canvas.Surface
import SvgDraw.Canvas.Walk
import SvgDraw.Script.Literal
import SvgDraw.Script.Statement
import SvgDraw.Script.Basic
import SvgDraw.Script.Surface
import SvgDraw.Raster.Color
import SvgDraw.Raster.Pixel
import SvgDraw.Raster.Styles
import SvgDraw.Markup.Reference
import SvgDraw.Markup.Attribute
import SvgDraw.Markup.Reading
import SvgDraw.Document.Value
import SvgDraw.Document.Gradients
import SvgDraw.Document.Drawing
import SvgDraw.Document.Render
import SvgDraw.Proofs.Text.Split
import SvgDraw.Proofs.Path.Numeral
import SvgDraw.Proofs.Path.Grammar
import SvgDraw.Proofs.Path.Scope
import SvgDraw.Proofs.Canvas.Refusal
import SvgDraw.Proofs.Canvas.Walk
import SvgDraw.Proofs.Document.Refusal
import SvgDraw.Proofs.Document.Blocks
import SvgDraw.Proofs.Script.Run
import SvgDraw.Proofs.Script.Gradients
import SvgDraw.Proofs.Number.Text
import SvgDraw.Proofs.Script.Source
import SvgDraw.Proofs.Script.Colors
import SvgDraw.Proofs.Script.Readback
import SvgDraw.Proofs.Document.Passes
import SvgDraw.Proofs.Canvas.Journal
import SvgDraw.Proofs.Document.Skipping
import SvgDraw.Proofs.Document.Counting
import SvgDraw.Proofs.Script.Rendering
import SvgDraw.Proofs.Number.Bits
import SvgDraw.Proofs.Number.Nearest
import SvgDraw.Proofs.Number.Shortest
import SvgDraw.Proofs.Number.Readback
import SvgDraw.Proofs.Path.NormalForm
import SvgDraw.Proofs.Document.Sizing
import SvgDraw.Proofs.Raster.LockStep
import SvgDraw.Proofs.Document.Painting
import SvgDraw.Proofs.Script.Engine
import SvgDraw.Proofs.Raster.Rebinding
import SvgDraw.Proofs.Script.TextLiteral
import SvgDraw.Proofs.Path.Progress
import SvgDraw.Proofs.Path.Fault
import SvgDraw.Proofs.Path.Concat
import SvgDraw.Proofs.Path.Outline
import SvgDraw.Proofs.Path.Arity
import SvgDraw.Proofs.Path.Trail
import SvgDraw.Proofs.Path.Axes
import SvgDraw.Proofs.Raster.Export
import SvgDraw.Proofs.Document.Registrations
import SvgDraw.Proofs.Markup.Nesting
import SvgDraw.Proofs.Document.Defs
import SvgDraw.Proofs.Script.Declarations
import SvgDraw.Proofs.Text.Trim
import SvgDraw.Proofs.Raster.ColorForms
import SvgDraw.Proofs.Markup.Writing
import SvgDraw.Proofs.Document.References
import SvgDraw.Proofs.Raster.Resolvable
import SvgDraw.Proofs.Document.Summary
import SvgDraw.Proofs.Path.Offsets
import SvgDraw.Proofs.Number.Finite
import SvgDraw.Proofs.Document.Numbers
