/-
  SvgDraw.Log — the events that activities report.

  An event is one constructor per thing that can be reported, with what it is about. Its level,
  its message and its named fields are read off it, so an activity says only what happened.
-/

import SvgDraw.Text.Basic
import SvgDraw.Number.Style
import SvgDraw.Failure

namespace SvgDraw.Log

inductive Level where
  | trace
  | debug
  | warn
  deriving DecidableEq, Repr

inductive Value where
  | text (value : String)
  | count (value : Nat)
  | number (value : Float)
  deriving DecidableEq, Repr

inductive Event where
  /-- A command and its arguments were read from path data. -/
  | lexed (command : Command) (arguments : List Float) (position : Nat)
  | tokenized (tokens : Nat)
  /-- A token was resolved and left the pen at `(x, y)`. -/
  | resolved (command : Command) (x y : Float)
  | closeIgnored (x y : Float)
  | resolvedAll (tokens operations : Nat)
  | emitted (statement : String)
  | gradientRedefined (id previous current : String)
  | gradientDefined (id variableName : String) (stops : Nat)
  | serialized (statements bytes : Nat)
  | rendered (paths skipped : Nat)
  | pathInDefs
  | ignoredElement (name : String)
  | unsupportedLength (name value : String)
  | stopOutsideGradient
  | skippingPath (failure : Failure)
  | unparsableOffset (value : String)
  | unsupportedColor (color : String)
  deriving DecidableEq, Repr

namespace Event

def level : Event → Level
  | lexed .. => .trace
  | tokenized .. => .debug
  | resolved .. => .trace
  | closeIgnored .. => .debug
  | resolvedAll .. => .debug
  | emitted .. => .trace
  | gradientRedefined .. => .warn
  | gradientDefined .. => .debug
  | serialized .. => .debug
  | rendered .. => .debug
  | pathInDefs => .trace
  | ignoredElement .. => .trace
  | unsupportedLength .. => .warn
  | stopOutsideGradient => .trace
  | skippingPath .. => .warn
  | unparsableOffset .. => .warn
  | unsupportedColor .. => .warn

def message : Event → String
  | lexed .. => "lexed command"
  | tokenized .. => "tokenized path data"
  | resolved .. => "resolved command"
  | closeIgnored .. => "close-subpath has no geometric effect"
  | resolvedAll .. => "translated path commands"
  | emitted .. => "emitted statement"
  | gradientRedefined .. => "gradient id redefined"
  | gradientDefined .. => "defined linear gradient"
  | serialized .. => "serialized program"
  | rendered .. => "rendered document"
  | pathInDefs => "path inside defs is not drawn"
  | ignoredElement .. => "ignored element"
  | unsupportedLength .. => "unsupported length, keeping current size"
  | stopOutsideGradient => "stop outside of a gradient"
  | skippingPath .. => "skipping path"
  | unparsableOffset .. => "unparsable gradient stop offset, using 0"
  | unsupportedColor .. => "unsupported color, painting opaque black"

def numberList (numbers : List Float) : String :=
  "[" ++ ", ".intercalate (numbers.map Number.reportText) ++ "]"

/-- The named values of an event. A statement is shown without the blanks at its end. -/
def fields : Event → List (String × Value)
  | lexed command arguments position =>
    [("command", .text command.letter.toString), ("arguments", .text (numberList arguments)),
     ("position", .count position)]
  | tokenized tokens => [("tokens", .count tokens)]
  | resolved command x y =>
    [("command", .text command.letter.toString), ("x", .number x), ("y", .number y)]
  | closeIgnored x y => [("x", .number x), ("y", .number y)]
  | resolvedAll tokens operations =>
    [("tokens", .count tokens), ("operations", .count operations)]
  | emitted statement => [("statement", .text (.ofList (trimEnd statement.toList)))]
  | gradientRedefined id previous current =>
    [("id", .text id), ("previous", .text previous), ("current", .text current)]
  | gradientDefined id variableName stops =>
    [("id", .text id), ("var", .text variableName), ("stops", .count stops)]
  | serialized statements bytes => [("statements", .count statements), ("bytes", .count bytes)]
  | rendered paths skipped => [("paths", .count paths), ("skipped", .count skipped)]
  | pathInDefs => []
  | ignoredElement name => [("element", .text name)]
  | unsupportedLength name value => [("attribute", .text name), ("value", .text value)]
  | stopOutsideGradient => []
  | skippingPath failure => [("error", .text failure.message)]
  | unparsableOffset value => [("value", .text value)]
  | unsupportedColor color => [("color", .text color)]

end Event

end SvgDraw.Log
