/-
  SvgDraw.Script.Literal — values in scripts.

  Text stands between single quotes. A quote, a backslash and the four characters that end a
  line are escaped, so text can neither end its literal nor break the line.
-/

import SvgDraw.Number.Style

namespace SvgDraw

inductive Literal where
  | number (value : Float)
  | text (value : String)
  | bool (value : Bool)
  /-- Stands as it is, such as the name of a variable. -/
  | raw (source : String)
  deriving DecidableEq, Repr

namespace Literal

def escape (c : Char) : List Char :=
  if c = '\\' then ['\\', '\\']
  else if c = '\'' then ['\\', '\'']
  else if c = '\n' then ['\\', 'n']
  else if c = '\r' then ['\\', 'r']
  else if c = '\u2028' then "\\u2028".toList
  else if c = '\u2029' then "\\u2029".toList
  else [c]

def quoted (cs : List Char) : List Char :=
  '\'' :: cs.flatMap escape ++ ['\'']

def source : Literal → String
  | .number x => Number.scriptText x
  | .text s => .ofList (quoted s.toList)
  | .bool true => "true"
  | .bool false => "false"
  | .raw s => s

end Literal

end SvgDraw
