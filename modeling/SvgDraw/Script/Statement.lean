/-
  SvgDraw.Script.Statement — the statements a script consists of, and the other lines of a program.
-/

import SvgDraw.Script.Literal

namespace SvgDraw

inductive Statement where
  /-- Written `target.method(arguments);` -/
  | call (target method : String) (arguments : List Literal)
  /-- Written `target.property = value;` -/
  | assign (target property : String) (value : Literal)
  /-- Written `const name = target.method(arguments);` -/
  | declare (name target method : String) (arguments : List Literal)
  deriving DecidableEq, Repr

namespace Statement

def callSource (target method : String) (arguments : List Literal) : String :=
  target ++ "." ++ method ++ "(" ++ ", ".intercalate (arguments.map Literal.source) ++ ")"

def source : Statement → String
  | .call target method arguments => callSource target method arguments ++ ";\n"
  | .assign target property value => target ++ "." ++ property ++ " = " ++ value.source ++ ";\n"
  | .declare name target method arguments =>
    "const " ++ name ++ " = " ++ callSource target method arguments ++ ";\n"

def declared? : Statement → Option String
  | .declare name .. => some name
  | _ => none

end Statement

/-! ## Lines -/

/-- A line of a program: the declaration of a constant, or anything else. -/
inductive Line where
  | constant (name value : String)
  | plain (text : String)
  deriving DecidableEq, Repr

def Line.source : Line → String
  | .constant name value => "const " ++ name ++ " = " ++ value ++ ";"
  | .plain text => text

end SvgDraw
