/-
  SvgDraw.Path.Command — the commands of path data.

  A command is a letter followed by as many numbers as its arity. Every command but the closing
  one comes in two modes: upper case for absolute coordinates, lower case for coordinates
  relative to the pen. Closing has one meaning for both of its letters.
-/

namespace SvgDraw

/-- What the coordinates of a command are counted from. -/
inductive Mode where
  | absolute
  | relative
  deriving DecidableEq, Repr

inductive Command where
  | move (mode : Mode)
  | horizontal (mode : Mode)
  | vertical (mode : Mode)
  | line (mode : Mode)
  | curve (mode : Mode)
  | close
  deriving DecidableEq, Repr

namespace Command

def ofLetter? : Char → Option Command
  | 'M' => some (.move .absolute)
  | 'm' => some (.move .relative)
  | 'H' => some (.horizontal .absolute)
  | 'h' => some (.horizontal .relative)
  | 'V' => some (.vertical .absolute)
  | 'v' => some (.vertical .relative)
  | 'L' => some (.line .absolute)
  | 'l' => some (.line .relative)
  | 'C' => some (.curve .absolute)
  | 'c' => some (.curve .relative)
  | 'Z' => some .close
  | 'z' => some .close
  | _ => none

/-- The letter a command is shown with; closing is shown in lower case. -/
def letter : Command → Char
  | .move .absolute => 'M'
  | .move .relative => 'm'
  | .horizontal .absolute => 'H'
  | .horizontal .relative => 'h'
  | .vertical .absolute => 'V'
  | .vertical .relative => 'v'
  | .line .absolute => 'L'
  | .line .relative => 'l'
  | .curve .absolute => 'C'
  | .curve .relative => 'c'
  | .close => 'z'

def arity : Command → Nat
  | .move _ => 2
  | .horizontal _ => 1
  | .vertical _ => 1
  | .line _ => 2
  | .curve _ => 6
  | .close => 0

/-- What the coordinates are counted from. Closing has none, so it counts as absolute. -/
def mode : Command → Mode
  | .move m => m
  | .horizontal m => m
  | .vertical m => m
  | .line m => m
  | .curve m => m
  | .close => .absolute

def isRelative (c : Command) : Bool :=
  c.mode = .relative

@[simp] theorem ofLetter?_letter (c : Command) : ofLetter? c.letter = some c := by
  rcases c with (_ | _) | (_ | _) | (_ | _) | (_ | _) | (_ | _) | _ <;> rfl

end Command

end SvgDraw
