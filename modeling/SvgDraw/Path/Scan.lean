/-
  SvgDraw.Path.Scan — reading path data.

  Path data is a sequence of commands with blanks around them. A command's letter is followed by
  its numerals: blanks may precede the first, and two are separated by blanks, at most one comma
  and blanks again, all of it optional. A numeral is a minus sign, digits, a point and digits,
  each part optional, and extends as far as it can; it has to hold a digit. So a second point
  ends a numeral and begins the next one.

  `scan` keeps what was read before an error: the commands in order, each with its position and
  its numerals, and how the reading ended. `tokenize` is the all-or-nothing view of it, and
  `tokenizeJournal` the view that is reported.
-/

import SvgDraw.Text.Basic
import SvgDraw.Number.Decimal
import SvgDraw.Log

namespace SvgDraw

/-! ## Separators -/

namespace Cursor

def skipBlanks (c : Cursor) : Cursor :=
  c.skipWhile isBlank

/-- Past blanks and at most one comma. -/
def skipSeparator (c : Cursor) : Cursor :=
  let d := c.skipBlanks
  match d.rest with
  | ',' :: rest => d.past [','] rest
  | _ => d

end Cursor

/-! ## Numerals -/

structure Numeral where
  /-- The byte offset of its first character. -/
  start : Nat
  text : List Char
  value : Float
  deriving DecidableEq, Repr

def splitMinus : List Char → List Char × List Char
  | '-' :: rest => (['-'], rest)
  | cs => ([], cs)

/-- Split off digits with at most one point, as many characters as possible. -/
def splitDigits (cs : List Char) : List Char × List Char :=
  let whole := cs.takeWhile Char.isDigit
  match cs.dropWhile Char.isDigit with
  | '.' :: after => (whole ++ '.' :: after.takeWhile Char.isDigit, after.dropWhile Char.isDigit)
  | rest => (whole, rest)

/-- Split off the text of a numeral, which may turn out to hold no digit. -/
def splitNumeral (cs : List Char) : List Char × List Char :=
  let (sign, body) := splitMinus cs
  let (digits, rest) := splitDigits body
  (sign ++ digits, rest)

def Cursor.numeral (c : Cursor) : Except LexError (Numeral × Cursor) :=
  let d := c.skipBlanks
  let (text, rest) := splitNumeral d.rest
  match Number.read? text with
  | some value => .ok (⟨d.offset, text, value⟩, d.past text rest)
  | none => .error ⟨.invalidNumber, d.offset⟩

def Cursor.moreNumerals : Nat → Cursor → Except LexError (List Numeral × Cursor)
  | 0, c => .ok ([], c)
  | n + 1, c =>
    match c.skipSeparator.numeral with
    | .error e => .error e
    | .ok (first, d) =>
      match d.moreNumerals n with
      | .error e => .error e
      | .ok (more, e) => .ok (first :: more, e)

def Cursor.numerals : Nat → Cursor → Except LexError (List Numeral × Cursor)
  | 0, c => .ok ([], c)
  | n + 1, c =>
    match c.numeral with
    | .error e => .error e
    | .ok (first, d) =>
      match d.moreNumerals n with
      | .error e => .error e
      | .ok (more, e) => .ok (first :: more, e)

/-! ### Reading never lengthens what is left -/

theorem length_splitMinus_le (cs : List Char) : (splitMinus cs).2.length ≤ cs.length := by
  unfold splitMinus
  split <;> simp

theorem length_splitDigits_le (cs : List Char) : (splitDigits cs).2.length ≤ cs.length := by
  have h := length_dropWhile_le Char.isDigit cs
  unfold splitDigits
  split
  · rename_i after he
    have := length_dropWhile_le Char.isDigit after
    simp [he] at h
    simp
    omega
  · exact h

theorem length_splitNumeral_le (cs : List Char) : (splitNumeral cs).2.length ≤ cs.length :=
  Nat.le_trans (length_splitDigits_le _) (length_splitMinus_le cs)

namespace Cursor

theorem length_skipBlanks_le (c : Cursor) : c.skipBlanks.rest.length ≤ c.rest.length :=
  c.length_skipWhile_le isBlank

theorem length_skipSeparator_le (c : Cursor) : c.skipSeparator.rest.length ≤ c.rest.length := by
  have h := c.length_skipBlanks_le
  unfold skipSeparator
  simp only
  split
  · rename_i he
    simp [he] at h
    simp [past]
    omega
  · exact h

theorem length_numeral_le {c d : Cursor} {a : Numeral} (h : c.numeral = .ok (a, d)) :
    d.rest.length ≤ c.rest.length := by
  have hs := length_splitNumeral_le c.skipBlanks.rest
  have hb := c.length_skipBlanks_le
  simp only [numeral] at h
  split at h
  · cases h
    simp only [past]
    omega
  · cases h

theorem length_moreNumerals_le {n : Nat} {c d : Cursor} {as : List Numeral}
    (h : c.moreNumerals n = .ok (as, d)) : d.rest.length ≤ c.rest.length := by
  induction n generalizing c as with
  | zero => cases h; exact Nat.le_refl _
  | succ n ih =>
    simp only [moreNumerals] at h
    split at h
    · cases h
    · rename_i hf
      have := c.length_skipSeparator_le
      have := length_numeral_le hf
      split at h
      · cases h
      · rename_i hm
        cases h
        have := ih hm
        omega

theorem length_numerals_le {n : Nat} {c d : Cursor} {as : List Numeral}
    (h : c.numerals n = .ok (as, d)) : d.rest.length ≤ c.rest.length := by
  cases n with
  | zero => cases h; exact Nat.le_refl _
  | succ n =>
    simp only [numerals] at h
    split at h
    · cases h
    · rename_i hf
      have := length_numeral_le hf
      split at h
      · cases h
      · rename_i hm
        cases h
        have := length_moreNumerals_le hm
        omega

end Cursor

/-! ## Tokens -/

/-- A command with numbers. Nothing ties their count to the command's arity. -/
structure Token where
  command : Command
  arguments : List Float
  deriving DecidableEq, Repr

structure Placed where
  /-- The byte offset of its letter. -/
  position : Nat
  command : Command
  numerals : List Numeral
  deriving DecidableEq, Repr

def Placed.token (p : Placed) : Token :=
  ⟨p.command, p.numerals.map Numeral.value⟩

/-- The commands read from path data, and what stopped the reading before the end. -/
structure Scan where
  commands : List Placed
  error : Option LexError
  deriving DecidableEq, Repr

def Scan.cons (p : Placed) (s : Scan) : Scan :=
  { s with commands := p :: s.commands }

def Cursor.scan (c : Cursor) : Scan :=
  match c with
  | ⟨_, []⟩ => ⟨[], none⟩
  | ⟨position, ch :: rest⟩ =>
    let next : Cursor := ⟨position + ch.utf8Size, rest⟩
    if isBlank ch then next.scan
    else
      match Command.ofLetter? ch with
      | none => ⟨[], some ⟨.unexpectedCharacter ch, position⟩⟩
      | some command =>
        match h : next.numerals command.arity with
        | .error e => ⟨[], some e⟩
        | .ok (numerals, after) =>
          have : after.rest.length ≤ rest.length := Cursor.length_numerals_le h
          .cons ⟨position, command, numerals⟩ after.scan
termination_by c.rest.length
decreasing_by all_goals simp_all; try omega

def scan (data : String) : Scan :=
  (Cursor.start data.toList).scan

def tokenize (data : String) : Except LexError (List Token) :=
  let s := scan data
  match s.error with
  | some e => .error e
  | none => .ok (s.commands.map Placed.token)

/-! ## What is reported -/

/-- A command is reported once its arguments are read. -/
def Placed.event (p : Placed) : Log.Event :=
  .lexed p.command (p.numerals.map Numeral.value) p.position

def tokenizeJournal (data : String) : List Log.Event :=
  let s := scan data
  s.commands.map Placed.event ++
    match s.error with
    | some _ => []
    | none => [.tokenized s.commands.length]

end SvgDraw
