/-
  SvgDraw.Markup.Reference — references in attribute values.

  A reference stands between `&` and `;`. It names one of five characters, or gives the number
  of a character in decimal or, after `x`, in hexadecimal.
-/

import SvgDraw.Failure
import SvgDraw.Text.Basic

namespace SvgDraw.Markup

/-! ## Numbers -/

def digit? (base : Nat) (c : Char) : Option Nat :=
  (hexDigit? c).filter (· < base)

def numberLimit : Nat := 0x100000000

/-- The number that digits spell after those with the value given. The first character that is
no digit, or that makes the number too large, decides the error. -/
def numberFrom (base : Nat) : Nat → List Char → Except ReferenceError Nat
  | value, [] => .ok value
  | value, c :: cs =>
    match digit? base c with
    | none => .error .invalidDigit
    | some d =>
      let next := base * value + d
      if next < numberLimit then numberFrom base next cs else .error .tooLarge

def readNumber (base : Nat) : List Char → Except ReferenceError Nat
  | [] => .error .emptyNumber
  | c :: cs =>
    if c = '+' || c = '-' then .error .unexpectedSign else numberFrom base 0 (c :: cs)

def characterOf (code : Nat) : Except ReferenceError Char :=
  if code = 0 then .error .nullCharacter
  else if code.isValidChar then .ok (.ofNat code)
  else .error (.notACharacter code)

/-! ## References -/

def numbered (text : List Char) : Except ReferenceError Char :=
  match text with
  | 'x' :: digits => readNumber 16 digits >>= characterOf
  | digits => readNumber 10 digits >>= characterOf

def named : List (List Char × Char) :=
  [("lt".toList, '<'), ("gt".toList, '>'), ("amp".toList, '&'), ("apos".toList, '\''),
   ("quot".toList, '"')]

/-- The character that the reference `text` stands for, when it begins at `start`. -/
def resolveReference (start : Nat) (text : List Char) : Except ReferenceError Char :=
  match text with
  | '#' :: number => numbered number
  | name =>
    match named.lookup name with
    | some c => .ok c
    | none => .error (.unknownEntity start (start + byteLength name) (.ofList name))

def endsReference (c : Char) : Bool :=
  c = '&' || c = ';'

/-- Replace references from here on; `stop` is where the whole value ends. -/
def unescapeFrom (stop : Nat) (c : Cursor) : Except ReferenceError (List Char) :=
  match c with
  | ⟨_, []⟩ => .ok []
  | ⟨offset, ch :: rest⟩ =>
    if ch = '&' then
      let name := rest.takeWhile (!endsReference ·)
      match h : rest.dropWhile (!endsReference ·) with
      | ';' :: after =>
        have : after.length < rest.length := by
          have := length_dropWhile_le (!endsReference ·) rest
          simp [h] at this
          omega
        match resolveReference (offset + 1) name with
        | .error e => .error e
        | .ok replacement =>
          (unescapeFrom stop ⟨offset + byteLength name + 2, after⟩).map (replacement :: ·)
      | _ => .error (.unterminated offset stop)
    else (unescapeFrom stop ⟨offset + ch.utf8Size, rest⟩).map (ch :: ·)
termination_by c.rest.length
decreasing_by all_goals simp_all; try omega

def unescape (value : List Char) : Except ReferenceError (List Char) :=
  unescapeFrom (byteLength value) (.start value)

end SvgDraw.Markup
