/-
  SvgDraw.Markup.Attribute — tags and their attributes.

  The content of a tag is its name, up to the first space, and then attributes: a key, an equals
  sign with spaces allowed around it, and a value in quotes of either kind. Attributes may follow
  each other without a space, and no key may occur twice. Values are unescaped in order, so the
  first error of either kind is the one reported.
-/

import SvgDraw.Markup.Reference

namespace SvgDraw.Markup

/-- The spaces of markup are fewer than the blanks of text. -/
def isSpace (c : Char) : Bool :=
  c = ' ' || c = '\t' || c = '\r' || c = '\n'

/-! ## Tags -/

structure Tag where
  name : List Char
  /-- What stands between the name and the end of the tag. -/
  body : List Char
  deriving DecidableEq, Repr

def Tag.ofContent (content : List Char) : Tag :=
  ⟨content.takeWhile (!isSpace ·), content.dropWhile (!isSpace ·)⟩

def localName (name : List Char) : String :=
  match name.dropWhile (· ≠ ':') with
  | ':' :: rest => .ofList rest
  | _ => .ofList name

/-! ## Attributes -/

/-- A key that is read before its value is unescaped. -/
structure RawAttribute where
  /-- The byte offset of the key in the content of its tag. -/
  position : Nat
  key : List Char
  value : List Char
  deriving DecidableEq, Repr

def endsKey (c : Char) : Bool :=
  c = '=' || isSpace c

def readValue (c : Cursor) : Except AttributeError (List Char × Cursor) :=
  let d := c.skipWhile isSpace
  match d.rest with
  | [] => .error (.expectedValue d.offset)
  | quote :: text =>
    if quote = '"' || quote = '\'' then
      let value := text.takeWhile (· ≠ quote)
      let after := d.past [quote] text
      match text.dropWhile (· ≠ quote) with
      | [] => .error (.expectedQuote (after.offset + byteLength value) quote)
      | _ :: rest => .ok (value, after.past (value ++ [quote]) rest)
    else .error (.unquotedValue d.offset)

/-- Read the attribute whose key begins with `first` at `c`, and the rest of the tag. A key has at
least one character, whatever it is. -/
def readAttribute (seen : List RawAttribute) (c : Cursor) (first : Char) (rest : List Char) :
    Except AttributeError (RawAttribute × Cursor) :=
  let key := first :: rest.takeWhile (!endsKey ·)
  let d := (c.past key (rest.dropWhile (!endsKey ·))).skipWhile isSpace
  match d.rest with
  | '=' :: more =>
    match seen.find? (·.key = key) with
    | some earlier => .error (.duplicated c.offset earlier.position)
    | none =>
      match readValue (d.past ['='] more) with
      | .error e => .error e
      | .ok (value, after) => .ok (⟨c.offset, key, value⟩, after)
  | _ => .error (.expectedEquals d.offset)

/-! ### Reading uses text up -/

theorem length_readValue_le {c d : Cursor} {value : List Char} (h : readValue c = .ok (value, d)) :
    d.rest.length ≤ c.rest.length := by
  have hs := c.length_skipWhile_le isSpace
  simp only [readValue] at h
  split at h
  · cases h
  · rename_i quote text ht
    split at h
    · have hd := length_dropWhile_le (· ≠ quote) text
      split at h
      · cases h
      · rename_i hr
        cases h
        rw [ht] at hs
        rw [hr] at hd
        simp only [Cursor.past, List.length_cons] at hs hd ⊢
        omega
    · cases h

theorem length_readAttribute_le {seen : List RawAttribute} {c d : Cursor} {first : Char}
    {rest : List Char} {a : RawAttribute} (h : readAttribute seen c first rest = .ok (a, d)) :
    d.rest.length ≤ rest.length := by
  have hk := length_dropWhile_le (!endsKey ·) rest
  simp only [readAttribute] at h
  split at h
  · rename_i more hm
    have hs := (c.past (first :: rest.takeWhile (!endsKey ·))
      (rest.dropWhile (!endsKey ·))).length_skipWhile_le isSpace
    rw [hm] at hs
    split at h
    · cases h
    · split at h
      · cases h
      · rename_i hv
        cases h
        have := length_readValue_le hv
        simp only [Cursor.past, List.length_cons] at this hs
        omega
  · cases h

def attributesFrom (seen : List RawAttribute) (c : Cursor) :
    Except Error (List (String × String)) :=
  let d := c.skipWhile isSpace
  match hd : d.rest with
  | [] => .ok []
  | first :: rest =>
    match ha : readAttribute seen d first rest with
    | .error e => .error (.attributes e)
    | .ok (a, after) =>
      have : after.rest.length < c.rest.length := by
        have := length_readAttribute_le ha
        have := c.length_skipWhile_le isSpace
        simp_all [d]
        omega
      match unescape a.value with
      | .error e => .error (.references e)
      | .ok value =>
        (attributesFrom (a :: seen) after).map ((.ofList a.key, .ofList value) :: ·)
termination_by c.rest.length

def Tag.attributes (tag : Tag) : Except Error (List (String × String)) :=
  attributesFrom [] ((Cursor.start (tag.name ++ tag.body)).past tag.name tag.body)

end SvgDraw.Markup
