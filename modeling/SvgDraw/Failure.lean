/-
  SvgDraw.Failure — why an activity of the library fails.

  Path data that cannot be read, a token that does not fit its command, a paint whose gradient
  nobody defined, or markup that cannot be read. Markup has four kinds of error: markup that does
  not end, markup that ends but does not fit together, attributes, and references inside attribute
  values. Positions are byte offsets: those of attributes count from the byte after the opening
  `<`, those of references from the start of the value.
-/

import SvgDraw.Path.Command

namespace SvgDraw

/-! ## Path data and tokens -/

inductive LexCause where
  /-- Neither a blank nor a letter of a command. -/
  | unexpectedCharacter (c : Char)
  /-- An argument of a command is no number. -/
  | invalidNumber
  deriving DecidableEq, Repr

/-- Why and where, as a byte offset, reading path data stopped. -/
structure LexError where
  cause : LexCause
  position : Nat
  deriving DecidableEq, Repr

structure ArityError where
  command : Command
  found : Nat
  deriving DecidableEq, Repr

def ArityError.expected (e : ArityError) : Nat :=
  e.command.arity

def LexCause.message : LexCause → String
  | .unexpectedCharacter c => "unrecognized character '" ++ c.toString ++ "'"
  | .invalidNumber => "expected a number"

def LexError.message (e : LexError) : String :=
  e.cause.message ++ " at offset " ++ toString e.position

def ArityError.message (e : ArityError) : String :=
  "command '" ++ e.command.letter.toString ++ "' takes " ++ toString e.expected ++
    " arguments but the token carries " ++ toString e.found

/-! ## Markup -/

namespace Markup

/-- Markup whose end is missing. -/
inductive SyntaxError where
  | invalidBang
  | unclosedInstruction
  | unclosedComment
  | unclosedDoctype
  | unclosedData
  | unclosedTag
  deriving DecidableEq, Repr

/-- Markup that ends but does not fit together. -/
inductive FormError where
  | missingDoctypeName
  | unmatchedEnd (name : String)
  | mismatchedEnd (expected found : String)
  | unclosedReference
  deriving DecidableEq, Repr

inductive AttributeError where
  | expectedEquals (position : Nat)
  | expectedValue (position : Nat)
  | unquotedValue (position : Nat)
  | expectedQuote (position : Nat) (quote : Char)
  | duplicated (position previous : Nat)
  deriving DecidableEq, Repr

inductive ReferenceError where
  | unknownEntity (start stop : Nat) (name : String)
  | unterminated (start stop : Nat)
  | unexpectedSign
  | emptyNumber
  | invalidDigit
  | tooLarge
  | notACharacter (code : Nat)
  | nullCharacter
  deriving DecidableEq, Repr

inductive Error where
  | syntactic (error : SyntaxError)
  | illFormed (error : FormError)
  | attributes (error : AttributeError)
  | references (error : ReferenceError)
  deriving DecidableEq, Repr

def SyntaxError.message : SyntaxError → String
  | .invalidBang => "unknown or missed symbol in markup"
  | .unclosedInstruction =>
    "processing instruction or xml declaration not closed: `?>` not found before end of input"
  | .unclosedComment => "comment not closed: `-->` not found before end of input"
  | .unclosedDoctype => "DOCTYPE not closed: `>` not found before end of input"
  | .unclosedData => "CDATA not closed: `]]>` not found before end of input"
  | .unclosedTag => "tag not closed: `>` not found before end of input"

def FormError.message : FormError → String
  | .missingDoctypeName => "`<!DOCTYPE>` declaration does not contain a name of a document type"
  | .unmatchedEnd name => "close tag `</" ++ name ++ ">` does not match any open tag"
  | .mismatchedEnd expected found =>
    "expected `</" ++ expected ++ ">`, but `</" ++ found ++ ">` was found"
  | .unclosedReference =>
    "entity or character reference not closed: `;` not found before end of input"

def AttributeError.message : AttributeError → String
  | .expectedEquals p =>
    "position " ++ toString p ++ ": attribute key must be directly followed by `=` or space"
  | .expectedValue p =>
    "position " ++ toString p ++ ": `=` must be followed by an attribute value"
  | .unquotedValue p =>
    "position " ++ toString p ++ ": attribute value must be enclosed in `\"` or `'`"
  | .expectedQuote p quote =>
    "position " ++ toString p ++ ": missing closing quote `" ++ quote.toString ++
      "` in attribute value"
  | .duplicated p previous =>
    "position " ++ toString p ++ ": duplicated attribute, previous declaration at position " ++
      toString previous

def ReferenceError.message : ReferenceError → String
  | .unknownEntity start stop name =>
    "at " ++ toString start ++ ".." ++ toString stop ++ ": unrecognized entity `" ++ name ++ "`"
  | .unterminated start stop =>
    "Error while escaping character at range " ++ toString start ++ ".." ++ toString stop ++
      ": Cannot find ';' after '&'"
  | .unexpectedSign => "invalid character reference: unexpected number sign"
  | .emptyNumber => "invalid character reference: cannot parse integer from empty string"
  | .invalidDigit => "invalid character reference: invalid digit found in string"
  | .tooLarge => "invalid character reference: number too large to fit in target type"
  | .notACharacter code =>
    "invalid character reference: `" ++ toString code ++ "` is not a valid codepoint"
  | .nullCharacter => "invalid character reference: 0x0 character is not permitted in XML"

def Error.message : Error → String
  | .syntactic e => "syntax error: " ++ e.message
  | .illFormed e => "ill-formed document: " ++ e.message
  | .attributes e => "error while parsing attribute: " ++ e.message
  | .references e => e.message

end Markup

/-! ## Failures -/

inductive Failure where
  /-- Path data that cannot be read. -/
  | lex (error : LexError)
  /-- A token with the wrong number of arguments. -/
  | arity (error : ArityError)
  /-- A paint that names a gradient nobody defined. -/
  | unknownGradient (id : String)
  /-- Markup that cannot be read. -/
  | markup (error : Markup.Error)
  deriving DecidableEq, Repr

def Failure.message : Failure → String
  | .lex e => e.message
  | .arity e => e.message
  | .unknownGradient id => "no gradient has been defined with id '" ++ id ++ "'"
  | .markup e => "malformed document: " ++ e.message

end SvgDraw
