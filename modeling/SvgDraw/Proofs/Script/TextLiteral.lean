/-
  SvgDraw.Proofs.Script.TextLiteral — text literals as a script engine reads them.

  `scanLiteral` reads a literal between single quotes at the beginning of a script and gives its
  value and what follows it. It knows nothing of how literals are written here: a backslash
  begins an escape, which is one of four characters or `u` with any four hexadecimal digits, and
  a character that ends a line is a fault.

  Every character is read back from the way it is written, whatever follows
  (`scanBody_escape`). So a text is read back from its literal, and the reading ends at the
  literal's last quote (`scanLiteral_source`): no text can break out of its literal, and none is
  taken for another.
-/

import SvgDraw.Proofs.Script.Source
import SvgDraw.Text.Basic

namespace SvgDraw.Literal

/-! ## Reading a literal -/

inductive ScanFault where
  | noQuote
  | unclosed
  | lineEnd (c : Char)
  | badEscape
  deriving DecidableEq, Repr

def lineEnds : List Char := ['\n', '\r', '\u2028', '\u2029']

def singleEscape? : Char → Option Char
  | '\\' => some '\\'
  | '\'' => some '\''
  | 'n' => some '\n'
  | 'r' => some '\r'
  | _ => none

/-- The character with the number that four hexadecimal digits spell. Half of a surrogate pair is
    no character. -/
def codeUnit? (a b c d : Char) : Option Char :=
  match hexDigit? a, hexDigit? b, hexDigit? c, hexDigit? d with
  | some a, some b, some c, some d =>
    let n := ((a * 16 + b) * 16 + c) * 16 + d
    if n.isValidChar then some (Char.ofNat n) else none
  | _, _, _, _ => none

def withChar (c : Char) (r : List Char × List Char) : List Char × List Char := (c :: r.1, r.2)

/-- Read a literal behind its first quote: its value, and what follows its last quote. -/
def scanBody : List Char → Except ScanFault (List Char × List Char)
  | [] => .error .unclosed
  | '\'' :: rest => .ok ([], rest)
  | ['\\'] => .error .unclosed
  | '\\' :: 'u' :: a :: b :: c :: d :: rest =>
    match codeUnit? a b c d with
    | some ch => (scanBody rest).map (withChar ch)
    | none => .error .badEscape
  | '\\' :: e :: rest =>
    match singleEscape? e with
    | some ch => (scanBody rest).map (withChar ch)
    | none => .error .badEscape
  | c :: rest =>
    if lineEnds.contains c then .error (.lineEnd c) else (scanBody rest).map (withChar c)

def scanLiteral : List Char → Except ScanFault (List Char × List Char)
  | '\'' :: rest => scanBody rest
  | _ => .error .noQuote

/-! ## Reading back what is written -/

theorem scanBody_plain {c : Char} (h : c ∉ special) (rest : List Char) :
    scanBody (c :: rest) = (scanBody rest).map (withChar c) := by
  have hline : lineEnds.contains c = false := by
    rw [Bool.eq_false_iff]
    intro hc
    have hsub : lineEnds ⊆ special := by decide
    exact h (hsub (List.contains_iff_mem.mp hc))
  simp only [special, List.mem_cons, List.not_mem_nil, or_false, not_or] at h
  rw [scanBody]
  · rw [hline]
    rfl
  all_goals simp_all

/-- A character is read back from the way it is written. -/
theorem scanBody_escape (c : Char) (rest : List Char) :
    scanBody (escape c ++ rest) = (scanBody rest).map (withChar c) := by
  by_cases h : c ∈ special
  · simp only [special, List.mem_cons, List.not_mem_nil, or_false] at h
    rcases h with rfl | rfl | rfl | rfl | rfl | rfl <;> rfl
  · rw [escape_plain h]
    exact scanBody_plain h rest

theorem scanBody_escaped (cs rest : List Char) :
    scanBody (cs.flatMap escape ++ '\'' :: rest) = .ok (cs, rest) := by
  induction cs with
  | nil => rfl
  | cons c cs ih =>
    rw [List.flatMap_cons, List.append_assoc, scanBody_escape, ih]
    rfl

theorem scanLiteral_source (s : String) (rest : List Char) :
    scanLiteral ((text s).source.toList ++ rest) = .ok (s.toList, rest) := by
  rw [toList_source_text, List.cons_append, List.cons_append, List.append_assoc]
  exact scanBody_escaped s.toList rest

/-- A text literal cannot be broken out of. In front of any script it is read without a fault, as
    the text it was written for, and up to its last character. So texts with the same literal are
    the same, and no literal is the beginning of another one. -/
theorem text_literal_is_closed (s : String) :
    (∀ rest : String, scanLiteral ((text s).source ++ rest).toList = .ok (s.toList, rest.toList)) ∧
    (∀ t : String, (text s).source = (text t).source ↔ s = t) ∧
    (∀ t : String, (text s).source.toList <+: (text t).source.toList ↔ s = t) := by
  have hbegins : ∀ t : String, (text s).source.toList <+: (text t).source.toList → s = t := by
    rintro t ⟨rest, hrest⟩
    -- Both literals are read from one script, so their values are the same.
    have hs := scanLiteral_source s rest
    have ht := scanLiteral_source t []
    rw [hrest] at hs
    rw [List.append_nil, hs] at ht
    exact String.toList_inj.mp (Prod.mk.inj (Except.ok.inj ht)).1
  refine ⟨?_, ?_, ?_⟩
  · intro rest
    rw [String.toList_append]
    exact scanLiteral_source s rest.toList
  · intro t
    refine ⟨?_, fun h => h ▸ rfl⟩
    intro h
    have heq : (text s).source.toList = (text t).source.toList := congrArg _ h
    exact hbegins t ⟨[], by rw [List.append_nil, heq]⟩
  · intro t
    refine ⟨hbegins t, ?_⟩
    rintro rfl
    exact List.prefix_refl _

/-- A text that looks like an escape, ends in a backslash and is followed by a quote. -/
example : scanLiteral "'\\\\u2028\\\\' + '".toList = .ok ("\\u2028\\".toList, " + '".toList) := by
  decide

example : scanLiteral "'a\nb'".toList = .error (.lineEnd '\n') := by
  decide

end SvgDraw.Literal
