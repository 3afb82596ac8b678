/-
  SvgDraw.Proofs.Script.Source — statements can be told apart by their text.

  What a run writes is `Issued`: names without blanks and points, methods that are words, and
  values that are numbers, texts or the constants of gradients. Two such statements with the same
  text in front are the same up to how their numbers are written, whatever follows them
  (`Statement.source_unique`), because every part ends at a character that it cannot hold: a name
  at a point or a blank, a method at a bracket or a blank, a number or a constant at a comma, a
  bracket or a semicolon, and a text at the one quote that is not escaped
  (`escaped_unique`). The only line end of a statement is its last character
  (`Statement.source_line`).
-/

import Mathlib.Data.List.Forall2
import SvgDraw.Proofs.Number.Text
import SvgDraw.Proofs.Text.Split
import SvgDraw.Script.Basic

namespace SvgDraw

variable {x y : List Char}

/-! ## Texts -/

namespace Literal

def unescape : List Char → Option (Char × List Char)
  | '\\' :: '\\' :: rest => some ('\\', rest)
  | '\\' :: '\'' :: rest => some ('\'', rest)
  | '\\' :: 'n' :: rest => some ('\n', rest)
  | '\\' :: 'r' :: rest => some ('\r', rest)
  | '\\' :: 'u' :: '2' :: '0' :: '2' :: '8' :: rest => some ('\u2028', rest)
  | '\\' :: 'u' :: '2' :: '0' :: '2' :: '9' :: rest => some ('\u2029', rest)
  | '\\' :: _ => none
  | '\'' :: _ => none
  | c :: rest => some (c, rest)
  | [] => none

def special : List Char := ['\\', '\'', '\n', '\r', '\u2028', '\u2029']

theorem escape_plain {c : Char} (h : c ∉ special) : escape c = [c] := by
  simp only [special, List.mem_cons, List.not_mem_nil, or_false, not_or] at h
  simp [escape, h]

theorem unescape_plain {c : Char} (h : c ∉ special) (rest : List Char) :
    unescape (c :: rest) = some (c, rest) := by
  simp only [special, List.mem_cons, List.not_mem_nil, or_false, not_or] at h
  unfold unescape
  split <;> simp_all

theorem unescape_escape (c : Char) (rest : List Char) :
    unescape (escape c ++ rest) = some (c, rest) := by
  by_cases h : c ∈ special
  · simp only [special, List.mem_cons, List.not_mem_nil, or_false] at h
    rcases h with rfl | rfl | rfl | rfl | rfl | rfl <;> rfl
  · rw [escape_plain h]
    exact unescape_plain h rest

theorem newline_not_mem_escape (c : Char) : '\n' ∉ escape c := by
  by_cases h : c ∈ special
  · simp only [special, List.mem_cons, List.not_mem_nil, or_false] at h
    rcases h with rfl | rfl | rfl | rfl | rfl | rfl <;> decide
  · rw [escape_plain h, List.mem_singleton]
    rintro rfl
    exact h (by decide)

/-- An escaped text ends at the first quote, so it is read back whole. -/
theorem escaped_unique {as bs : List Char}
    (h : as.flatMap escape ++ '\'' :: x = bs.flatMap escape ++ '\'' :: y) : as = bs ∧ x = y := by
  -- Reading one character off both sides says whether the texts end there, as a quote that is not
  -- escaped cannot be read.
  induction as generalizing bs with
  | nil =>
    cases bs with
    | nil => exact ⟨rfl, (List.cons.inj h).2⟩
    | cons b bs =>
      have hr := congrArg unescape h
      rw [List.flatMap_cons, List.append_assoc, unescape_escape] at hr
      cases hr
  | cons a as ih =>
    have hl := congrArg unescape h
    rw [List.flatMap_cons, List.append_assoc, unescape_escape] at hl
    cases bs with
    | nil => cases hl
    | cons b bs =>
      rw [List.flatMap_cons, List.append_assoc, unescape_escape] at hl
      obtain ⟨rfl, hrest⟩ := Prod.mk.inj (Option.some.inj hl)
      obtain ⟨rfl, rfl⟩ := ih hrest
      exact ⟨rfl, rfl⟩

/-! ## Values -/

def Issued : Literal → Prop
  | .number _ => True
  | .text _ => True
  | .bool _ => False
  | .raw source => ∃ k, source = Script.gradientName k

/-- Equal, but for numbers that are written alike. -/
def Same : Literal → Literal → Prop
  | .number a, .number b => Number.scriptText a = Number.scriptText b
  | .text a, .text b => a = b
  | .bool a, .bool b => a = b
  | .raw a, .raw b => a = b
  | _, _ => False

/-- The characters that end a value or a line, or begin a text. -/
def marks : List Char := [',', ')', ';', '\'', '\n']

def plainChar (c : Char) : Bool := !marks.contains c

theorem plainChar_of_class {p : Char → Bool} (hp : marks.any p = false) {c : Char}
    (h : p c = true) : plainChar c = true := by
  have hc : c ∉ marks := by
    intro hmem
    exact List.any_eq_false.mp hp c hmem h
  simpa only [plainChar, Bool.not_eq_true', ← Bool.not_eq_true, List.contains_iff_mem] using hc

theorem plainChar_of_numberChar {c : Char} (h : Number.numberChar c = true) : plainChar c = true :=
  plainChar_of_class (by decide) h

theorem plainChar_of_isAlphanum {c : Char} (h : c.isAlphanum = true) : plainChar c = true :=
  plainChar_of_class (by decide) h

end Literal

/-- The constant of a gradient is a word with a number after it. -/
theorem Script.isAlphanum_of_mem_gradientName (k : Nat) :
    ∀ c ∈ (gradientName k).toList, c.isAlphanum = true := by
  have hword : ∀ c ∈ "gradient".toList, c.isAlphanum = true := List.all_eq_true.mp (by decide)
  intro c hc
  simp only [gradientName, String.toList_append, Nat.toString_eq_repr, Nat.toList_repr] at hc
  rcases List.mem_append.mp hc with hc | hc
  · exact hword c hc
  · simp [Char.isAlphanum, Nat.isDigit_of_mem_toDigits (by decide) (by decide) hc]

namespace Literal

/-- A value that is not a text is made of plain characters. -/
theorem plainChar_of_mem_source {a : Literal} (ha : a.Issued) (ht : ∀ s, a ≠ .text s) :
    ∀ c ∈ a.source.toList, plainChar c = true := by
  intro c hc
  cases a with
  | number v => exact plainChar_of_numberChar (Number.numberChar_of_mem_scriptText v c hc)
  | text s => exact absurd rfl (ht s)
  | bool b => cases ha
  | raw s =>
    obtain ⟨k, rfl⟩ := ha
    exact plainChar_of_isAlphanum (Script.isAlphanum_of_mem_gradientName k c hc)

theorem toList_source_text (s : String) :
    (source (.text s)).toList = '\'' :: s.toList.flatMap escape ++ ['\''] := by
  simp [source, quoted]

/-- A value is written with at least one character, and does not begin with a bracket. -/
theorem source_head {a : Literal} (ha : a.Issued) :
    ∃ c cs, a.source.toList = c :: cs ∧ c ≠ ')' := by
  cases a with
  | text s => exact ⟨_, _, toList_source_text s, by decide⟩
  | bool b => cases ha
  | raw s =>
    obtain ⟨k, rfl⟩ := ha
    exact ⟨'g', _, by simp [source, Script.gradientName]; rfl, by decide⟩
  | number v =>
    obtain ⟨c, cs, hcs⟩ := List.exists_cons_of_ne_nil (Number.scriptText_ne_nil v)
    refine ⟨c, cs, hcs, ?_⟩
    rintro rfl
    have hc := Number.numberChar_of_mem_scriptText v ')' (by rw [hcs]; exact List.mem_cons_self)
    cases hc

/-- A text cannot be read as another value. -/
theorem text_ne_plain {b : Literal} (hb : b.Issued) (ht : ∀ s, b ≠ .text s) (s : String) :
    (source (.text s)).toList ++ x ≠ b.source.toList ++ y := by
  intro h
  obtain ⟨c, cs, hs, -⟩ := source_head hb
  rw [toList_source_text, hs] at h
  have hhead : '\'' = c := (List.cons.inj h).1
  have hc := plainChar_of_mem_source hb ht c (by rw [hs]; exact List.mem_cons_self)
  rw [← hhead] at hc
  cases hc

/-- No number is written like the constant of a gradient, which has an `e` in it. -/
theorem scriptText_ne_gradientName (v : Float) (k : Nat) :
    Number.scriptText v ≠ Script.gradientName k := by
  intro h
  have he : 'e' ∈ (Number.scriptText v).toList := by
    rw [h, Script.gradientName, String.toList_append]
    exact List.mem_append_left _ (by decide)
  have hc := Number.numberChar_of_mem_scriptText v 'e' he
  revert hc
  decide

theorem same_of_source_eq {a b : Literal} (ha : a.Issued) (hb : b.Issued) (hat : ∀ s, a ≠ .text s)
    (hbt : ∀ s, b ≠ .text s) (h : a.source = b.source) : a.Same b := by
  cases a with
  | text s => exact absurd rfl (hat s)
  | bool v => cases ha
  | number v =>
    cases b with
    | text s => exact absurd rfl (hbt s)
    | bool w => cases hb
    | number w => exact h
    | raw s =>
      obtain ⟨k, rfl⟩ := hb
      exact absurd h (scriptText_ne_gradientName v k)
  | raw s =>
    cases b with
    | text s => exact absurd rfl (hbt s)
    | bool w => cases hb
    | raw s => exact h
    | number w =>
      obtain ⟨k, rfl⟩ := ha
      exact absurd h.symm (scriptText_ne_gradientName w k)

/-- A value is read back up to how its numbers are written. -/
theorem source_unique {a b : Literal} (ha : a.Issued) (hb : b.Issued) (hx : Stops plainChar x)
    (hy : Stops plainChar y) (h : a.source.toList ++ x = b.source.toList ++ y) : a.Same b ∧ x = y := by
  by_cases hat : ∃ s, a = .text s
  · obtain ⟨s, rfl⟩ := hat
    by_cases hbt : ∃ t, b = .text t
    · obtain ⟨t, rfl⟩ := hbt
      simp only [toList_source_text, List.cons_append, List.append_assoc, List.nil_append,
        List.cons.injEq, true_and] at h
      obtain ⟨hst, hxy⟩ := escaped_unique h
      exact ⟨String.toList_inj.mp hst, hxy⟩
    · exact absurd h (text_ne_plain hb (not_exists.mp hbt) s)
  · by_cases hbt : ∃ t, b = .text t
    · obtain ⟨t, rfl⟩ := hbt
      exact absurd h.symm (text_ne_plain ha (not_exists.mp hat) t)
    · have hpa := plainChar_of_mem_source ha (not_exists.mp hat)
      have hpb := plainChar_of_mem_source hb (not_exists.mp hbt)
      obtain ⟨hab, hxy⟩ := split_unique hpa hpb hx hy h
      refine ⟨?_, hxy⟩
      exact same_of_source_eq ha hb (not_exists.mp hat) (not_exists.mp hbt) (String.toList_inj.mp hab)

theorem newline_not_mem_source {a : Literal} (ha : a.Issued) : '\n' ∉ a.source.toList := by
  by_cases hat : ∃ s, a = .text s
  · obtain ⟨s, rfl⟩ := hat
    simp [toList_source_text, newline_not_mem_escape]
  · intro hn
    have hc := plainChar_of_mem_source ha (not_exists.mp hat) _ hn
    cases hc

end Literal

/-! ## Arguments -/

namespace Statement

/-- The text after the first argument, with the bracket that closes. -/
def closing (arguments : List Literal) : List Char :=
  arguments.flatMap (fun a => ',' :: ' ' :: a.source.toList) ++ [')']

/-- The text after the bracket that opens. -/
def argumentsText : List Literal → List Char
  | [] => [')']
  | a :: arguments => a.source.toList ++ closing arguments

theorem toList_intercalate_source (a : Literal) (arguments : List Literal) :
    (", ".intercalate ((a :: arguments).map Literal.source)).toList ++ [')'] =
      a.source.toList ++ closing arguments := by
  induction arguments generalizing a with
  | nil => simp [closing]
  | cons b arguments ih =>
    have h := ih b
    simp only [List.map_cons, String.intercalate_cons_cons, String.toList_append] at h ⊢
    rw [List.append_assoc, h]
    simp [closing]

theorem stops_closing (arguments : List Literal) (rest : List Char) :
    Stops Literal.plainChar (closing arguments ++ rest) := by
  cases arguments with
  | nil => exact stops_cons.mpr (by decide : Literal.plainChar ')' = false)
  | cons a arguments => exact stops_cons.mpr (by decide : Literal.plainChar ',' = false)

theorem closing_unique {as bs : List Literal} (has : ∀ a ∈ as, a.Issued) (hbs : ∀ b ∈ bs, b.Issued)
    (h : closing as ++ x = closing bs ++ y) : List.Forall₂ Literal.Same as bs ∧ x = y := by
  induction as generalizing bs with
  | nil =>
    cases bs with
    | nil => exact ⟨.nil, (List.cons.inj h).2⟩
    | cons b bs => exact absurd (List.cons.inj h).1 (by decide)
  | cons a as ih =>
    cases bs with
    | nil => exact absurd (List.cons.inj h).1 (by decide)
    | cons b bs =>
      simp only [List.forall_mem_cons] at has hbs
      have hrest : a.source.toList ++ (closing as ++ x) = b.source.toList ++ (closing bs ++ y) := by
        simpa [closing] using h
      obtain ⟨hab, htail⟩ := Literal.source_unique has.1 hbs.1 (stops_closing as x)
        (stops_closing bs y) hrest
      obtain ⟨hall, hxy⟩ := ih has.2 hbs.2 htail
      exact ⟨.cons hab hall, hxy⟩

theorem argumentsText_unique {as bs : List Literal} (has : ∀ a ∈ as, a.Issued)
    (hbs : ∀ b ∈ bs, b.Issued) (h : argumentsText as ++ x = argumentsText bs ++ y) :
    List.Forall₂ Literal.Same as bs ∧ x = y := by
  cases as with
  | nil =>
    cases bs with
    | nil => exact ⟨.nil, (List.cons.inj h).2⟩
    | cons b bs =>
      obtain ⟨c, cs, hs, hc⟩ := Literal.source_head (hbs b List.mem_cons_self)
      rw [argumentsText, argumentsText, hs] at h
      exact absurd (List.cons.inj h).1.symm hc
  | cons a as =>
    cases bs with
    | nil =>
      obtain ⟨c, cs, hs, hc⟩ := Literal.source_head (has a List.mem_cons_self)
      rw [argumentsText, argumentsText, hs] at h
      exact absurd (List.cons.inj h).1 hc
    | cons b bs =>
      simp only [List.forall_mem_cons] at has hbs
      rw [argumentsText, argumentsText, List.append_assoc, List.append_assoc] at h
      obtain ⟨hab, htail⟩ := Literal.source_unique has.1 hbs.1 (stops_closing as x)
        (stops_closing bs y) h
      obtain ⟨hall, hxy⟩ := closing_unique has.2 hbs.2 htail
      exact ⟨.cons hab hall, hxy⟩

end Statement

/-! ## Statements -/

def nameChar (c : Char) : Bool := c ≠ ' ' ∧ c ≠ '.' ∧ c ≠ '\n'

/-- What is needed of the name of a variable: every identifier is free of blanks and points. -/
def IsName (name : String) : Prop := name.toList.all nameChar = true

instance (name : String) : Decidable (IsName name) :=
  inferInstanceAs (Decidable (name.toList.all nameChar = true))

def IsWord (word : String) : Prop := word.toList.all Char.isAlpha = true

instance (word : String) : Decidable (IsWord word) :=
  inferInstanceAs (Decidable (word.toList.all Char.isAlpha = true))

theorem IsName.chars {name : String} (h : IsName name) : ∀ c ∈ name.toList, nameChar c = true :=
  List.all_eq_true.mp h

theorem IsWord.chars {word : String} (h : IsWord word) : ∀ c ∈ word.toList, c.isAlpha = true :=
  List.all_eq_true.mp h

theorem IsName.unique {n m : String} {c d : Char} (hn : IsName n) (hm : IsName m)
    (hc : nameChar c = false) (hd : nameChar d = false)
    (h : n.toList ++ c :: x = m.toList ++ d :: y) : n = m ∧ c = d ∧ x = y := by
  obtain ⟨hnm, hrest⟩ := delimited_unique hn.chars hm.chars hc hd h
  exact ⟨String.toList_inj.mp hnm, hrest⟩

theorem IsWord.unique {n m : String} {c d : Char} (hn : IsWord n) (hm : IsWord m)
    (hc : c.isAlpha = false) (hd : d.isAlpha = false)
    (h : n.toList ++ c :: x = m.toList ++ d :: y) : n = m ∧ c = d ∧ x = y := by
  obtain ⟨hnm, hrest⟩ := delimited_unique hn.chars hm.chars hc hd h
  exact ⟨String.toList_inj.mp hnm, hrest⟩

theorem isName_gradientName (k : Nat) : IsName (Script.gradientName k) := by
  refine List.all_eq_true.mpr ?_
  intro c hc
  have ha := Script.isAlphanum_of_mem_gradientName k c hc
  have hne : ∀ d : Char, d.isAlphanum = false → c ≠ d := by
    rintro d hd rfl
    rw [ha] at hd
    cases hd
  simp [nameChar, hne ' ' rfl, hne '.' rfl, hne '\n' rfl]

namespace Statement

def Issued : Statement → Prop
  | .call target method arguments => IsName target ∧ IsWord method ∧ ∀ a ∈ arguments, a.Issued
  | .assign target property value => IsName target ∧ IsWord property ∧ value.Issued
  | .declare name target method arguments =>
    IsName name ∧ IsName target ∧ IsWord method ∧ ∀ a ∈ arguments, a.Issued

def Same : Statement → Statement → Prop
  | .call target method arguments, .call target' method' arguments' =>
    target = target' ∧ method = method' ∧ List.Forall₂ Literal.Same arguments arguments'
  | .assign target property value, .assign target' property' value' =>
    target = target' ∧ property = property' ∧ value.Same value'
  | .declare name target method arguments, .declare name' target' method' arguments' =>
    name = name' ∧ target = target' ∧ method = method' ∧
      List.Forall₂ Literal.Same arguments arguments'
  | _, _ => False

def keyword : String := "const"

theorem isName_keyword : IsName keyword := by decide

def callText (target method : String) (arguments : List Literal) : List Char :=
  target.toList ++ '.' :: (method.toList ++ '(' :: argumentsText arguments)

def text : Statement → List Char
  | .call target method arguments => callText target method arguments
  | .assign target property value =>
    target.toList ++ '.' :: (property.toList ++ ' ' :: '=' :: ' ' :: value.source.toList)
  | .declare name target method arguments =>
    keyword.toList ++ ' ' :: (name.toList ++ ' ' :: '=' :: ' ' :: callText target method arguments)

theorem toList_callSource (target method : String) (arguments : List Literal) :
    (callSource target method arguments).toList = callText target method arguments := by
  cases arguments with
  | nil => simp [callSource, callText, argumentsText]
  | cons a arguments =>
    have h := toList_intercalate_source a arguments
    simp only [callSource, callText, argumentsText, String.toList_append, List.append_assoc] at h ⊢
    rw [← h]
    rfl

theorem toList_source (st : Statement) : st.source.toList = st.text ++ [';', '\n'] := by
  cases st with
  | call target method arguments => simp [source, text, toList_callSource]
  | assign target property value => simp [source, text]
  | declare name target method arguments => simp [source, text, toList_callSource, keyword]

theorem callText_unique {target target' method method' : String} {as bs : List Literal}
    (ha : Issued (.call target method as)) (hb : Issued (.call target' method' bs))
    (h : callText target method as ++ x = callText target' method' bs ++ y) :
    Same (.call target method as) (.call target' method' bs) ∧ x = y := by
  obtain ⟨hta, hma, has⟩ := ha
  obtain ⟨htb, hmb, hbs⟩ := hb
  simp only [callText, List.append_assoc, List.cons_append] at h
  obtain ⟨htarget, -, h⟩ := hta.unique htb rfl rfl h
  obtain ⟨hmethod, -, h⟩ := hma.unique hmb rfl rfl h
  obtain ⟨hall, hxy⟩ := argumentsText_unique has hbs h
  exact ⟨⟨htarget, hmethod, hall⟩, hxy⟩

/-- All statements but declarations begin with a name and a point. -/
theorem text_dotted {a : Statement} (ha : a.Issued) (hd : a.declared? = none) :
    ∃ target rest, IsName target ∧ a.text = target.toList ++ '.' :: rest := by
  cases a with
  | call target method arguments => exact ⟨target, _, ha.1, rfl⟩
  | assign target property value => exact ⟨target, _, ha.1, rfl⟩
  | declare name target method arguments => cases hd

/-- A name with a point after it is no name with a blank after it. -/
theorem dotted_ne_blank {a : Statement} (ha : a.Issued) (hd : a.declared? = none) {word : String}
    (hw : IsName word) : a.text ++ x ≠ word.toList ++ ' ' :: y := by
  intro h
  obtain ⟨target, rest, ht, htext⟩ := text_dotted ha hd
  rw [htext, List.append_assoc] at h
  obtain ⟨-, hmark, -⟩ := ht.unique hw rfl rfl h
  revert hmark
  decide

theorem text_ne_declare {a : Statement} {name target method : String} {arguments : List Literal}
    (ha : a.Issued) (hd : a.declared? = none) :
    a.text ++ x ≠ text (.declare name target method arguments) ++ y := by
  intro h
  simp only [text, List.append_assoc] at h
  exact dotted_ne_blank ha hd isName_keyword h

theorem call_ne_assign {target target' method property : String} {arguments : List Literal}
    {value : Literal} (ha : Issued (.call target method arguments))
    (hb : Issued (.assign target' property value)) :
    text (.call target method arguments) ++ x ≠ text (.assign target' property value) ++ y := by
  intro h
  simp only [text, callText, List.append_assoc, List.cons_append] at h
  obtain ⟨-, -, h⟩ := ha.1.unique hb.1 rfl rfl h
  obtain ⟨-, hmark, -⟩ := ha.2.1.unique hb.2.1 rfl rfl h
  revert hmark
  decide

/-- A statement is read back up to how its numbers are written, whatever follows it. -/
theorem source_unique {a b : Statement} (ha : a.Issued) (hb : b.Issued)
    (h : a.source.toList ++ x = b.source.toList ++ y) : a.Same b ∧ x = y := by
  have hends : ∀ z : List Char, Stops Literal.plainChar ([';', '\n'] ++ z) := by
    intro z
    exact stops_cons.mpr (by decide : Literal.plainChar ';' = false)
  simp only [toList_source, List.append_assoc] at h
  suffices hsame : a.Same b ∧ [';', '\n'] ++ x = [';', '\n'] ++ y by
    exact ⟨hsame.1, List.append_cancel_left hsame.2⟩
  -- The mark after the first name, or after the method, tells the three forms apart.
  cases a with
  | call target method arguments =>
    cases b with
    | call target' method' arguments' => exact callText_unique ha hb h
    | assign target' property value => exact absurd h (call_ne_assign ha hb)
    | declare name target' method' arguments' => exact absurd h (text_ne_declare ha rfl)
  | assign target property value =>
    cases b with
    | call target' method' arguments' => exact absurd h.symm (call_ne_assign hb ha)
    | assign target' property' value' =>
      simp only [text, List.append_assoc, List.cons_append] at h
      obtain ⟨htarget, -, h⟩ := ha.1.unique hb.1 rfl rfl h
      obtain ⟨hproperty, -, h⟩ := ha.2.1.unique hb.2.1 rfl rfl h
      have hvalues := (List.cons.inj (List.cons.inj h).2).2
      obtain ⟨hvalue, hxy⟩ := Literal.source_unique ha.2.2 hb.2.2 (hends x) (hends y) hvalues
      exact ⟨⟨htarget, hproperty, hvalue⟩, hxy⟩
    | declare name target' method' arguments' => exact absurd h (text_ne_declare ha rfl)
  | declare name target method arguments =>
    cases b with
    | call target' method' arguments' => exact absurd h.symm (text_ne_declare hb rfl)
    | assign target' property value => exact absurd h.symm (text_ne_declare hb rfl)
    | declare name' target' method' arguments' =>
      simp only [text, List.append_assoc, List.cons_append] at h
      have hnames := (List.cons.inj (List.append_cancel_left h)).2
      obtain ⟨hname, -, h⟩ := ha.1.unique hb.1 rfl rfl hnames
      have hcalls := (List.cons.inj (List.cons.inj h).2).2
      obtain ⟨hcall, hxy⟩ := callText_unique ha.2 hb.2 hcalls
      exact ⟨⟨hname, hcall⟩, hxy⟩

/-! ## Lines -/

theorem newline_not_mem_name {name : String} (h : IsName name) : '\n' ∉ name.toList := by
  intro hn
  cases h.chars _ hn

theorem newline_not_mem_word {word : String} (h : IsWord word) : '\n' ∉ word.toList := by
  intro hn
  cases h.chars _ hn

theorem newline_not_mem_closing {arguments : List Literal} (h : ∀ a ∈ arguments, a.Issued) :
    '\n' ∉ closing arguments := by
  intro hn
  rcases List.mem_append.mp hn with hn | hn
  · obtain ⟨a, ha, hn⟩ := List.mem_flatMap.mp hn
    simp only [List.mem_cons, Char.reduceEq, false_or] at hn
    exact Literal.newline_not_mem_source (h a ha) hn
  · revert hn
    decide

theorem newline_not_mem_argumentsText {arguments : List Literal}
    (h : ∀ a ∈ arguments, a.Issued) : '\n' ∉ argumentsText arguments := by
  cases arguments with
  | nil => decide
  | cons a as =>
    simp only [List.forall_mem_cons] at h
    rw [argumentsText, List.mem_append, not_or]
    exact ⟨Literal.newline_not_mem_source h.1, newline_not_mem_closing h.2⟩

theorem newline_not_mem_callText {target method : String} {arguments : List Literal}
    (h : Issued (.call target method arguments)) : '\n' ∉ callText target method arguments := by
  obtain ⟨ht, hm, ha⟩ := h
  simp [callText, newline_not_mem_name ht, newline_not_mem_word hm,
    newline_not_mem_argumentsText ha]

theorem newline_not_mem_text {a : Statement} (ha : a.Issued) : '\n' ∉ a.text := by
  cases a with
  | call target method arguments => exact newline_not_mem_callText ha
  | assign target property value =>
    obtain ⟨ht, hp, hv⟩ := ha
    simp [text, newline_not_mem_name ht, newline_not_mem_word hp, Literal.newline_not_mem_source hv]
  | declare name target method arguments =>
    simp [text, newline_not_mem_name isName_keyword, newline_not_mem_name ha.1,
      newline_not_mem_callText ha.2]

/-- A statement is one line. -/
theorem source_line {a : Statement} (ha : a.Issued) :
    ∃ line, a.source.toList = line ++ ['\n'] ∧ '\n' ∉ line := by
  refine ⟨a.text ++ [';'], by simp [toList_source], ?_⟩
  simp [newline_not_mem_text ha]

end Statement

end SvgDraw
