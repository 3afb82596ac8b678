/-
  SvgDraw.Proofs.Path.Grammar — the grammar of path data, and that the tokenizer accepts exactly
  it.

  `PathData tokens cs` derives the text `cs` and the tokens it stands for: commands with blanks
  around them, each a letter followed by as many numerals as the command takes (`Arguments`).
  What a numeral is depends on what follows it, so the derivations of numerals carry the rest of
  the text along. Every numeral has a value (`read?_isSome_iff`), so asking for the values leaves
  no text out.

  `scan_sound` and `scan_complete` follow the recursion of the scanner and the derivation;
  together they give `tokenize_eq_ok_iff`. Since the tokenizer is a function, a text has at most
  one derivation's tokens, whatever the separators are taken to belong to.
-/

import Mathlib.Data.List.Forall2
import SvgDraw.Proofs.Path.Numeral

namespace SvgDraw

/-! ## The grammar -/

/-- The numerals `texts` stand at the beginning of `cs` and `rest` follows them. The first is
    behind a gap in `lead`, the others are behind separators. -/
inductive Arguments : (List Char → Prop) → List (List Char) → List Char → List Char → Prop
  | nil {lead : List Char → Prop} {rest : List Char} : Arguments lead [] rest rest
  | cons {lead : List Char → Prop} {gap text cs rest : List Char} {texts : List (List Char)} :
      lead gap → IsNumeral text → Ends text cs → Arguments IsSeparator texts cs rest →
      Arguments lead (text :: texts) (gap ++ (text ++ cs)) rest

/-- The letter stands for the command. Closing has a letter in either case. -/
def Spells (letter : Char) (command : Command) : Prop :=
  letter = command.letter ∨ letter = 'Z' ∧ command = .close

/-- The text is a sequence of commands with blanks around them, and these are their tokens. -/
inductive PathData : List Token → List Char → Prop
  | done : PathData [] []
  | blank {c : Char} {cs : List Char} {tokens : List Token} :
      isBlank c = true → PathData tokens cs → PathData tokens (c :: cs)
  | command {letter : Char} {command : Command} {texts : List (List Char)} {values : List Float}
      {cs rest : List Char} {tokens : List Token} :
      Spells letter command → texts.length = command.arity → Arguments Blanks texts cs rest →
      List.Forall₂ (Number.read? · = some ·) texts values → PathData tokens rest →
      PathData (⟨command, values⟩ :: tokens) (letter :: cs)

/-! ## Letters -/

theorem ofLetter?_eq_some_iff {letter : Char} {command : Command} :
    Command.ofLetter? letter = some command ↔ Spells letter command := by
  constructor
  · intro h
    unfold Command.ofLetter? at h
    split at h
    all_goals cases h
    all_goals simp [Spells, Command.letter]
  · rintro (rfl | ⟨rfl, rfl⟩)
    · exact Command.ofLetter?_letter command
    · rfl

theorem Spells.not_blank {letter : Char} {command : Command} (h : Spells letter command) :
    isBlank letter = false := by
  rcases h with rfl | ⟨rfl, rfl⟩
  · rcases command with (_ | _) | (_ | _) | (_ | _) | (_ | _) | (_ | _) | _ <;> decide
  · decide

/-! ## Numerals of a command -/

namespace Cursor

variable {n : Nat} {c d : Cursor} {as : List Numeral} {texts : List (List Char)}
  {values : List Float} {cs rest : List Char}

theorem numerals_succ_eq_ok_iff :
    c.numerals (n + 1) = .ok (as, d) ↔
      ∃ a m more, c.numeral = .ok (a, m) ∧ m.moreNumerals n = .ok (more, d) ∧ as = a :: more := by
  simp only [numerals]
  constructor
  · intro h
    split at h
    · cases h
    · rename_i a m hf
      split at h
      · cases h
      · rename_i more e hm
        cases h
        exact ⟨a, m, more, hf, hm, rfl⟩
  · rintro ⟨a, m, more, hf, hm, rfl⟩
    simp only [hf, hm]

/-- More numerals are numerals that begin behind a separator. -/
theorem moreNumerals_succ_eq_ok_iff :
    c.moreNumerals (n + 1) = .ok (as, d) ↔
      ∃ a m more, c.skipSeparator.numeral = .ok (a, m) ∧ m.moreNumerals n = .ok (more, d) ∧
        as = a :: more :=
  numerals_succ_eq_ok_iff (c := c.skipSeparator)

structure Read (lead : List Char → Prop) (n : Nat) (c : Cursor) (as : List Numeral) (d : Cursor) :
    Prop where
  length : (as.map Numeral.text).length = n
  arguments : Arguments lead (as.map Numeral.text) c.rest d.rest
  values : List.Forall₂ (Number.read? · = some ·) (as.map Numeral.text) (as.map Numeral.value)

theorem Read.zero (lead : List Char → Prop) (c : Cursor) : Read lead 0 c [] c :=
  ⟨rfl, .nil, .nil⟩

theorem Read.succ {lead : List Char → Prop} {gap : List Char} {a : Numeral} {m : Cursor}
    (hg : lead gap) (ha : Stands gap c a m) (h : Read IsSeparator n m as d) :
    Read lead (n + 1) c (a :: as) d where
  length := by simpa using h.length
  arguments := by
    rw [ha.text]
    exact .cons hg ha.numeral ha.ends h.arguments
  values := .cons ha.value h.values

theorem moreNumerals_sound (h : c.moreNumerals n = .ok (as, d)) : Read IsSeparator n c as d := by
  induction n generalizing c as with
  | zero =>
    cases h
    exact .zero _ _
  | succ n ih =>
    obtain ⟨a, m, more, hf, hm, rfl⟩ := moreNumerals_succ_eq_ok_iff.mp h
    obtain ⟨gap, hg, ha⟩ := separated_sound hf
    exact .succ hg ha (ih hm)

theorem numerals_sound (h : c.numerals n = .ok (as, d)) : Read Blanks n c as d := by
  cases n with
  | zero =>
    cases h
    exact .zero _ _
  | succ n =>
    obtain ⟨a, m, more, hf, hm, rfl⟩ := numerals_succ_eq_ok_iff.mp h
    obtain ⟨gap, hg, ha⟩ := numeral_sound hf
    exact .succ hg ha (moreNumerals_sound hm)

theorem moreNumerals_complete (h : Arguments IsSeparator texts cs rest)
    (hv : List.Forall₂ (Number.read? · = some ·) texts values) (offset : Nat) :
    ∃ as d, (⟨offset, cs⟩ : Cursor).moreNumerals texts.length = .ok (as, d) ∧ d.rest = rest ∧
      as.map Numeral.value = values := by
  induction hv generalizing cs offset with
  | nil =>
    cases h
    exact ⟨[], _, rfl, rfl, rfl⟩
  | @cons text value texts values hvalue _ ih =>
    cases h with
    | @cons _ gap _ cs _ _ hg hn he hargs =>
      obtain ⟨more, d, hm, hd, hmore⟩ := ih hargs (offset + byteLength gap + byteLength text)
      refine ⟨⟨offset + byteLength gap, text, value⟩ :: more, d, ?_, hd, by simp [hmore]⟩
      exact moreNumerals_succ_eq_ok_iff.mpr
        ⟨_, _, more, separated_complete hg ⟨hn, he, hvalue, rfl, rfl, rfl⟩, hm, rfl⟩

theorem numerals_complete (h : Arguments Blanks texts cs rest)
    (hv : List.Forall₂ (Number.read? · = some ·) texts values) (offset : Nat) :
    ∃ as d, (⟨offset, cs⟩ : Cursor).numerals texts.length = .ok (as, d) ∧ d.rest = rest ∧
      as.map Numeral.value = values := by
  cases hv with
  | nil =>
    cases h
    exact ⟨[], _, rfl, rfl, rfl⟩
  | @cons text value texts values hvalue hvalues =>
    cases h with
    | @cons _ gap _ cs _ _ hg hn he hargs =>
      obtain ⟨more, d, hm, hd, hmore⟩ :=
        moreNumerals_complete hargs hvalues (offset + byteLength gap + byteLength text)
      refine ⟨⟨offset + byteLength gap, text, value⟩ :: more, d, ?_, hd, by simp [hmore]⟩
      exact numerals_succ_eq_ok_iff.mpr
        ⟨_, _, more, numeral_complete hg ⟨hn, he, hvalue, rfl, rfl, rfl⟩, hm, rfl⟩

/-! ## Commands -/

theorem scan_nil (position : Nat) : (⟨position, []⟩ : Cursor).scan = ⟨[], none⟩ := by
  rw [scan]

theorem scan_blank {position : Nat} {ch : Char} {cs : List Char} (h : isBlank ch = true) :
    (⟨position, ch :: cs⟩ : Cursor).scan = (⟨position + ch.utf8Size, cs⟩ : Cursor).scan := by
  rw [scan, if_pos h]

theorem scan_command {position : Nat} {letter : Char} {cs : List Char} {command : Command}
    {after : Cursor} (hl : Spells letter command)
    (h : (⟨position + letter.utf8Size, cs⟩ : Cursor).numerals command.arity = .ok (as, after)) :
    (⟨position, letter :: cs⟩ : Cursor).scan = .cons ⟨position, command, as⟩ after.scan := by
  rw [scan, if_neg (by simp [hl.not_blank]), ofLetter?_eq_some_iff.mpr hl]
  simp only
  split
  · rename_i e he
    rw [h] at he
    cases he
  · rename_i bs d he
    rw [h] at he
    cases he
    rfl

/-- What is read to the end is derived by the grammar. -/
theorem scan_sound (c : Cursor) (h : c.scan.error = none) :
    PathData (c.scan.commands.map Placed.token) c.rest := by
  fun_induction scan c with
  | case1 => exact .done
  | case2 position ch rest next hb ih => exact .blank hb (ih h)
  | case3 => cases h
  | case4 => cases h
  | case5 position letter rest next hb command hl as after hn _ ih =>
    have hread := numerals_sound hn
    exact .command (ofLetter?_eq_some_iff.mp hl) hread.length hread.arguments hread.values (ih h)

/-- What the grammar derives is read to the end. -/
theorem scan_complete {tokens : List Token} {cs : List Char} (h : PathData tokens cs)
    (position : Nat) :
    (⟨position, cs⟩ : Cursor).scan.error = none ∧
      (⟨position, cs⟩ : Cursor).scan.commands.map Placed.token = tokens := by
  induction h generalizing position with
  | done => simp [scan_nil]
  | blank hb _ ih =>
    rw [scan_blank hb]
    exact ih _
  | @command letter command texts values cs rest tokens hl hlen hargs hvalues _ ih =>
    obtain ⟨as, ⟨offset, after⟩, hn, rfl, has⟩ :=
      numerals_complete hargs hvalues (position + letter.utf8Size)
    rw [hlen] at hn
    rw [scan_command hl hn]
    exact ⟨(ih offset).1, by simp [Scan.cons, Placed.token, has, (ih offset).2]⟩

end Cursor

/-- Path data is tokenized exactly if the grammar derives it, and the tokens are those of the
    derivation. -/
theorem tokenize_eq_ok_iff (data : String) (tokens : List Token) :
    tokenize data = .ok tokens ↔ PathData tokens data.toList := by
  simp only [tokenize, scan]
  constructor
  · intro h
    split at h
    · cases h
    · rename_i he
      cases h
      exact (Cursor.start data.toList).scan_sound he
  · intro h
    obtain ⟨he, ht⟩ := Cursor.scan_complete h 0
    simp only [Cursor.start, he, ht]

end SvgDraw
