/-
  SvgDraw.Proofs.Path.Progress — how far path data is read, and what that depends on.

  `Passes c commands d` says that `commands` are read on the way from `c` to `d`. Every scan passes
  some commands and then is over: at the end, at a character that belongs to no command, or at a
  command whose numerals are not all there (`scan_cases`).

  Of what follows the place that was reached only the first character was looked at, and only to
  see whether the last numeral goes on. So the rest may be replaced by one that begins the same
  way, by one that no numeral goes on with, or by nothing (`Substitute`), and reading still gets
  to that place (`Passes.replace`).
-/

import SvgDraw.Proofs.Path.Grammar

namespace SvgDraw

variable {rest rest' text : List Char}

/-! ## What may follow -/

/-- No numeral that ends before `rest` goes on in `rest'`. -/
def Substitute (rest rest' : List Char) : Prop :=
  ∀ c ∈ rest'.head?, c ∈ rest.head? ∨ (c.isDigit = false ∧ c ≠ '.')

theorem substitute_nil (rest : List Char) : Substitute rest [] := by
  intro c hc
  cases hc

theorem substitute_cons (c : Char) (rest rest' : List Char) :
    Substitute (c :: rest) (c :: rest') :=
  fun _ hd => .inl hd

theorem Substitute.append (h : Substitute rest rest') (text : List Char) :
    Substitute (text ++ rest) (text ++ rest') := by
  cases text with
  | nil => exact h
  | cons c text => exact substitute_cons c _ _

theorem Ends.replace (h : Ends text rest) (hs : Substitute rest rest') : Ends text rest' := by
  intro c hc
  rcases hs c hc with hmem | ⟨hdigit, hpoint⟩
  · exact h c hmem
  · exact ⟨hdigit, fun he => absurd he hpoint⟩

/-! ## Numerals in a row -/

structure Behind (text : List Char) (c d : Cursor) : Prop where
  rest : c.rest = text ++ d.rest
  offset : d.offset = c.offset + byteLength text

theorem behind_nil (c : Cursor) : Behind [] c c := ⟨rfl, rfl⟩

theorem Behind.trans {more : List Char} {c m d : Cursor} (h : Behind text c m)
    (hm : Behind more m d) : Behind (text ++ more) c d where
  rest := by rw [h.rest, hm.rest, List.append_assoc]
  offset := by rw [hm.offset, h.offset, byteLength_append, Nat.add_assoc]

theorem Behind.eq_of_rest {more : List Char} {c d : Cursor} (h : Behind text c d)
    (hr : c.rest = more ++ d.rest) : more = text :=
  List.append_cancel_right (hr.symm.trans h.rest)

theorem Stands.behind {gap : List Char} {c d : Cursor} {a : Numeral} (h : Stands gap c a d) :
    Behind (gap ++ a.text) c d where
  rest := by rw [h.text, List.append_assoc]
  offset := by rw [h.offset, h.start, byteLength_append, Nat.add_assoc]

theorem Stands.replace {gap : List Char} {c d : Cursor} {a : Numeral} (h : Stands gap c a d)
    (hs : Substitute d.rest rest') :
    Stands gap ⟨c.offset, gap ++ a.text ++ rest'⟩ a ⟨d.offset, rest'⟩ where
  numeral := h.numeral
  ends := h.ends.replace hs
  value := h.value
  text := List.append_assoc ..
  start := h.start
  offset := h.offset

/-- The numerals `as` stand between `c` and `d`. The first is behind a gap in `lead`, the others
    are behind separators. -/
inductive Row : (List Char → Prop) → Cursor → List Numeral → Cursor → Prop
  | nil {lead : List Char → Prop} {c : Cursor} : Row lead c [] c
  | cons {lead : List Char → Prop} {gap : List Char} {c m d : Cursor} {a : Numeral}
      {as : List Numeral} : lead gap → Stands gap c a m → Row IsSeparator m as d →
      Row lead c (a :: as) d

namespace Row

variable {lead : List Char → Prop} {c d : Cursor} {as : List Numeral}

theorem behind (h : Row lead c as d) : ∃ text, Behind text c d := by
  induction h with
  | nil => exact ⟨[], behind_nil _⟩
  | cons _ ha _ ih =>
    obtain ⟨text, hb⟩ := ih
    exact ⟨_, ha.behind.trans hb⟩

/-- A row of numerals stays one when what follows it is replaced. -/
theorem replace (h : Row lead c as d) (hc : c.rest = text ++ d.rest)
    (hs : Substitute d.rest rest') : Row lead ⟨c.offset, text ++ rest'⟩ as ⟨d.offset, rest'⟩ := by
  induction h generalizing text with
  | nil =>
    obtain rfl := (behind_nil _).eq_of_rest hc
    exact .nil
  | cons hg ha hrow ih =>
    obtain ⟨more, hb⟩ := hrow.behind
    obtain rfl := (ha.behind.trans hb).eq_of_rest hc
    have hnext := hs.append more
    rw [← hb.rest] at hnext
    rw [List.append_assoc]
    exact .cons hg (ha.replace hnext) (ih hb.rest hs)

end Row

section Length

variable {lead : List Char → Prop} {n : Nat} {c d : Cursor} {as : List Numeral}

theorem row_zero_iff : (as.length = 0 ∧ Row lead c as d) ↔ as = [] ∧ c = d := by
  constructor
  · rintro ⟨hlen, hrow⟩
    cases hrow with
    | nil => exact ⟨rfl, rfl⟩
    | cons _ _ _ => cases hlen
  · rintro ⟨rfl, rfl⟩
    exact ⟨rfl, .nil⟩

theorem row_succ_iff :
    (as.length = n + 1 ∧ Row lead c as d) ↔
      ∃ gap a m more, lead gap ∧ Stands gap c a m ∧
        (more.length = n ∧ Row IsSeparator m more d) ∧ as = a :: more := by
  constructor
  · rintro ⟨hlen, hrow⟩
    cases hrow with
    | nil => cases hlen
    | cons hg ha hrow => exact ⟨_, _, _, _, hg, ha, ⟨Nat.succ.inj hlen, hrow⟩, rfl⟩
  · rintro ⟨gap, a, m, more, hg, ha, ⟨rfl, hrow⟩, rfl⟩
    exact ⟨rfl, .cons hg ha hrow⟩

end Length

namespace Cursor

variable {n : Nat} {c d : Cursor} {as : List Numeral}

theorem moreNumerals_eq_ok_iff :
    c.moreNumerals n = .ok (as, d) ↔ as.length = n ∧ Row IsSeparator c as d := by
  induction n generalizing c as with
  | zero =>
    rw [row_zero_iff]
    simp [moreNumerals, eq_comm]
  | succ n ih =>
    rw [moreNumerals_succ_eq_ok_iff, row_succ_iff]
    constructor
    · rintro ⟨a, m, more, ha, hm, rfl⟩
      obtain ⟨gap, hg, hstands⟩ := separated_sound ha
      exact ⟨gap, a, m, more, hg, hstands, ih.mp hm, rfl⟩
    · rintro ⟨gap, a, m, more, hg, hstands, hrow, rfl⟩
      exact ⟨a, m, more, separated_complete hg hstands, ih.mpr hrow, rfl⟩

/-- Numerals are read exactly where so many of them stand in a row. -/
theorem numerals_eq_ok_iff :
    c.numerals n = .ok (as, d) ↔ as.length = n ∧ Row Blanks c as d := by
  cases n with
  | zero =>
    rw [row_zero_iff]
    simp [numerals, eq_comm]
  | succ n =>
    rw [numerals_succ_eq_ok_iff, row_succ_iff]
    constructor
    · rintro ⟨a, m, more, ha, hm, rfl⟩
      obtain ⟨gap, hg, hstands⟩ := numeral_sound ha
      exact ⟨gap, a, m, more, hg, hstands, moreNumerals_eq_ok_iff.mp hm, rfl⟩
    · rintro ⟨gap, a, m, more, hg, hstands, hrow, rfl⟩
      exact ⟨a, m, more, numeral_complete hg hstands, moreNumerals_eq_ok_iff.mpr hrow, rfl⟩

end Cursor

/-! ## Commands -/

/-- The commands `ps` are read on the way from one place to another. -/
inductive Passes : Cursor → List Placed → Cursor → Prop
  | here {c : Cursor} : Passes c [] c
  | blank {o : Nat} {ch : Char} {cs : List Char} {ps : List Placed} {d : Cursor} :
      isBlank ch = true → Passes ⟨o + ch.utf8Size, cs⟩ ps d → Passes ⟨o, ch :: cs⟩ ps d
  | command {o : Nat} {letter : Char} {cs : List Char} {command : Command} {as : List Numeral}
      {m : Cursor} {ps : List Placed} {d : Cursor} :
      Spells letter command → as.length = command.arity →
      Row Blanks ⟨o + letter.utf8Size, cs⟩ as m → Passes m ps d →
      Passes ⟨o, letter :: cs⟩ (⟨o, command, as⟩ :: ps) d

def Scan.after (ps : List Placed) (s : Scan) : Scan :=
  { s with commands := ps ++ s.commands }

theorem behind_char (o : Nat) (ch : Char) (cs : List Char) :
    Behind [ch] ⟨o, ch :: cs⟩ ⟨o + ch.utf8Size, cs⟩ := ⟨rfl, rfl⟩

namespace Passes

variable {c d : Cursor} {ps : List Placed}

theorem behind (h : Passes c ps d) : ∃ text, Behind text c d := by
  induction h with
  | here => exact ⟨[], behind_nil _⟩
  | blank _ _ ih =>
    obtain ⟨text, hb⟩ := ih
    exact ⟨_, (behind_char _ _ _).trans hb⟩
  | command _ _ hrow _ ih =>
    obtain ⟨body, hr⟩ := hrow.behind
    obtain ⟨text, hb⟩ := ih
    exact ⟨_, (behind_char _ _ _).trans (hr.trans hb)⟩

/-- The same commands are read when what follows the place that is reached is replaced. -/
theorem replace (h : Passes c ps d) (hc : c.rest = text ++ d.rest)
    (hs : Substitute d.rest rest') : Passes ⟨c.offset, text ++ rest'⟩ ps ⟨d.offset, rest'⟩ := by
  induction h generalizing text with
  | here =>
    obtain rfl := (behind_nil _).eq_of_rest hc
    exact .here
  | blank hblank hpasses ih =>
    obtain ⟨more, hb⟩ := hpasses.behind
    obtain rfl := ((behind_char _ _ _).trans hb).eq_of_rest hc
    exact .blank hblank (ih hb.rest hs)
  | command hl hlen hrow hpasses ih =>
    obtain ⟨body, hr⟩ := hrow.behind
    obtain ⟨more, hb⟩ := hpasses.behind
    obtain rfl := ((behind_char _ _ _).trans (hr.trans hb)).eq_of_rest hc
    have hnext := hs.append more
    rw [← hb.rest] at hnext
    rw [List.singleton_append, List.cons_append, List.append_assoc]
    exact .command hl hlen (hrow.replace hr.rest hnext) (ih hb.rest hs)

/-- A scan goes on from any place that it passes. -/
theorem scan_eq (h : Passes c ps d) : c.scan = d.scan.after ps := by
  induction h with
  | here => rfl
  | blank hb _ ih => rw [Cursor.scan_blank hb, ih]
  | command hl hlen hrow _ ih =>
    rw [Cursor.scan_command hl (Cursor.numerals_eq_ok_iff.mpr ⟨hlen, hrow⟩), ih]
    rfl

end Passes

/-! ## Where a scan is over -/

/-- The scan from `d` reads nothing and ends with `error`. -/
inductive Halts : Cursor → Option LexError → Prop
  | done {o : Nat} : Halts ⟨o, []⟩ none
  | character {o : Nat} {ch : Char} {cs : List Char} :
      isBlank ch = false → Command.ofLetter? ch = none →
      Halts ⟨o, ch :: cs⟩ (some ⟨.unexpectedCharacter ch, o⟩)
  | numeral {o : Nat} {letter : Char} {cs : List Char} {command : Command} {e : LexError} :
      Spells letter command →
      (⟨o + letter.utf8Size, cs⟩ : Cursor).numerals command.arity = .error e →
      Halts ⟨o, letter :: cs⟩ (some e)

theorem Halts.scan_eq {d : Cursor} {error : Option LexError} (h : Halts d error) :
    d.scan = ⟨[], error⟩ := by
  cases h with
  | done => exact Cursor.scan_nil _
  | character hb hl => rw [Cursor.scan, if_neg (by simp [hb]), hl]
  | numeral hl hn =>
    rw [Cursor.scan, if_neg (by simp [hl.not_blank]), ofLetter?_eq_some_iff.mpr hl]
    simp only
    split
    · rename_i e he
      rw [hn] at he
      cases he
      rfl
    · rename_i as after he
      rw [hn] at he
      cases he

/-- A scan that passes commands up to a place where it is over reads just these. -/
theorem Passes.scan_of_halts {c d : Cursor} {ps : List Placed} {error : Option LexError}
    (h : Passes c ps d) (hh : Halts d error) : c.scan = ⟨ps, error⟩ := by
  rw [h.scan_eq, hh.scan_eq, Scan.after, List.append_nil]

/-- Every scan passes commands up to a place where it is over. -/
theorem Cursor.scan_cases (c : Cursor) :
    ∃ d, Passes c c.scan.commands d ∧ Halts d c.scan.error := by
  fun_induction Cursor.scan c with
  | case1 position => exact ⟨_, .here, .done⟩
  | case2 position ch rest next hb ih =>
    obtain ⟨d, hp, hh⟩ := ih
    exact ⟨d, .blank hb hp, hh⟩
  | case3 position ch rest hb hl => exact ⟨_, .here, .character (by simpa using hb) hl⟩
  | case4 position ch rest next hb command hl e hn =>
    exact ⟨_, .here, .numeral (ofLetter?_eq_some_iff.mp hl) hn⟩
  | case5 position ch rest next hb command hl as after hn _ ih =>
    obtain ⟨d, hp, hh⟩ := ih
    obtain ⟨hlen, hrow⟩ := Cursor.numerals_eq_ok_iff.mp hn
    exact ⟨d, .command (ofLetter?_eq_some_iff.mp hl) hlen hrow hp, hh⟩

/-! ## Tokens -/

def Scan.result (s : Scan) : Except LexError (List Token) :=
  match s.error with
  | some e => .error e
  | none => .ok (s.commands.map Placed.token)

theorem tokenize_eq_result (data : String) : tokenize data = (scan data).result := rfl

theorem tokenize_eq_error_iff {data : String} {e : LexError} :
    tokenize data = .error e ↔ (scan data).error = some e := by
  rw [tokenize_eq_result, Scan.result]
  cases (scan data).error with
  | none => simp
  | some e' => simp

theorem exists_tokenize_eq_ok_iff {data : String} :
    (∃ tokens, tokenize data = .ok tokens) ↔ (scan data).error = none := by
  rw [tokenize_eq_result, Scan.result]
  cases (scan data).error with
  | none => simp
  | some e => simp

theorem byteLength_toList (s : String) : byteLength s.toList = s.utf8ByteSize := by
  rw [← String.ofList_toList (s := s)]
  generalize s.toList = cs
  induction cs with
  | nil => simp
  | cons c cs ih =>
    simp only [String.toList_ofList, String.ofList_cons] at ih ⊢
    simpa using ih

end SvgDraw
