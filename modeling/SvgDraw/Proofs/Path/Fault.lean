/-
  SvgDraw.Proofs.Path.Fault — where path data that cannot be read is at fault.

  The position of an error splits the data in two. What is before it decides, together with the
  character at it, that reading stops there and why:

  - At a character that belongs to no command, what is before it is path data on its own, and
    whatever is put behind the character, the error is the same.
  - At a missing numeral, what is before it already has that error, and what follows begins with
    no numeral (`NoNumeral`): with no digit, not even behind a minus sign and a point.

  Numerals that are read before the error are read from the first part alone (`Stands.replace`),
  so the error is carried back over them to the letter of the command (`FailsAt.back`,
  `numerals_fails`) and over the commands before it (`Passes.replace`). The result is
  `tokenize_error_place`.
-/

import SvgDraw.Proofs.Path.Progress

namespace SvgDraw

/-! ## Where no numeral begins -/

def dropLeading (c : Char) : List Char → List Char
  | [] => []
  | d :: cs => if d = c then cs else d :: cs

/-- There is no blank to skip, and no digit behind an optional minus sign and an optional point. -/
structure NoNumeral (rest : List Char) : Prop where
  blank : Stops isBlank rest
  digit : Stops Char.isDigit (dropLeading '.' (dropLeading '-' rest))

theorem splitMinus_snd (cs : List Char) : (splitMinus cs).2 = dropLeading '-' cs := by
  cases cs with
  | nil => rfl
  | cons c cs =>
    by_cases h : c = '-'
    · subst h
      rfl
    · have hne : ∀ d ∈ (c :: cs).head?, d ≠ '-' := by
        rintro d hd rfl
        exact h (Option.some.inj hd)
      rw [splitMinus_of_ne hne, dropLeading, if_neg h]

/-- A digit that stands first, or behind a point that stands first, is split off. -/
theorem mem_splitDigits {cs : List Char} {c : Char} (hc : c ∈ (dropLeading '.' cs).head?)
    (hd : c.isDigit = true) : c ∈ (splitDigits cs).1 := by
  have head {ds : List Char} (h : c ∈ ds.head?) : c ∈ ds.takeWhile Char.isDigit := by
    obtain ⟨more, rfl⟩ := List.head?_eq_some_iff.mp (Option.mem_def.mp h)
    rw [List.takeWhile_cons_of_pos hd]
    exact List.mem_cons_self
  cases cs with
  | nil => cases hc
  | cons first cs =>
    by_cases hp : first = '.'
    · subst hp
      rw [dropLeading, if_pos rfl] at hc
      exact List.mem_cons_of_mem _ (head hc)
    · rw [dropLeading, if_neg hp] at hc
      unfold splitDigits
      split
      · exact List.mem_append_left _ (head hc)
      · exact head hc

theorem noNumeral_of_read? {cs : List Char} (hb : Stops isBlank cs)
    (hr : Number.read? (splitNumeral cs).1 = none) : NoNumeral cs where
  blank := hb
  digit := by
    intro c hc
    rw [Bool.eq_false_iff]
    intro hd
    have hmem : c ∈ (splitNumeral cs).1 := by
      rw [← splitMinus_snd] at hc
      exact List.mem_append_right _ (mem_splitDigits hc hd)
    have hsome := (read?_isSome_iff (splitNumeral_sound cs).2.1).mpr ⟨c, hmem, hd⟩
    rw [hr] at hsome
    cases hsome

/-! ## Numerals that are missing -/

/-- Reading from `c` on fails at a place where no numeral begins, and so it does if the text ends
    there. -/
def FailsAt {α : Type} (read : Cursor → Except LexError α) (c : Cursor) (e : LexError) : Prop :=
  ∃ text d, Behind text c d ∧ e = ⟨.invalidNumber, d.offset⟩ ∧ NoNumeral d.rest ∧
    read ⟨c.offset, text⟩ = .error e

theorem substitute_self_nil {text rest : List Char} : Substitute (text ++ rest) text := by
  have h := (substitute_nil rest).append text
  rwa [List.append_nil] at h

/-- A numeral that is read before the failure is read as well if the text ends there. -/
theorem FailsAt.back {α β : Type} {read : Cursor → Except LexError α}
    {read' : Cursor → Except LexError β} {gap : List Char} {c m : Cursor} {a : Numeral}
    {e : LexError} (ha : Stands gap c a m) (h : FailsAt read m e)
    (hstep : ∀ c' m', Stands gap c' a m' → read m' = .error e → read' c' = .error e) :
    FailsAt read' c e := by
  obtain ⟨text, d, hb, he, hn, hread⟩ := h
  refine ⟨gap ++ a.text ++ text, d, ha.behind.trans hb, he, hn, ?_⟩
  have hs : Substitute m.rest text := by
    rw [hb.rest]
    exact substitute_self_nil
  exact hstep _ _ (ha.replace hs) hread

namespace Cursor

variable {n : Nat} {c : Cursor} {e : LexError}

theorem numeral_of_blanks {gap : List Char} (hg : Blanks gap) (o : Nat) :
    (⟨o, gap⟩ : Cursor).numeral = .error ⟨.invalidNumber, o + byteLength gap⟩ := by
  have hskip : (⟨o, gap⟩ : Cursor).skipBlanks = ⟨o + byteLength gap, []⟩ :=
    skipBlanks_eq hg stops_nil (List.append_nil gap).symm
  have hread : Number.read? (splitNumeral []).1 = none := rfl
  simp only [numeral, hskip, hread]

theorem separated_of_separator {gap : List Char} (hg : IsSeparator gap) (o : Nat) :
    (⟨o, gap⟩ : Cursor).skipSeparator.numeral =
      .error ⟨.invalidNumber, o + byteLength gap⟩ := by
  cases hg with
  | blanks hb =>
    have hskip : (⟨o, gap⟩ : Cursor).skipBlanks = ⟨o + byteLength gap, []⟩ :=
      skipBlanks_eq hb stops_nil (List.append_nil gap).symm
    have hsep : (⟨o, gap⟩ : Cursor).skipSeparator = ⟨o + byteLength gap, []⟩ := by
      simp only [skipSeparator, hskip]
    rw [hsep]
    exact numeral_of_blanks (fun _ hx => by cases hx) _
  | @comma before after hb ha =>
    have hskip : (⟨o, before ++ ',' :: after⟩ : Cursor).skipBlanks =
        ⟨o + byteLength before, ',' :: after⟩ :=
      skipBlanks_eq hb (stops_cons.mpr (by decide)) rfl
    have hsep : (⟨o, before ++ ',' :: after⟩ : Cursor).skipSeparator =
        ⟨o + byteLength before + byteLength [','], after⟩ := by
      simp only [skipSeparator, hskip, past]
    rw [hsep, numeral_of_blanks ha]
    simp only [byteLength_append, byteLength_cons, byteLength_nil, Nat.add_zero, Nat.add_assoc]

theorem numeral_eq_error (h : c.numeral = .error e) :
    ∃ gap d, Blanks gap ∧ Behind gap c d ∧ e = ⟨.invalidNumber, d.offset⟩ ∧ NoNumeral d.rest := by
  obtain ⟨gap, hg, hr, ho, hs⟩ := c.rest_eq_skipBlanks
  simp only [numeral] at h
  split at h
  · cases h
  · rename_i hread
    cases h
    exact ⟨gap, c.skipBlanks, hg, ⟨hr, ho⟩, rfl, noNumeral_of_read? hs hread⟩

theorem numeral_fails (h : c.numeral = .error e) : FailsAt numeral c e := by
  obtain ⟨gap, d, hg, hb, rfl, hn⟩ := numeral_eq_error h
  refine ⟨gap, d, hb, rfl, hn, ?_⟩
  rw [numeral_of_blanks hg, hb.offset]

theorem separated_fails (h : c.skipSeparator.numeral = .error e) :
    FailsAt (fun c => c.skipSeparator.numeral) c e := by
  obtain ⟨after, d, ha, hb, rfl, hn⟩ := numeral_eq_error h
  have hsep : ∃ gap, IsSeparator gap ∧ Behind gap c d := by
    rcases c.skipSeparator_cases with ⟨before, hbefore, hr, ho⟩ | ⟨before, hbefore, hr, ho⟩
    · refine ⟨before ++ after, .blanks ?_, Behind.trans ⟨hr, ho⟩ hb⟩
      intro x hx
      rcases List.mem_append.mp hx with hx | hx
      · exact hbefore x hx
      · exact ha x hx
    · refine ⟨before ++ [','] ++ after, ?_, Behind.trans ⟨hr, ho⟩ hb⟩
      rw [List.append_assoc]
      exact .comma hbefore ha
  obtain ⟨gap, hg, hb⟩ := hsep
  refine ⟨gap, d, hb, rfl, hn, ?_⟩
  show (⟨c.offset, gap⟩ : Cursor).skipSeparator.numeral = _
  rw [separated_of_separator hg, hb.offset]

theorem numerals_succ_eq_error_iff :
    c.numerals (n + 1) = .error e ↔
      c.numeral = .error e ∨ ∃ a m, c.numeral = .ok (a, m) ∧ m.moreNumerals n = .error e := by
  simp only [numerals]
  constructor
  · intro h
    split at h
    · rename_i hf
      cases h
      exact .inl hf
    · rename_i a m hf
      split at h
      · rename_i hm
        cases h
        exact .inr ⟨a, m, hf, hm⟩
      · cases h
  · rintro (hf | ⟨a, m, hf, hm⟩)
    · simp only [hf]
    · simp only [hf, hm]

theorem moreNumerals_succ_eq_error_iff :
    c.moreNumerals (n + 1) = .error e ↔
      c.skipSeparator.numeral = .error e ∨
        ∃ a m, c.skipSeparator.numeral = .ok (a, m) ∧ m.moreNumerals n = .error e :=
  numerals_succ_eq_error_iff (c := c.skipSeparator)

theorem moreNumerals_fails (h : c.moreNumerals n = .error e) :
    FailsAt (moreNumerals n) c e := by
  induction n generalizing c with
  | zero => cases h
  | succ n ih =>
    rcases moreNumerals_succ_eq_error_iff.mp h with hf | ⟨a, m, hf, hm⟩
    · obtain ⟨text, d, hb, he, hn, hread⟩ := separated_fails hf
      exact ⟨text, d, hb, he, hn, moreNumerals_succ_eq_error_iff.mpr (.inl hread)⟩
    · obtain ⟨gap, hg, ha⟩ := separated_sound hf
      refine (ih hm).back ha fun c' m' ha' hm' => ?_
      exact moreNumerals_succ_eq_error_iff.mpr (.inr ⟨a, m', separated_complete hg ha', hm'⟩)

/-- Numerals that cannot be read are cut short at the first one that is missing. -/
theorem numerals_fails (h : c.numerals n = .error e) : FailsAt (numerals n) c e := by
  cases n with
  | zero => cases h
  | succ n =>
    rcases numerals_succ_eq_error_iff.mp h with hf | ⟨a, m, hf, hm⟩
    · obtain ⟨text, d, hb, he, hn, hread⟩ := numeral_fails hf
      exact ⟨text, d, hb, he, hn, numerals_succ_eq_error_iff.mpr (.inl hread)⟩
    · obtain ⟨gap, hg, ha⟩ := numeral_sound hf
      refine (moreNumerals_fails hm).back ha fun c' m' ha' hm' => ?_
      exact numerals_succ_eq_error_iff.mpr (.inr ⟨a, m', numeral_complete hg ha', hm'⟩)

end Cursor

/-! ## Path data -/

/-- The text `before` and what is `after` it account for the error. -/
def Explains (e : LexError) (before after : List Char) : Prop :=
  match e.cause with
  | .unexpectedCharacter c =>
    after.head? = some c ∧ isBlank c = false ∧ Command.ofLetter? c = none ∧
      (Cursor.start before).scan.error = none ∧
      ∀ more, (Cursor.start (before ++ c :: more)).scan.error = some e
  | .invalidNumber => (Cursor.start before).scan.error = some e ∧ NoNumeral after

/-- The error of a scan is explained by the text on both sides of its position. -/
theorem scan_error_place {cs : List Char} {e : LexError}
    (h : (Cursor.start cs).scan.error = some e) :
    ∃ before after, cs = before ++ after ∧ byteLength before = e.position ∧
      Explains e before after := by
  obtain ⟨d, hpasses, hhalts⟩ := (Cursor.start cs).scan_cases
  obtain ⟨text, hb⟩ := hpasses.behind
  rw [h] at hhalts
  cases hhalts with
  | @character o ch rest hblank hletter =>
    refine ⟨text, ch :: rest, hb.rest, ?_, rfl, hblank, hletter, ?_, ?_⟩
    · exact (hb.offset.trans (Nat.zero_add _)).symm
    · have hend := hpasses.replace hb.rest (substitute_nil _)
      rw [List.append_nil] at hend
      exact congrArg Scan.error (hend.scan_of_halts .done)
    · intro more
      have hsame := hpasses.replace hb.rest (substitute_cons ch rest more)
      exact congrArg Scan.error (hsame.scan_of_halts (.character hblank hletter))
  | @numeral o letter rest command e hl hn =>
    obtain ⟨body, m, hm, rfl, hno, hread⟩ := Cursor.numerals_fails hn
    have hall := hb.trans ((behind_char o letter rest).trans hm)
    refine ⟨_, m.rest, hall.rest, (hall.offset.trans (Nat.zero_add _)).symm, ?_, hno⟩
    have hcut := hpasses.replace hb.rest (substitute_cons letter rest body)
    exact congrArg Scan.error (hcut.scan_of_halts (.numeral hl hread))

/-- Path data that cannot be read is at fault exactly where the error says. The position splits
    the data between two characters. If the error is an unexpected character, that is the one
    behind the split, the part before is path data on its own, and the error is the same whatever
    is put behind the character. If a number is missing, the part before has this error already,
    and behind the split there is neither a blank nor a digit, not even behind a minus sign and a
    point. -/
theorem tokenize_error_place {data : String} {e : LexError} (h : tokenize data = .error e) :
    ∃ before after : String, data = before ++ after ∧ before.utf8ByteSize = e.position ∧
      e.position ≤ data.utf8ByteSize ∧
      match e.cause with
      | .unexpectedCharacter c =>
        after.toList.head? = some c ∧ isBlank c = false ∧ Command.ofLetter? c = none ∧
          (∃ tokens, tokenize before = .ok tokens) ∧
          ∀ more, tokenize (before ++ c.toString ++ more) = .error e
      | .invalidNumber =>
        tokenize before = .error e ∧ Stops isBlank after.toList ∧
          Stops Char.isDigit (dropLeading '.' (dropLeading '-' after.toList)) := by
  obtain ⟨before, after, hsplit, hposition, hexplains⟩ :=
    scan_error_place (tokenize_eq_error_iff.mp h)
  have hdata : data = .ofList before ++ .ofList after := by
    rw [← String.toList_inj, String.toList_append, String.toList_ofList, String.toList_ofList]
    exact hsplit
  have hsize : (String.ofList before).utf8ByteSize = e.position := by
    rw [← byteLength_toList, String.toList_ofList]
    exact hposition
  refine ⟨.ofList before, .ofList after, hdata, hsize, ?_, ?_⟩
  · rw [hdata, String.utf8ByteSize_append, hsize]
    exact Nat.le_add_right _ _
  · obtain ⟨cause, position⟩ := e
    cases cause with
    | unexpectedCharacter c =>
      obtain ⟨hhead, hblank, hletter, hbefore, hmore⟩ := hexplains
      refine ⟨by simpa using hhead, hblank, hletter, ?_, fun more => ?_⟩
      · rw [exists_tokenize_eq_ok_iff, scan, String.toList_ofList]
        exact hbefore
      · rw [tokenize_eq_error_iff, scan]
        have htext : (String.ofList before ++ c.toString ++ more).toList =
            before ++ c :: more.toList := by
          simp [String.toList_append]
        rw [htext]
        exact hmore _
    | invalidNumber =>
      obtain ⟨hbefore, hno⟩ := hexplains
      rw [String.toList_ofList]
      refine ⟨?_, hno.blank, hno.digit⟩
      rw [tokenize_eq_error_iff, scan, String.toList_ofList]
      exact hbefore

/-- Blanks of three and of two bytes stand before a letter of no command and before a number that
    is missing. -/
theorem tokenize_error_place_wideBlanks :
    tokenize "M0 0\u3000Q1" = .error ⟨.unexpectedCharacter 'Q', 7⟩ ∧
    (∃ before after : String, "M0 0\u3000Q1" = before ++ after ∧ before.utf8ByteSize = 7 ∧
      (∃ tokens, tokenize before = .ok tokens) ∧
      ∀ more, tokenize (before ++ "Q" ++ more) = .error ⟨.unexpectedCharacter 'Q', 7⟩) ∧
    tokenize "v2l1,\u00a0-.z" = .error ⟨.invalidNumber, 7⟩ ∧
    ∃ before after : String, "v2l1,\u00a0-.z" = before ++ after ∧ before.utf8ByteSize = 7 ∧
      tokenize before = .error ⟨.invalidNumber, 7⟩ ∧ Stops isBlank after.toList := by
  have hletter : tokenize "M0 0\u3000Q1" = .error ⟨.unexpectedCharacter 'Q', 7⟩ := by
    decide +kernel
  have hnumber : tokenize "v2l1,\u00a0-.z" = .error ⟨.invalidNumber, 7⟩ := by decide +kernel
  obtain ⟨before, after, hdata, hsize, -, -, -, -, hok, hmore⟩ := tokenize_error_place hletter
  obtain ⟨before', after', hdata', hsize', -, herror, hblank, -⟩ := tokenize_error_place hnumber
  exact ⟨hletter, ⟨before, after, hdata, hsize, hok, hmore⟩, hnumber,
    before', after', hdata', hsize', herror, hblank⟩

end SvgDraw
