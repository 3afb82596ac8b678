/-
  SvgDraw.Proofs.Path.Offsets — the byte offsets that reading path data works with.

  A numeral can be read by its bounds: `start` is where the blanks end, and `stop` is moved to one
  byte behind every character that the numeral takes (`digitsEnd`, `Cursor.span`). That this gives
  a slice of the data at all rests on two facts. The place of reading is one in the data
  (`Behind`), and every step of the reading keeps that. The characters of numerals are one byte
  long, so `stop` and the place of reading never part (`digitsEnd_eq`, `span_eq`).

  `Asks c e` says that reading commands from `c` on asks for a numeral at `e`. It follows the
  reading into commands that turn out to have too few numerals, so every numeral that is read and
  the one that is missing have been asked for (`Passes.asks`, `Halts.asks`). `offsets_sound` says
  that the bounds of all that is asked for are sound, and the positions of commands as well.
-/

import Mathlib.Data.String.Basic
import SvgDraw.Proofs.Path.Fault

namespace SvgDraw

/-! ## Slices -/

/-- The text between two byte offsets. There is none if they are out of order, or if one of them is
    outside of the text or inside of a character. -/
def byteSlice? (text : String) (start stop : Nat) : Option String := do
  let first ← text.pos? ⟨start⟩
  let last ← text.pos? ⟨stop⟩
  let slice ← text.slice? first last
  return slice.copy

section Slices

variable {text : String} {before middle after : List Char}

theorem utf8Len_eq (cs : List Char) : String.utf8Len cs = byteLength cs := by
  induction cs with
  | nil => rfl
  | cons c cs ih => simp [ih, Nat.add_comm]

theorem utf8ByteSize_ofList (cs : List Char) : (String.ofList cs).utf8ByteSize = byteLength cs := by
  rw [← byteLength_toList, String.toList_ofList]

/-- What comes before a part of a text ends at a boundary. -/
theorem isValid_byteLength (h : text.toList = before ++ after) :
    String.Pos.Raw.IsValid text ⟨byteLength before⟩ := by
  rw [String.Pos.Raw.isValid_iff_exists_append]
  refine ⟨.ofList before, .ofList after, ?_, ?_⟩
  · rw [← String.ofList_append, ← h, String.ofList_toList]
  · rw [String.Pos.Raw.ext_iff, String.byteIdx_rawEndPos, utf8ByteSize_ofList]

theorem get?_byteLength (h : text.toList = before ++ after) :
    String.Pos.Raw.get? text ⟨byteLength before⟩ = after.head? := by
  have hget := String.get?_of_valid before after
  rwa [← h, String.ofList_toList, utf8Len_eq] at hget

theorem pos?_eq_some {p : String.Pos.Raw} (h : p.IsValid text) :
    text.pos? p = some (text.pos p h) := by
  have hslice : p.IsValidForSlice text.toSlice := String.Pos.Raw.isValidForSlice_toSlice_iff.mpr h
  simp [String.pos?, String.Slice.pos?, hslice, String.pos, String.Pos.ofToSlice]

theorem extract_eq_middle {a b c : String} (h : text = a ++ b ++ c) {p q : text.Pos}
    (hp : p.offset.byteIdx = a.utf8ByteSize)
    (hq : q.offset.byteIdx = a.utf8ByteSize + b.utf8ByteSize) : String.extract p q = b := by
  have hbytes : text.toByteArray = a.toByteArray ++ b.toByteArray ++ c.toByteArray := by
    rw [h, String.toByteArray_append, String.toByteArray_append]
  rw [← String.toByteArray_inj, String.toByteArray_extract, hbytes, hp, hq,
    ByteArray.extract_append,
    ByteArray.extract_append_eq_right String.size_toByteArray.symm (by simp)]
  simp

/-- Between the offsets around a part of a text there is that part. -/
theorem byteSlice?_eq_some (h : text.toList = before ++ middle ++ after) :
    byteSlice? text (byteLength before) (byteLength before + byteLength middle) =
      some (.ofList middle) := by
  have hstart : String.Pos.Raw.IsValid text ⟨byteLength before⟩ :=
    isValid_byteLength (h.trans (List.append_assoc ..))
  have hstop : String.Pos.Raw.IsValid text ⟨byteLength before + byteLength middle⟩ := by
    rw [← byteLength_append]
    exact isValid_byteLength h
  have hle : text.pos _ hstart ≤ text.pos _ hstop := Nat.le_add_right _ _
  have htext : text = .ofList before ++ .ofList middle ++ .ofList after := by
    rw [← String.ofList_append, ← String.ofList_append, ← h, String.ofList_toList]
  have hcopy : (text.slice _ _ hle).copy = .ofList middle := by
    rw [← String.extract_eq_copy_slice]
    apply extract_eq_middle htext
    · rw [utf8ByteSize_ofList]
      rfl
    · rw [utf8ByteSize_ofList, utf8ByteSize_ofList]
      rfl
  simp [byteSlice?, pos?_eq_some hstart, pos?_eq_some hstop, String.slice?, hle, hcopy]

end Slices

/-! ## The bounds of a numeral -/

structure Span where
  start : Nat
  stop : Nat
  /-- The place of reading behind the numeral. -/
  after : Cursor
  deriving DecidableEq, Repr

/-- Go over digits and at most one point, none if one was gone over before, from the character at
    `offset` on. This gives the offset one byte behind the last character gone over, `stop` if
    there is none, and the place of reading. -/
def digitsEnd (pointed : Bool) (stop offset : Nat) : List Char → Nat × Cursor
  | [] => (stop, ⟨offset, []⟩)
  | c :: rest =>
    if c = '.' then
      if pointed then (stop, ⟨offset, c :: rest⟩)
      else digitsEnd true (offset + 1) (offset + c.utf8Size) rest
    else if c.isDigit then digitsEnd pointed (offset + 1) (offset + c.utf8Size) rest
    else (stop, ⟨offset, c :: rest⟩)

def Cursor.span (c : Cursor) : Span :=
  let d := c.skipBlanks
  match d.rest with
  | '-' :: rest =>
    let (stop, after) := digitsEnd false (d.offset + 1) (d.offset + '-'.utf8Size) rest
    ⟨d.offset, stop, after⟩
  | rest =>
    let (stop, after) := digitsEnd false d.offset d.offset rest
    ⟨d.offset, stop, after⟩

theorem utf8Size_of_isDigit {c : Char} (h : c.isDigit = true) : c.utf8Size = 1 := by
  have hd := Char.isDigit_iff_toNat.mp h
  simp only [Char.reduceToNat] at hd
  rw [Char.utf8Size_eq_one_iff, UInt32.le_iff_toNat_le]
  exact Nat.le_trans hd.2 (by decide)

/-- Behind a point, digits are gone over and the end goes with the place of reading. -/
theorem digitsEnd_of_pointed (offset : Nat) (cs : List Char) :
    digitsEnd true offset offset cs =
      (offset + byteLength (cs.takeWhile Char.isDigit),
        ⟨offset + byteLength (cs.takeWhile Char.isDigit), cs.dropWhile Char.isDigit⟩) := by
  induction cs generalizing offset with
  | nil => rfl
  | cons c cs ih =>
    by_cases hp : c = '.'
    · subst hp
      rfl
    · by_cases hd : c.isDigit = true
      · have hone := utf8Size_of_isDigit hd
        rw [digitsEnd, if_neg hp, if_pos hd, hone, ih, List.takeWhile_cons_of_pos hd,
          List.dropWhile_cons_of_pos hd, byteLength_cons, hone, Nat.add_assoc]
      · rw [digitsEnd, if_neg hp, if_neg hd, List.takeWhile_cons_of_neg hd,
          List.dropWhile_cons_of_neg hd]
        rfl

theorem splitDigits_cons {c : Char} (h : c.isDigit = true) (cs : List Char) :
    splitDigits (c :: cs) = (c :: (splitDigits cs).1, (splitDigits cs).2) := by
  simp only [splitDigits, List.takeWhile_cons_of_pos h, List.dropWhile_cons_of_pos h]
  split <;> rfl

/-- The end goes with the place of reading. -/
theorem digitsEnd_eq (offset : Nat) (cs : List Char) :
    digitsEnd false offset offset cs =
      (offset + byteLength (splitDigits cs).1,
        ⟨offset + byteLength (splitDigits cs).1, (splitDigits cs).2⟩) := by
  induction cs generalizing offset with
  | nil => rfl
  | cons c cs ih =>
    by_cases hp : c = '.'
    · subst hp
      have hsplit : splitDigits ('.' :: cs) =
          ('.' :: cs.takeWhile Char.isDigit, cs.dropWhile Char.isDigit) := rfl
      have hone : '.'.utf8Size = 1 := by decide
      rw [digitsEnd, if_pos rfl, if_neg (by decide), hone, digitsEnd_of_pointed, hsplit,
        byteLength_cons, hone, Nat.add_assoc]
    · by_cases hd : c.isDigit = true
      · have hone := utf8Size_of_isDigit hd
        rw [digitsEnd, if_neg hp, if_pos hd, hone, ih, splitDigits_cons hd, byteLength_cons, hone,
          Nat.add_assoc]
      · have hsplit : splitDigits (c :: cs) = ([], c :: cs) := by
          simp only [splitDigits, List.takeWhile_cons_of_neg hd, List.dropWhile_cons_of_neg hd]
          split
          · rename_i he
            exact absurd (List.cons.inj he).1 hp
          · rfl
        rw [digitsEnd, if_neg hp, if_neg hd, hsplit]
        rfl

/-- The bounds are those of the text that is split off behind the blanks. -/
theorem span_eq (c : Cursor) :
    c.span =
      ⟨c.skipBlanks.offset,
        c.skipBlanks.offset + byteLength (splitNumeral c.skipBlanks.rest).1,
        c.skipBlanks.past (splitNumeral c.skipBlanks.rest).1
          (splitNumeral c.skipBlanks.rest).2⟩ := by
  have hone : '-'.utf8Size = 1 := by decide
  unfold Cursor.span
  generalize c.skipBlanks = d
  obtain ⟨offset, rest⟩ := d
  simp only [Cursor.past, splitNumeral]
  split
  · simp only [splitMinus, hone, digitsEnd_eq, List.cons_append, List.nil_append, byteLength_cons,
      Nat.add_assoc]
  · rename_i hne
    have hminus : splitMinus rest = ([], rest) := by
      apply splitMinus_of_ne
      rintro ch hch rfl
      obtain ⟨more, hmore⟩ := List.head?_eq_some_iff.mp hch
      exact hne more hmore
    simp only [hminus, digitsEnd_eq, List.nil_append]

/-- What is read at a place is the text between the bounds. -/
theorem numeral_eq_span (c : Cursor) :
    c.numeral =
      match Number.read? (splitNumeral c.skipBlanks.rest).1 with
      | some value =>
        .ok (⟨c.span.start, (splitNumeral c.skipBlanks.rest).1, value⟩, c.span.after)
      | none => .error ⟨.invalidNumber, c.span.start⟩ := by
  rw [span_eq]
  rfl

/-! ## Where numerals are asked for -/

/-- While `n` numerals are read from `c` on, one is asked for at `e`. -/
inductive Seeks : Nat → Cursor → Cursor → Prop
  | first {n : Nat} {c : Cursor} : Seeks (n + 1) c c
  | next {n : Nat} {c d e : Cursor} {a : Numeral} :
      c.numeral = .ok (a, d) → Seeks n d.skipSeparator e → Seeks (n + 1) c e

/-- While commands are read from `c` on, a numeral is asked for at `e`. -/
inductive Asks : Cursor → Cursor → Prop
  | blank {o : Nat} {ch : Char} {cs : List Char} {e : Cursor} :
      isBlank ch = true → Asks ⟨o + ch.utf8Size, cs⟩ e → Asks ⟨o, ch :: cs⟩ e
  | arguments {o : Nat} {letter : Char} {cs : List Char} {command : Command} {e : Cursor} :
      Command.ofLetter? letter = some command →
      Seeks command.arity ⟨o + letter.utf8Size, cs⟩ e → Asks ⟨o, letter :: cs⟩ e
  | command {o : Nat} {letter : Char} {cs : List Char} {command : Command} {as : List Numeral}
      {after e : Cursor} :
      Command.ofLetter? letter = some command →
      (⟨o + letter.utf8Size, cs⟩ : Cursor).numerals command.arity = .ok (as, after) →
      Asks after e → Asks ⟨o, letter :: cs⟩ e

section Places

variable {n : Nat} {c d e : Cursor} {a : Numeral} {as : List Numeral}

theorem skipSeparator_behind (c : Cursor) : ∃ text, Behind text c c.skipSeparator := by
  rcases c.skipSeparator_cases with ⟨gap, -, hr, ho⟩ | ⟨gap, -, hr, ho⟩
  · exact ⟨gap, hr, ho⟩
  · exact ⟨gap ++ [','], hr, ho⟩

theorem numeral_behind (h : c.numeral = .ok (a, d)) : ∃ text, Behind text c d := by
  obtain ⟨gap, -, hstands⟩ := Cursor.numeral_sound h
  exact ⟨_, hstands.behind⟩

theorem Seeks.behind (h : Seeks n c e) : ∃ text, Behind text c e := by
  induction h with
  | first => exact ⟨[], behind_nil _⟩
  | @next n c d e a hnumeral _ ih =>
    obtain ⟨text, htext⟩ := numeral_behind hnumeral
    obtain ⟨gap, hgap⟩ := skipSeparator_behind d
    obtain ⟨more, hmore⟩ := ih
    exact ⟨_, (htext.trans hgap).trans hmore⟩

/-- The place of reading stays one in the data. -/
theorem Asks.behind (h : Asks c e) : ∃ text, Behind text c e := by
  induction h with
  | blank _ _ ih =>
    obtain ⟨more, hmore⟩ := ih
    exact ⟨_, (behind_char _ _ _).trans hmore⟩
  | arguments _ hseeks =>
    obtain ⟨more, hmore⟩ := hseeks.behind
    exact ⟨_, (behind_char _ _ _).trans hmore⟩
  | command _ hnumerals _ ih =>
    obtain ⟨text, htext⟩ := (Cursor.numerals_eq_ok_iff.mp hnumerals).2.behind
    obtain ⟨more, hmore⟩ := ih
    exact ⟨_, ((behind_char _ _ _).trans htext).trans hmore⟩

/-! ### All numerals are asked for -/

theorem numerals_seeks (h : c.numerals n = .ok (as, d)) (ha : a ∈ as) :
    ∃ e after, Seeks n c e ∧ e.numeral = .ok (a, after) := by
  induction n generalizing c as with
  | zero =>
    cases h
    cases ha
  | succ n ih =>
    obtain ⟨first, m, more, hfirst, hmore, rfl⟩ := Cursor.numerals_succ_eq_ok_iff.mp h
    rcases List.mem_cons.mp ha with rfl | ha
    · exact ⟨c, m, .first, hfirst⟩
    · cases n with
      | zero =>
        cases hmore
        cases ha
      | succ n =>
        obtain ⟨e, after, hseeks, hnumeral⟩ := ih (c := m.skipSeparator) hmore ha
        exact ⟨e, after, .next hfirst hseeks, hnumeral⟩

theorem numerals_seeks_error {error : LexError} (h : c.numerals n = .error error) :
    ∃ e, Seeks n c e ∧ e.numeral = .error error := by
  induction n generalizing c with
  | zero => cases h
  | succ n ih =>
    rcases Cursor.numerals_succ_eq_error_iff.mp h with hfirst | ⟨a, m, hfirst, hmore⟩
    · exact ⟨c, .first, hfirst⟩
    · cases n with
      | zero => cases hmore
      | succ n =>
        obtain ⟨e, hseeks, hnumeral⟩ := ih (c := m.skipSeparator) hmore
        exact ⟨e, .next hfirst hseeks, hnumeral⟩

variable {ps : List Placed}

theorem Passes.asks_behind (h : Passes c ps d) (hd : Asks d e) : Asks c e := by
  induction h with
  | here => exact hd
  | blank hb _ ih => exact .blank hb (ih hd)
  | command hl hlen hrow _ ih =>
    exact .command (ofLetter?_eq_some_iff.mpr hl) (Cursor.numerals_eq_ok_iff.mpr ⟨hlen, hrow⟩)
      (ih hd)

/-- The numerals of the commands that are read were asked for. -/
theorem Passes.asks (h : Passes c ps d) {p : Placed} (hp : p ∈ ps) (ha : a ∈ p.numerals) :
    ∃ e after, Asks c e ∧ e.numeral = .ok (a, after) := by
  induction h with
  | here => cases hp
  | blank hb _ ih =>
    obtain ⟨e, after, hasks, hnumeral⟩ := ih hp
    exact ⟨e, after, .blank hb hasks, hnumeral⟩
  | command hl hlen hrow _ ih =>
    have hletter := ofLetter?_eq_some_iff.mpr hl
    have hnumerals := Cursor.numerals_eq_ok_iff.mpr ⟨hlen, hrow⟩
    rcases List.mem_cons.mp hp with rfl | hp
    · obtain ⟨e, after, hseeks, hnumeral⟩ := numerals_seeks hnumerals ha
      exact ⟨e, after, .arguments hletter hseeks, hnumeral⟩
    · obtain ⟨e, after, hasks, hnumeral⟩ := ih hp
      exact ⟨e, after, .command hletter hnumerals hasks, hnumeral⟩

/-- The numeral that is missing was asked for. -/
theorem Halts.asks {position : Nat} (h : Halts d (some ⟨.invalidNumber, position⟩)) :
    ∃ e, Asks d e ∧ e.numeral = .error ⟨.invalidNumber, position⟩ := by
  cases h with
  | numeral hl hn =>
    obtain ⟨e, hseeks, hnumeral⟩ := numerals_seeks_error hn
    exact ⟨e, .arguments (ofLetter?_eq_some_iff.mpr hl) hseeks, hnumeral⟩

end Places

/-! ## Slices that are read -/

/-- The numeral asked for at `c` is the `text` behind a `gap` of blanks, and a slice of the data. -/
structure ReadsSlice (data : String) (c : Cursor) (gap text : List Char) : Prop where
  ordered : c.span.start ≤ c.span.stop
  within : c.span.stop ≤ data.utf8ByteSize
  start_boundary : String.Pos.Raw.IsValid data ⟨c.span.start⟩
  stop_boundary : String.Pos.Raw.IsValid data ⟨c.span.stop⟩
  blanks : Blanks gap
  /-- All blanks are in the gap. -/
  stops : Stops isBlank (text ++ c.span.after.rest)
  /-- The reading goes over the gap and the text. -/
  consumed : c.rest = gap ++ text ++ c.span.after.rest
  slice : byteSlice? data c.span.start c.span.stop = some (.ofList text)
  /-- The place of reading behind the numeral is the one at `stop`. -/
  offset : c.span.after.offset = c.span.stop
  rest : byteSlice? data c.span.stop data.utf8ByteSize = some (.ofList c.span.after.rest)
  numeral : c.numeral =
    match Number.read? text with
    | some value => .ok (⟨c.span.start, text, value⟩, c.span.after)
    | none => .error ⟨.invalidNumber, c.span.start⟩

/-- At a place in the data, the numeral is a slice of it. -/
theorem readsSlice_of_behind {data : String} {before : List Char} {c : Cursor}
    (h : Behind before (.start data.toList) c) :
    ∃ gap text, ReadsSlice data c gap text := by
  obtain ⟨gap, hgap, hr, ho, hstops⟩ := c.rest_eq_skipBlanks
  obtain ⟨hsplit, -, -⟩ := splitNumeral_sound c.skipBlanks.rest
  have hnumeral := numeral_eq_span c
  have hspan := span_eq c
  generalize htext : (splitNumeral c.skipBlanks.rest).1 = text at *
  generalize hafter : (splitNumeral c.skipBlanks.rest).2 = after at *
  have hrest : c.span.after.rest = after := by rw [hspan]; rfl
  have hstart : c.span.start = byteLength (before ++ gap) := by
    rw [hspan, byteLength_append, ho, h.offset]
    exact congrArg (· + byteLength gap) (Nat.zero_add _)
  have hstop : c.span.stop = byteLength (before ++ gap) + byteLength text := by
    rw [← hstart, hspan]
  have hdata : data.toList = before ++ gap ++ text ++ after := by
    have hall : data.toList = before ++ c.rest := h.rest
    rw [hall, hr, hsplit]
    simp only [List.append_assoc]
  have hsize : data.utf8ByteSize = byteLength (before ++ gap ++ text) + byteLength after := by
    rw [← byteLength_toList, hdata, byteLength_append]
  refine ⟨gap, text, ?_, ?_, ?_, ?_, hgap, ?_, ?_, ?_, ?_, ?_, hnumeral⟩
  · rw [hstart, hstop]
    exact Nat.le_add_right _ _
  · rw [hstop, hsize, ← byteLength_append]
    exact Nat.le_add_right _ _
  · rw [hstart]
    exact isValid_byteLength (hdata.trans (List.append_assoc ..))
  · rw [hstop, ← byteLength_append]
    exact isValid_byteLength hdata
  · rwa [hrest, ← hsplit]
  · rw [hrest, hr, hsplit, List.append_assoc]
  · rw [hstart, hstop]
    exact byteSlice?_eq_some hdata
  · rw [hspan]
    rfl
  · rw [hrest, hstop, hsize, ← byteLength_append]
    exact byteSlice?_eq_some (hdata.trans (List.append_nil _).symm)

/-! ## Positions of commands -/

theorem Behind.offset_le {text : List Char} {c d : Cursor} (h : Behind text c d) :
    c.offset ≤ d.offset := by
  rw [h.offset]
  exact Nat.le_add_right _ _

section Positions

variable {c d : Cursor} {ps : List Placed}

/-- The positions of commands grow along the way. -/
theorem Passes.positions_increase (h : Passes c ps d) :
    (∀ p ∈ ps, c.offset ≤ p.position) ∧ (ps.map Placed.position).Pairwise (· < ·) := by
  induction h with
  | here => exact ⟨by simp, .nil⟩
  | blank _ _ ih => exact ⟨fun p hp => Nat.le_trans (Nat.le_add_right _ _) (ih.1 p hp), ih.2⟩
  | @command o letter cs command as m ps d hl hlen hrow _ ih =>
    obtain ⟨text, htext⟩ := hrow.behind
    have hlater : ∀ p ∈ ps, o < p.position := by
      intro p hp
      have hm : o + letter.utf8Size ≤ m.offset := htext.offset_le
      have hletter := letter.utf8Size_pos
      have := ih.1 p hp
      omega
    constructor
    · intro p hp
      rcases List.mem_cons.mp hp with rfl | hp
      · exact Nat.le_refl _
      · exact (hlater p hp).le
    · rw [List.map_cons, List.pairwise_cons]
      refine ⟨?_, ih.2⟩
      intro position hposition
      obtain ⟨p, hp, rfl⟩ := List.mem_map.mp hposition
      exact hlater p hp

/-- The position of a command is that of its letter. -/
theorem Passes.letter_at (h : Passes c ps d) {p : Placed} (hp : p ∈ ps) :
    ∃ text letter rest, Behind text c ⟨p.position, letter :: rest⟩ ∧
      Command.ofLetter? letter = some p.command := by
  induction h with
  | here => cases hp
  | blank _ _ ih =>
    obtain ⟨text, letter, rest, hbehind, hletter⟩ := ih hp
    exact ⟨_, letter, rest, (behind_char _ _ _).trans hbehind, hletter⟩
  | command hl _ hrow _ ih =>
    rcases List.mem_cons.mp hp with rfl | hp
    · exact ⟨[], _, _, behind_nil _, ofLetter?_eq_some_iff.mpr hl⟩
    · obtain ⟨before, hbefore⟩ := hrow.behind
      obtain ⟨text, letter, rest, hbehind, hletter⟩ := ih hp
      exact ⟨_, letter, rest, ((behind_char _ _ _).trans hbefore).trans hbehind, hletter⟩

end Positions

/-! ## Path data -/

def lexed? : Log.Event → Option (Command × Nat)
  | .lexed command _ position => some (command, position)
  | _ => none

theorem filterMap_lexed?_journal (data : String) :
    (tokenizeJournal data).filterMap lexed? =
      (scan data).commands.map fun p => (p.command, p.position) := by
  have hcommands : ((scan data).commands.map Placed.event).filterMap lexed? =
      (scan data).commands.map fun p => (p.command, p.position) := by
    rw [List.filterMap_map]
    exact congrFun List.filterMap_eq_map _
  simp only [tokenizeJournal, List.filterMap_append, hcommands]
  cases (scan data).error with
  | some error => exact List.append_nil _
  | none => exact List.append_nil _

/-- Wherever reading path data asks for a numeral, the bounds of it are in order, in the data and
    between characters. What is between them is what the numeral takes behind its blanks, and the
    reading stands at the second one afterwards. All numerals of commands and the one that is
    missing, if reading ends so, are asked for. The positions that are reported for commands
    increase, and each is that of a letter that stands for the command. -/
theorem offsets_sound (data : String) :
    let start := Cursor.start data.toList
    let lexed := (tokenizeJournal data).filterMap lexed?
    (∀ c, Asks start c → ∃ gap text, ReadsSlice data c gap text) ∧
      (∀ p ∈ (scan data).commands, ∀ a ∈ p.numerals,
        ∃ c after, Asks start c ∧ c.numeral = .ok (a, after)) ∧
      (∀ position, tokenize data = .error ⟨.invalidNumber, position⟩ →
        ∃ c, Asks start c ∧ c.numeral = .error ⟨.invalidNumber, position⟩) ∧
      (lexed.map Prod.snd).Pairwise (· < ·) ∧
      (∀ report ∈ lexed, ∃ letter,
        String.Pos.Raw.get? data ⟨report.2⟩ = some letter ∧
          Command.ofLetter? letter = some report.1) ∧
      ∀ tokens, tokenize data = .ok tokens → tokens.map Token.command = lexed.map Prod.fst := by
  intro start lexed
  obtain ⟨d, hpasses, hhalts⟩ := start.scan_cases
  have hlexed : lexed = (scan data).commands.map fun p => (p.command, p.position) :=
    filterMap_lexed?_journal data
  refine ⟨?_, ?_, ?_, ?_, ?_, ?_⟩
  · intro c hasks
    obtain ⟨before, hbehind⟩ := hasks.behind
    exact readsSlice_of_behind hbehind
  · intro p hp a ha
    exact hpasses.asks hp ha
  · intro position herror
    have herror : start.scan.error = _ := tokenize_eq_error_iff.mp herror
    rw [herror] at hhalts
    obtain ⟨c, hasks, hnumeral⟩ := hhalts.asks
    exact ⟨c, hpasses.asks_behind hasks, hnumeral⟩
  · rw [hlexed, List.map_map]
    exact hpasses.positions_increase.2
  · intro report hreport
    rw [hlexed] at hreport
    obtain ⟨p, hp, rfl⟩ := List.mem_map.mp hreport
    obtain ⟨text, letter, rest, hbehind, hletter⟩ := hpasses.letter_at hp
    have hposition : p.position = byteLength text := hbehind.offset.trans (Nat.zero_add _)
    refine ⟨letter, ?_, hletter⟩
    rw [hposition]
    exact get?_byteLength hbehind.rest
  · intro tokens htokens
    have herror : (scan data).error = none := exists_tokenize_eq_ok_iff.mp ⟨tokens, htokens⟩
    rw [tokenize_eq_result, Scan.result, herror] at htokens
    cases htokens
    rw [hlexed, List.map_map, List.map_map]
    rfl

/-- Blanks of three and of two bytes, a numeral that begins with its point, and a command whose
    numeral is missing. -/
def wideBlanks : String := "\u3000m1\u00a0,-.5H"

theorem offsets_sound_wideBlanks :
    let second : Cursor := ⟨8, ['-', '.', '5', 'H']⟩
    Asks (.start wideBlanks.toList) second ∧
      (∃ gap text, ReadsSlice wideBlanks second gap text) ∧
      second.span = ⟨8, 11, ⟨11, ['H']⟩⟩ ∧ byteSlice? wideBlanks 8 11 = some "-.5" ∧
      tokenize wideBlanks = .error ⟨.invalidNumber, 12⟩ ∧
      (∃ c, Asks (.start wideBlanks.toList) c ∧ c.numeral = .error ⟨.invalidNumber, 12⟩) ∧
      (tokenizeJournal wideBlanks).filterMap lexed? = [(.move .relative, 3)] ∧
      String.Pos.Raw.get? wideBlanks ⟨3⟩ = some 'm' := by
  intro second
  have htext : wideBlanks.toList =
      ['\u3000', 'm', '1', '\u00a0', ',', '-', '.', '5', 'H'] := by decide +kernel
  have hasks : Asks (.start wideBlanks.toList) second := by
    have hfirst : (⟨4, ['1', '\u00a0', ',', '-', '.', '5', 'H']⟩ : Cursor).numeral =
        .ok (⟨4, ['1'], 1.0⟩, ⟨5, ['\u00a0', ',', '-', '.', '5', 'H']⟩) := by decide +kernel
    have hmove : Command.ofLetter? 'm' = some (.move .relative) := rfl
    rw [htext]
    exact .blank (by decide) (.arguments hmove (.next hfirst .first))
  obtain ⟨hslices, -, hmissing, -, -, -⟩ := offsets_sound wideBlanks
  have herror : tokenize wideBlanks = .error ⟨.invalidNumber, 12⟩ := by decide +kernel
  have hlexed : (tokenizeJournal wideBlanks).filterMap lexed? = [(.move .relative, 3)] := by
    decide +kernel
  refine ⟨hasks, hslices second hasks, by decide +kernel, by decide +kernel, herror,
    hmissing 12 herror, hlexed, by decide +kernel⟩

end SvgDraw
