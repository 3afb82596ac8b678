/-
  SvgDraw.Proofs.Path.Numeral — the numerals of path data, said without reading them.

  A numeral is a minus sign or none, then digits with at most one point among them, at least one
  digit in all (`IsNumeral`). It ends where the next character could not continue it (`Ends`).

  - `splitNumeral_sound`, `splitNumeral_append`: splitting takes the one longest beginning of the
    shape of a numeral.
  - `read?_isSome_iff`: of the texts of that shape exactly those with a digit are numbers.
  - `numeral_sound`, `numeral_complete`: a numeral is read where one stands after blanks, and
    nowhere else; `separated_sound`, `separated_complete`: the same after a separator.
-/

import SvgDraw.Path.Scan
import SvgDraw.Proofs.Text.Split

namespace SvgDraw

/-! ## Numerals -/

def Digits (cs : List Char) : Prop := ∀ c ∈ cs, c.isDigit = true

inductive Mantissa : List Char → Prop
  | whole {digits : List Char} : Digits digits → Mantissa digits
  | pointed {whole fraction : List Char} : Digits whole → Digits fraction →
      Mantissa (whole ++ '.' :: fraction)

/-- A numeral but for its having a digit. -/
def NumeralShape (text : List Char) : Prop :=
  ∃ sign body, (sign = [] ∨ sign = ['-']) ∧ Mantissa body ∧ text = sign ++ body

/-- A minus sign or none, then digits with at most one point, at least one digit in all. -/
def IsNumeral (text : List Char) : Prop :=
  NumeralShape text ∧ ∃ c ∈ text, c.isDigit = true

/-- The numeral `text` does not go on in `rest`: that begins neither with a digit nor, if the
    numeral has no point yet, with a point. -/
def Ends (text rest : List Char) : Prop :=
  ∀ c ∈ rest.head?, c.isDigit = false ∧ (c = '.' → '.' ∈ text)

theorem Ends.stops {text rest : List Char} (h : Ends text rest) : Stops Char.isDigit rest :=
  fun c hc => (h c hc).1

theorem Digits.not_mem_point {cs : List Char} (h : Digits cs) : '.' ∉ cs :=
  fun hm => absurd (h '.' hm) (by decide)

/-! ### Characters of numerals -/

theorem isBlank_of_isDigit {c : Char} (h : c.isDigit = true) : isBlank c = false := by
  have hd := Char.isDigit_iff_toNat.mp h
  simp only [Char.reduceToNat] at hd
  simp [isBlank, blankRanges]
  omega

/-- A character of a mantissa is a digit or a point. -/
theorem Mantissa.digit_or_point {body : List Char} (h : Mantissa body) :
    ∀ c ∈ body, c.isDigit = true ∨ c = '.' := by
  intro c hc
  cases h with
  | whole hd => exact .inl (hd c hc)
  | pointed hw hf =>
    rcases List.mem_append.mp hc with hc | hc
    · exact .inl (hw c hc)
    · rcases List.mem_cons.mp hc with rfl | hc
      · exact .inr rfl
      · exact .inl (hf c hc)

/-- What a numeral begins with is no blank and no comma. -/
theorem IsNumeral.cons {text : List Char} (h : IsNumeral text) :
    ∃ c more, text = c :: more ∧ isBlank c = false ∧ c ≠ ',' := by
  obtain ⟨⟨sign, body, hs, hb, rfl⟩, d, hd, hdigit⟩ := h
  rcases hs with rfl | rfl
  · cases body with
    | nil => cases hd
    | cons c more =>
      refine ⟨c, more, rfl, ?_⟩
      rcases hb.digit_or_point c List.mem_cons_self with h | rfl
      · refine ⟨isBlank_of_isDigit h, ?_⟩
        rintro rfl
        exact absurd h (by decide)
      · decide
  · exact ⟨'-', body, rfl, by decide, by decide⟩

/-! ### Splitting -/

theorem splitDigits_sound (cs : List Char) :
    cs = (splitDigits cs).1 ++ (splitDigits cs).2 ∧ Mantissa (splitDigits cs).1 ∧
      Ends (splitDigits cs).1 (splitDigits cs).2 := by
  have hw : Digits (cs.takeWhile Char.isDigit) := fun c => List.mem_takeWhile_imp
  have hsplit := List.takeWhile_append_dropWhile (p := Char.isDigit) (l := cs)
  have hstop := stops_dropWhile Char.isDigit cs
  unfold splitDigits
  split
  · rename_i after he
    rw [he] at hsplit
    have hf : Digits (after.takeWhile Char.isDigit) := fun c => List.mem_takeWhile_imp
    refine ⟨?_, .pointed hw hf, fun c hc => ⟨stops_dropWhile _ after c hc, fun _ => by simp⟩⟩
    rw [List.append_assoc, List.cons_append, List.takeWhile_append_dropWhile, hsplit]
  · rename_i hne
    refine ⟨hsplit.symm, .whole hw, fun c hc => ⟨hstop c hc, ?_⟩⟩
    rintro rfl
    obtain ⟨rest, hr⟩ := List.head?_eq_some_iff.mp (Option.mem_def.mp hc)
    exact absurd hr (hne rest)

theorem splitDigits_append {body rest : List Char} (hb : Mantissa body) (he : Ends body rest) :
    splitDigits (body ++ rest) = (body, rest) := by
  cases hb with
  | whole hd =>
    -- No point in the body, so a point in what follows would continue it.
    have hne : ∀ after, rest = '.' :: after → False := by
      rintro after rfl
      exact hd.not_mem_point ((he '.' rfl).2 rfl)
    unfold splitDigits
    rw [takeWhile_append_stops hd he.stops, dropWhile_append_stops hd he.stops]
    split
    · exact absurd rfl (hne _)
    · rfl
  | @pointed whole fraction hw hf =>
    have hpoint : Stops Char.isDigit ('.' :: (fraction ++ rest)) := stops_cons.mpr (by decide)
    have hassoc : whole ++ '.' :: fraction ++ rest = whole ++ '.' :: (fraction ++ rest) := by simp
    unfold splitDigits
    rw [hassoc, takeWhile_append_stops hw hpoint, dropWhile_append_stops hw hpoint]
    simp only
    rw [takeWhile_append_stops hf he.stops, dropWhile_append_stops hf he.stops]

theorem splitMinus_of_ne {cs : List Char} (h : ∀ c ∈ cs.head?, c ≠ '-') : splitMinus cs = ([], cs) := by
  unfold splitMinus
  split
  · exact absurd rfl (h '-' rfl)
  · rfl

/-- What is split off has the shape of a numeral and cannot be continued. -/
theorem splitNumeral_sound (cs : List Char) :
    cs = (splitNumeral cs).1 ++ (splitNumeral cs).2 ∧ NumeralShape (splitNumeral cs).1 ∧
      Ends (splitNumeral cs).1 (splitNumeral cs).2 := by
  have hminus : ((splitMinus cs).1 = [] ∨ (splitMinus cs).1 = ['-']) ∧
      cs = (splitMinus cs).1 ++ (splitMinus cs).2 := by
    unfold splitMinus
    split
    · exact ⟨.inr rfl, rfl⟩
    · exact ⟨.inl rfl, rfl⟩
  obtain ⟨hsplit, hbody, hends⟩ := splitDigits_sound (splitMinus cs).2
  refine ⟨?_, ⟨_, _, hminus.1, hbody, rfl⟩, fun c hc => ⟨(hends c hc).1, fun hp => ?_⟩⟩
  · simp only [splitNumeral, List.append_assoc]
    rw [← hsplit, ← hminus.2]
  · exact List.mem_append_right _ ((hends c hc).2 hp)

/-- A numeral that ends where it does is split off as it stands. -/
theorem splitNumeral_append {text rest : List Char} (h : IsNumeral text) (he : Ends text rest) :
    splitNumeral (text ++ rest) = (text, rest) := by
  obtain ⟨⟨sign, body, hs, hb, rfl⟩, hdigit⟩ := h
  have hbody : Ends body rest := by
    intro c hc
    refine ⟨(he c hc).1, fun hp => ?_⟩
    have hmem := (he c hc).2 hp
    rcases hs with rfl | rfl
    · exact hmem
    · simpa using hmem
  have hminus : splitMinus (sign ++ body ++ rest) = (sign, body ++ rest) := by
    rcases hs with rfl | rfl
    · apply splitMinus_of_ne
      obtain ⟨c, hc, hdigit⟩ := hdigit
      cases body with
      | nil => cases hc
      | cons first more =>
        intro c hc
        cases hc
        rcases hb.digit_or_point first List.mem_cons_self with h | rfl
        · rintro rfl
          exact absurd h (by decide)
        · decide
    · rfl
  simp only [splitNumeral, hminus, splitDigits_append hb hbody]

/-! ### Values -/

theorem toLower_of_digit_or_point {c : Char} (h : c.isDigit = true ∨ c = '.') : c.toLower = c := by
  rcases h with h | rfl
  · have hd := Char.isDigit_iff_toNat.mp h
    simp only [Char.reduceToNat] at hd
    unfold Char.toLower
    rw [dif_neg]
    simp [UInt32.le_iff_toNat_le]
    omega
  · rfl

/-- A mantissa is none of the names of numbers, since these all have the same letter. -/
theorem Mantissa.ne_name {body : List Char} (h : Mantissa body) :
    Number.infinityNames.contains (body.map Char.toLower) = false ∧
      body.map Char.toLower ≠ Number.nanName := by
  have hlower : body.map Char.toLower = body := by
    conv => rhs; rw [← List.map_id body]
    exact List.map_congr_left fun c hc => toLower_of_digit_or_point (h.digit_or_point c hc)
  have hletter : 'n' ∉ body := by
    intro hm
    rcases h.digit_or_point 'n' hm with h | h
    · exact absurd h (by decide)
    · exact absurd h (by decide)
  rw [hlower]
  constructor
  · rw [Bool.eq_false_iff]
    intro hc
    simp only [Number.infinityNames, List.contains_iff_mem, List.mem_cons, List.not_mem_nil,
      or_false] at hc
    rcases hc with rfl | rfl
    · exact hletter (by decide)
    · exact hletter (by decide)
  · rintro rfl
    exact hletter (by decide)

theorem isSome_readDecimal? {body : List Char} (h : Mantissa body) :
    (Number.readDecimal? body).isSome = true ↔ ∃ c ∈ body, c.isDigit = true := by
  have digits {cs : List Char} (hd : Digits cs) : (∃ c ∈ cs, c.isDigit = true) ↔ cs ≠ [] :=
    ⟨fun ⟨c, hc, _⟩ he => by simp [he] at hc,
      fun he => ⟨cs.head he, List.head_mem he, hd _ (List.head_mem he)⟩⟩
  cases h with
  | whole hd =>
    have ht := takeWhile_append_stops hd stops_nil
    have hr := dropWhile_append_stops hd stops_nil
    rw [List.append_nil] at ht hr
    rw [digits hd]
    by_cases he : body = []
    · subst he
      simp [Number.readDecimal?]
    · simp [Number.readDecimal?, ht, hr, he]
  | @pointed whole fraction hw hf =>
    have hpoint : Stops Char.isDigit ('.' :: fraction) := stops_cons.mpr (by decide)
    have ht := takeWhile_append_stops hf stops_nil
    have hr := dropWhile_append_stops hf stops_nil
    rw [List.append_nil] at ht hr
    have hsome : (∃ c ∈ whole ++ '.' :: fraction, c.isDigit = true) ↔ whole ≠ [] ∨ fraction ≠ [] := by
      rw [← digits hw, ← digits hf]
      simp only [List.mem_append, List.mem_cons, or_and_right, exists_or, exists_eq_left]
      simp
    rw [hsome]
    simp only [Number.readDecimal?, takeWhile_append_stops hw hpoint,
      dropWhile_append_stops hw hpoint, ht, hr]
    by_cases hwe : whole = []
    · by_cases hfe : fraction = []
      · simp [hwe, hfe]
      · simp [hwe, hfe]
    · simp [hwe]

theorem splitSign_of_shape {text : List Char} (h : NumeralShape text) :
    ∃ negative body, Number.splitSign text = (negative, body) ∧ Mantissa body ∧
      ((∃ c ∈ text, c.isDigit = true) ↔ ∃ c ∈ body, c.isDigit = true) := by
  obtain ⟨sign, body, hs, hb, rfl⟩ := h
  rcases hs with rfl | rfl
  · refine ⟨false, body, ?_, hb, Iff.rfl⟩
    rw [List.nil_append]
    unfold Number.splitSign
    split
    · exact absurd (hb.digit_or_point '-' List.mem_cons_self) (by decide)
    · exact absurd (hb.digit_or_point '+' List.mem_cons_self) (by decide)
    · rfl
  · refine ⟨true, body, rfl, hb, ?_⟩
    simp

/-- A text of the shape of a numeral is a number exactly if it has a digit. -/
theorem read?_isSome_iff {text : List Char} (h : NumeralShape text) :
    (Number.read? text).isSome = true ↔ ∃ c ∈ text, c.isDigit = true := by
  obtain ⟨negative, body, hsign, hb, hdigit⟩ := splitSign_of_shape h
  obtain ⟨hinf, hnan⟩ := hb.ne_name
  simp only [Number.read?, hsign, hinf, hnan, if_false, Bool.false_eq_true, Option.isSome_map]
  rw [hdigit, isSome_readDecimal? hb]

/-! ## Numerals at a place -/

def Blanks (cs : List Char) : Prop := ∀ c ∈ cs, isBlank c = true

inductive IsSeparator : List Char → Prop
  | blanks {gap : List Char} : Blanks gap → IsSeparator gap
  | comma {before after : List Char} : Blanks before → Blanks after →
      IsSeparator (before ++ ',' :: after)

/-- Behind `gap`, the numeral `a` stands at `c`, and `d` is the place after it. -/
structure Stands (gap : List Char) (c : Cursor) (a : Numeral) (d : Cursor) : Prop where
  numeral : IsNumeral a.text
  ends : Ends a.text d.rest
  value : Number.read? a.text = some a.value
  text : c.rest = gap ++ (a.text ++ d.rest)
  start : a.start = c.offset + byteLength gap
  offset : d.offset = a.start + byteLength a.text

/-- What is behind the gap before a numeral does not begin with a blank. -/
theorem Stands.stops {gap : List Char} {c d : Cursor} {a : Numeral} (h : Stands gap c a d) :
    Stops isBlank (a.text ++ d.rest) := by
  obtain ⟨first, more, ht, hb, -⟩ := h.numeral.cons
  rw [ht]
  exact stops_cons.mpr hb

/-- A gap may be cut in two at any place in it. -/
theorem Stands.append {before after : List Char} {c m d : Cursor} {a : Numeral}
    (h : Stands after m a d) (hr : c.rest = before ++ m.rest)
    (ho : m.offset = c.offset + byteLength before) : Stands (before ++ after) c a d where
  numeral := h.numeral
  ends := h.ends
  value := h.value
  text := by rw [hr, h.text, List.append_assoc]
  start := by rw [h.start, ho, byteLength_append, Nat.add_assoc]
  offset := h.offset

namespace Cursor

variable {c d : Cursor} {a : Numeral}

theorem rest_eq_skipBlanks (c : Cursor) :
    ∃ gap, Blanks gap ∧ c.rest = gap ++ c.skipBlanks.rest ∧
      c.skipBlanks.offset = c.offset + byteLength gap ∧ Stops isBlank c.skipBlanks.rest :=
  ⟨c.rest.takeWhile isBlank, fun _ => List.mem_takeWhile_imp,
    List.takeWhile_append_dropWhile.symm, rfl, stops_dropWhile isBlank c.rest⟩

theorem skipBlanks_eq {gap rest : List Char} (hg : Blanks gap) (hs : Stops isBlank rest)
    (h : c.rest = gap ++ rest) : c.skipBlanks = ⟨c.offset + byteLength gap, rest⟩ := by
  simp only [skipBlanks, skipWhile, past, h]
  rw [takeWhile_append_stops hg hs, dropWhile_append_stops hg hs]

theorem numeral_sound (h : c.numeral = .ok (a, d)) : ∃ gap, Blanks gap ∧ Stands gap c a d := by
  obtain ⟨gap, hg, hr, ho, -⟩ := c.rest_eq_skipBlanks
  obtain ⟨hsplit, hshape, hends⟩ := splitNumeral_sound c.skipBlanks.rest
  simp only [numeral] at h
  split at h
  · rename_i value hv
    cases h
    refine ⟨gap, hg, ⟨⟨hshape, ?_⟩, hends, hv, ?_, ho, rfl⟩⟩
    · rw [← read?_isSome_iff hshape, hv]
      rfl
    · rw [hr]
      exact congrArg (gap ++ ·) hsplit
  · cases h

theorem numeral_complete {gap : List Char} (hg : Blanks gap) (h : Stands gap c a d) :
    c.numeral = .ok (a, d) := by
  obtain ⟨start, text, value⟩ := a
  obtain ⟨offset, rest⟩ := d
  have hstart : start = c.offset + byteLength gap := h.start
  have hoffset : offset = start + byteLength text := h.offset
  have hvalue : Number.read? text = some value := h.value
  simp only [numeral, skipBlanks_eq hg h.stops h.text, splitNumeral_append h.numeral h.ends,
    hvalue, past, hstart, hoffset]

/-- Skipping a separator stops before a comma only if it has skipped one. -/
theorem skipSeparator_cases (c : Cursor) :
    (∃ gap, Blanks gap ∧ c.rest = gap ++ c.skipSeparator.rest ∧
      c.skipSeparator.offset = c.offset + byteLength gap) ∨
    ∃ gap, Blanks gap ∧ c.rest = (gap ++ [',']) ++ c.skipSeparator.rest ∧
      c.skipSeparator.offset = c.offset + byteLength (gap ++ [',']) := by
  obtain ⟨gap, hg, hr, ho, -⟩ := c.rest_eq_skipBlanks
  unfold skipSeparator
  simp only
  split
  · rename_i rest he
    right
    refine ⟨gap, hg, ?_, ?_⟩
    · rw [hr, he]
      simp [past]
    · simp only [past, ho, byteLength_append, Nat.add_assoc]
  · exact .inl ⟨gap, hg, hr, ho⟩

theorem separated_sound (h : c.skipSeparator.numeral = .ok (a, d)) :
    ∃ gap, IsSeparator gap ∧ Stands gap c a d := by
  obtain ⟨after, ha, hstands⟩ := numeral_sound h
  rcases c.skipSeparator_cases with ⟨before, hb, hr, ho⟩ | ⟨before, hb, hr, ho⟩
  · refine ⟨before ++ after, .blanks ?_, hstands.append hr ho⟩
    intro x hx
    rcases List.mem_append.mp hx with hx | hx
    · exact hb x hx
    · exact ha x hx
  · refine ⟨before ++ [','] ++ after, ?_, hstands.append hr ho⟩
    rw [List.append_assoc]
    exact .comma hb ha

theorem separated_complete {gap : List Char} (hg : IsSeparator gap) (h : Stands gap c a d) :
    c.skipSeparator.numeral = .ok (a, d) := by
  cases hg with
  | blanks hb =>
    -- The blanks are skipped with the separator, and the numeral is reached at once.
    have hskip := skipBlanks_eq hb h.stops h.text
    obtain ⟨first, more, ht, -, hcomma⟩ := h.numeral.cons
    have hsep : c.skipSeparator = ⟨c.offset + byteLength gap, a.text ++ d.rest⟩ := by
      simp only [skipSeparator, hskip]
      split
      · rename_i rest he
        rw [ht] at he
        exact absurd (List.cons.inj he).1 hcomma
      · rfl
    have hnil : Blanks [] := by
      intro x hx
      cases hx
    rw [hsep]
    exact numeral_complete hnil ⟨h.numeral, h.ends, h.value, rfl, h.start, h.offset⟩
  | @comma before after hb ha =>
    have hr : c.rest = before ++ ',' :: (after ++ (a.text ++ d.rest)) := by
      rw [h.text]
      simp
    have hsep : c.skipSeparator =
        ⟨c.offset + byteLength before + byteLength [','], after ++ (a.text ++ d.rest)⟩ := by
      simp only [skipSeparator, skipBlanks_eq hb (stops_cons.mpr (by decide)) hr, past]
    rw [hsep]
    refine numeral_complete ha ⟨h.numeral, h.ends, h.value, rfl, ?_, h.offset⟩
    rw [h.start, byteLength_append, byteLength_cons, byteLength_cons, byteLength_nil]
    simp only
    omega

end Cursor

end SvgDraw
