/-
  SvgDraw.Proofs.Number.Readback — the number a script writes is the number path data reads.

  A decimal in full is a numeral, and reading it gives a decimal of the same value
  (`readDecimal?_positional`): zeros behind the digits are part of them, and zeros before them
  count nothing. The decimal of a float rounds to the float, so the text of every finite float is
  a numeral that is read as the float without the sign of a zero (`read?_script`).
-/

import SvgDraw.Number.Style
import SvgDraw.Proofs.Number.Shortest
import SvgDraw.Proofs.Number.Text
import SvgDraw.Proofs.Path.Numeral

namespace SvgDraw.Number

/-! ## Digits -/

theorem digitsValue_eq (cs : List Char) : digitsValue cs = Nat.ofDigitChars 10 cs 0 := rfl

theorem digitsValue_append (as bs : List Char) :
    digitsValue (as ++ bs) = 10 ^ bs.length * digitsValue as + digitsValue bs := by
  rw [digitsValue_eq, Nat.ofDigitChars_append, Nat.ofDigitChars_eq_ofDigitChars_zero]
  rfl

@[simp] theorem digitsValue_digitsOf (n : Nat) : digitsValue (digitsOf n) = n :=
  Nat.ofDigitChars_ten_toDigits

@[simp] theorem digitsValue_zeros (n : Nat) : digitsValue (List.replicate n '0') = 0 := by
  rw [digitsValue_eq, Nat.ofDigitChars_replicate_zero, Nat.mul_zero]

theorem digits_digitsOf (n : Nat) : Digits (digitsOf n) := fun _ => isDigit_of_mem_digitsOf

theorem digits_zeros (n : Nat) : Digits (List.replicate n '0') := by
  intro c hc
  rw [List.eq_of_mem_replicate hc]
  rfl

theorem digits_append {as bs : List Char} (has : Digits as) (hbs : Digits bs) :
    Digits (as ++ bs) := by
  intro c hc
  rcases List.mem_append.mp hc with hc | hc
  · exact has c hc
  · exact hbs c hc

/-! ## Decimals -/

theorem readDecimal?_whole {digits : List Char} (hd : Digits digits) (hne : digits ≠ []) :
    readDecimal? digits = some ⟨digitsValue digits, 0⟩ := by
  have ht := takeWhile_append_stops hd stops_nil
  have hr := dropWhile_append_stops hd stops_nil
  rw [List.append_nil] at ht hr
  simp [readDecimal?, ht, hr, hne]

theorem readDecimal?_pointed {whole fraction : List Char} {n : Nat} (hw : Digits whole)
    (hf : Digits fraction) (hne : whole ≠ []) (hplaces : fraction.length = n + 1) :
    readDecimal? (whole ++ '.' :: fraction) =
      some ⟨digitsValue (whole ++ fraction), .negSucc n⟩ := by
  have hpoint : Stops Char.isDigit ('.' :: fraction) := stops_cons.mpr (by decide)
  have ht := takeWhile_append_stops hf stops_nil
  have hr := dropWhile_append_stops hf stops_nil
  rw [List.append_nil] at ht hr
  simp [readDecimal?, takeWhile_append_stops hw hpoint, dropWhile_append_stops hw hpoint, ht, hr,
    hne, hplaces, Int.negSucc_eq]

/-- A decimal written in full is digits with at most one point, and is read as a decimal of the
    same value. -/
theorem readDecimal?_positional (d : Decimal) :
    Mantissa (d.positional []) ∧
      ∃ e, readDecimal? (d.positional []) = some e ∧ e.value = d.value := by
  obtain ⟨coefficient, exponent⟩ := d
  have hvalue := digitsValue_digitsOf coefficient
  have hdigits := digits_digitsOf coefficient
  have hlength := length_digitsOf_pos coefficient
  simp only [Decimal.positional]
  generalize digitsOf coefficient = digits at hvalue hdigits hlength
  subst hvalue
  cases exponent with
  | ofNat zeros =>
    have hall := digits_append hdigits (digits_zeros zeros)
    have hne : digits ++ List.replicate zeros '0' ≠ [] := by
      intro he
      simp [List.append_eq_nil_iff.mp he] at hlength
    simp only [List.append_nil]
    refine ⟨.whole hall, _, readDecimal?_whole hall hne, ?_⟩
    simp [Decimal.value, digitsValue_append, mul_comm]
  | negSucc n =>
    dsimp only
    split
    · -- The point stands among the digits.
      have hwhole : Digits (digits.take (digits.length - (n + 1))) :=
        fun c hc => hdigits c (List.mem_of_mem_take hc)
      have hfraction : Digits (digits.drop (digits.length - (n + 1))) :=
        fun c hc => hdigits c (List.mem_of_mem_drop hc)
      have hne : digits.take (digits.length - (n + 1)) ≠ [] := by
        apply List.ne_nil_of_length_pos
        rw [List.length_take]
        omega
      have hplaces : (digits.drop (digits.length - (n + 1))).length = n + 1 := by
        rw [List.length_drop]
        omega
      refine ⟨.pointed hwhole hfraction, _,
        readDecimal?_pointed hwhole hfraction hne hplaces, ?_⟩
      rw [List.take_append_drop]
    · -- All digits are behind the point, after some zeros.
      have hfraction := digits_append (digits_zeros (n + 1 - digits.length)) hdigits
      have hwhole : Digits ['0'] := digits_zeros 1
      have htext : '0' :: '.' :: List.replicate (n + 1 - digits.length) '0' ++ digits =
          ['0'] ++ '.' :: (List.replicate (n + 1 - digits.length) '0' ++ digits) := rfl
      have hplaces : (List.replicate (n + 1 - digits.length) '0' ++ digits).length = n + 1 := by
        rw [List.length_append, List.length_replicate]
        omega
      rw [htext]
      refine ⟨.pointed hwhole hfraction, _,
        readDecimal?_pointed hwhole hfraction (List.cons_ne_nil _ _) hplaces, ?_⟩
      have hzero : digitsValue ['0'] = 0 := rfl
      rw [digitsValue_append, digitsValue_append, digitsValue_zeros, hzero, Nat.mul_zero,
        Nat.mul_zero, Nat.zero_add, Nat.zero_add]

/-! ## Floats -/

/-- A numeral of some decimal is read as the nearest float. -/
theorem read?_numeral (negative : Bool) {body : List Char} {d : Decimal} (hb : Mantissa body)
    (hd : readDecimal? body = some d) :
    IsNumeral ((if negative then ['-'] else []) ++ body) ∧
      read? ((if negative then ['-'] else []) ++ body) = some (d.toFloat negative) := by
  obtain ⟨hinf, hnan⟩ := hb.ne_name
  obtain ⟨c, hc, hdigit⟩ := (isSome_readDecimal? hb).mp (by rw [hd]; rfl)
  cases negative with
  | true =>
    refine ⟨⟨⟨['-'], body, .inr rfl, hb, rfl⟩, c, List.mem_append_right _ hc, hdigit⟩, ?_⟩
    simp only [if_true, List.singleton_append, read?, splitSign, hinf, hnan, hd,
      Bool.false_eq_true, if_false, Option.map_some]
  | false =>
    have hshape : NumeralShape body := ⟨[], body, .inl rfl, hb, rfl⟩
    refine ⟨⟨hshape, c, hc, hdigit⟩, ?_⟩
    have hsign : splitSign body = (false, body) := by
      unfold splitSign
      split
      · exact absurd (hb.digit_or_point '-' List.mem_cons_self) (by decide)
      · exact absurd (hb.digit_or_point '+' List.mem_cons_self) (by decide)
      · rfl
    simp only [Bool.false_eq_true, if_false, List.nil_append, read?, hsign, hinf, hnan, hd,
      Option.map_some]

/-- The text of a finite float is a numeral and is read as the float, but for the sign of a
    zero. -/
theorem read?_script {x : Float} (h : isFinite x = true) :
    IsNumeral (Style.script.chars x) ∧ read? (Style.script.chars x) = some (unsigned x) := by
  unfold isFinite at h
  split at h
  · rename_i negative mantissa scale hparts
    have hproper := proper_of_finite hparts
    have hx := ofMagnitudeBits_of_finite hparts
    simp only [Style.chars, hparts]
    split
    · rename_i hm
      -- A zero has the smallest scale, so it is one of two floats; both are written the same.
      have hscale : scale = 0 := by
        by_contra hs
        have := hproper.leading (Nat.pos_of_ne_zero hs)
        rw [leadingBit_eq] at this
        omega
      subst hm hscale
      have hzero := read?_numeral false (.whole (digits_zeros 1))
        (readDecimal?_whole (digits_zeros 1) (List.cons_ne_nil _ _))
      refine ⟨by simpa [Style.script] using hzero.1, ?_⟩
      rw [← hx]
      cases negative with
      | true => decide +kernel
      | false => decide +kernel
    · rename_i hm
      have hpos := Nat.pos_of_ne_zero hm
      obtain ⟨hmantissa, e, he, hvalue⟩ := readDecimal?_positional (shortest mantissa scale)
      have hbits : e.magnitudeBits = scale * leadingBit + mantissa := by
        apply Decimal.magnitudeBits_of_roundsTo hproper hpos
        rw [hvalue]
        exact shortest_roundsTo hpos
      have hne : x ≠ -0.0 := by
        rintro rfl
        have hzero : partsOf (-0.0) = .finite true 0 0 := by decide +kernel
        rw [hzero] at hparts
        cases hparts
        exact hm rfl
      have hread := read?_numeral negative hmantissa he
      simp only [Style.script, if_true]
      rw [unsigned, if_neg hne, ← hx, ← hbits]
      exact hread
  · cases h

end SvgDraw.Number
