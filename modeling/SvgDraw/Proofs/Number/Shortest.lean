/-
  SvgDraw.Proofs.Number.Shortest — the decimal that a float is written as rounds to the float.

  The search goes down from a high power of ten and takes the first multiple that lies in the
  float's interval. The float itself is a multiple of the last place, so the search always ends in
  the interval (`coarsest_holds`). The interval, counted in quarters of the last decimal place, is
  the one of the numbers that round to the float (`roundsTo_of_holds`), since both count the same
  length once in powers of ten and once in powers of two (`lastPlace_eq`).
-/

import SvgDraw.Number.Shortest
import SvgDraw.Proofs.Number.Nearest

namespace SvgDraw.Number

/-! ## The search -/

theorem Interval.holds_multiple? {i : Interval} {power n : Nat} (h : i.multiple? power = some n) :
    i.holds (n * (4 * tenTo power)) = true := by
  simp only [multiple?] at h
  split at h
  · rename_i hbelow habove
    cases h
    split
    · exact hbelow
    · exact habove
  · rename_i hbelow _
    cases h
    exact hbelow
  · rename_i _ habove
    cases h
    exact habove
  · cases h

/-- The search ends in the interval, if the centre is a whole number of last places. -/
theorem Interval.coarsest_holds {i : Interval} (hc : i.holds i.centre = true)
    (h4 : i.centre % 4 = 0) (power : Nat) :
    i.holds ((i.coarsest power).1 * (4 * tenTo (i.coarsest power).2)) = true := by
  induction power with
  | zero =>
    have hgrid : i.centre / (4 * tenTo 0) * (4 * tenTo 0) = i.centre := by
      show i.centre / 4 * 4 = i.centre
      omega
    simp only [coarsest]
    cases hm : i.multiple? 0 with
    | some n => exact holds_multiple? hm
    | none =>
      -- The centre itself is one of the two multiples that were tried.
      simp only [multiple?, hgrid, hc] at hm
      split at hm <;> simp_all
  | succ power ih =>
    simp only [coarsest]
    cases hm : i.multiple? (power + 1) with
    | some n => exact holds_multiple? hm
    | none => exact ih

/-! ## The interval of a float -/

/-- The last place of a float of this scale, in decimals of `exactPlaces scale` places. -/
def lastPlace (scale : Nat) : Nat :=
  if scale < unitPlaces then Nat.pow 5 (exactPlaces scale) else twoTo (scale - unitPlaces)

/-- A last place is `2 ^ scale` units. -/
theorem lastPlace_eq (scale : Nat) :
    lastPlace scale * 2 ^ unitPlaces = 2 ^ scale * 10 ^ exactPlaces scale := by
  unfold lastPlace exactPlaces
  by_cases h : scale < unitPlaces
  · have hten :
        10 ^ (unitPlaces - scale) = 2 ^ (unitPlaces - scale) * 5 ^ (unitPlaces - scale) := by
      rw [← mul_pow]
      rfl
    have htwo : 2 ^ unitPlaces = 2 ^ scale * 2 ^ (unitPlaces - scale) := by
      rw [← pow_add, Nat.add_sub_cancel' h.le]
    rw [if_pos h, hten, htwo]
    show 5 ^ (unitPlaces - scale) * _ = _
    ring
  · have hle : unitPlaces ≤ scale := Nat.not_lt.mp h
    rw [if_neg h, twoTo_eq, ← pow_add, Nat.sub_add_cancel hle, Nat.sub_eq_zero_of_le hle]
    ring

theorem lastPlace_pos (scale : Nat) : 0 < lastPlace scale := by
  rcases Nat.eq_zero_or_pos (lastPlace scale) with h | h
  · have heq := lastPlace_eq scale
    rw [h, Nat.zero_mul] at heq
    have : 0 < 2 ^ scale * 10 ^ exactPlaces scale := by positivity
    omega
  · exact h

variable {mantissa scale : Nat}

theorem ofFloat_eq (mantissa scale : Nat) :
    Interval.ofFloat mantissa scale =
      { low := 4 * mantissa * lastPlace scale - quartersBelow mantissa scale * lastPlace scale
        centre := 4 * mantissa * lastPlace scale
        high := 4 * mantissa * lastPlace scale + 2 * lastPlace scale
        closed := mantissa % 2 == 0 } := by
  unfold Interval.ofFloat quartersBelow lastPlace
  simp only
  split <;> simp

theorem quartersBelow_pos (mantissa scale : Nat) :
    0 < quartersBelow mantissa scale ∧ quartersBelow mantissa scale ≤ 2 := by
  rcases quartersBelow_cases mantissa scale with h | ⟨h, -⟩ <;> omega

theorem holds_centre (hm : 0 < mantissa) :
    (Interval.ofFloat mantissa scale).holds (Interval.ofFloat mantissa scale).centre = true := by
  obtain ⟨hpos, hle⟩ := quartersBelow_pos mantissa scale
  have hplace := lastPlace_pos scale
  have hbelow : 0 < quartersBelow mantissa scale * lastPlace scale := Nat.mul_pos hpos hplace
  have hcentre : 0 < 4 * mantissa * lastPlace scale := by positivity
  rw [ofFloat_eq]
  simp only [Interval.holds]
  split
  · simp
  · simp
    omega

/-- What lies in the interval of a float rounds to it. -/
theorem roundsTo_of_holds {n : Nat}
    (h : (Interval.ofFloat mantissa scale).holds (4 * n) = true) :
    RoundsTo mantissa scale (n / 10 ^ exactPlaces scale * 2 ^ unitPlaces) := by
  have hplace : (lastPlace scale : ℚ) * (2 ^ unitPlaces / 10 ^ exactPlaces scale) = 2 ^ scale := by
    have heq : (lastPlace scale : ℚ) * 2 ^ unitPlaces = 2 ^ scale * 10 ^ exactPlaces scale := by
      exact_mod_cast lastPlace_eq scale
    rw [mul_div_assoc', heq, mul_div_cancel_right₀ _ (by positivity)]
  have hunit : (n : ℚ) / 10 ^ exactPlaces scale * 2 ^ unitPlaces =
      n * (2 ^ unitPlaces / 10 ^ exactPlaces scale) := by ring
  rw [hunit, roundsTo_iff (by positivity) hplace]
  rw [ofFloat_eq] at h
  simp only [Interval.holds, beq_iff_eq, Nat.mul_assoc 4 mantissa] at h
  split at h
  · simp only [Bool.and_eq_true, decide_eq_true_eq] at h
    omega
  · simp only [Bool.and_eq_true, decide_eq_true_eq] at h
    omega

/-! ## The shortest decimal -/

/-- The decimal that a float is written as rounds to the float. -/
theorem shortest_roundsTo (hm : 0 < mantissa) :
    RoundsTo mantissa scale ((shortest mantissa scale).value * 2 ^ unitPlaces) := by
  have hcentre : (Interval.ofFloat mantissa scale).centre % 4 = 0 := by
    rw [ofFloat_eq, Nat.mul_assoc]
    exact Nat.mul_mod_right 4 _
  have hholds := Interval.coarsest_holds (holds_centre hm) hcentre
    (powerAbove (Interval.ofFloat mantissa scale).high)
  simp only [shortest, Decimal.value]
  generalize Interval.coarsest _ _ = found at hholds ⊢
  obtain ⟨coefficient, power⟩ := found
  have hround := roundsTo_of_holds (n := coefficient * 10 ^ power)
    (by rw [← hholds, tenTo_eq]; congr 1; ring)
  convert hround using 2
  rw [zpow_sub₀ (by norm_num), zpow_natCast, zpow_natCast]
  push_cast
  ring

end SvgDraw.Number
