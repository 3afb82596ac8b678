/-
  SvgDraw.Proofs.Number.Nearest — which decimals are read as a given float.

  `RoundsTo m s q` says that the rational `q`, in units of the smallest positive float, is nearer
  to the float of mantissa `m` and scale `s` than to its neighbours, or half way to one of them if
  the mantissa is even. The gap below the least mantissa of a scale is half as wide as the others.

  The nearest float to such a number is that float (`nearestBits_of_roundsTo`): at the float's own
  scale rounding gives its mantissa, and a number in the narrow gap, which has the scale below,
  rounds up and carries. A decimal in the range of floats is never so far from the point that its
  digits are not looked at, so it is read as the float too (`magnitudeBits_of_roundsTo`).
-/

import Mathlib.Algebra.Order.Field.Rat
import Mathlib.Algebra.Order.Field.Power
import Mathlib.Tactic.Linarith
import Mathlib.Tactic.NormNum
import Mathlib.Tactic.Positivity
import Mathlib.Tactic.Ring
import SvgDraw.Number.Decimal
import SvgDraw.Proofs.Number.Bits

namespace SvgDraw.Number

theorem twoTo_eq (n : Nat) : twoTo n = 2 ^ n := rfl

theorem tenTo_eq (n : Nat) : tenTo n = 10 ^ n := rfl

theorem cast_units (n : Nat) : ((n * twoTo unitPlaces : Nat) : ℚ) = n * 2 ^ unitPlaces := by
  rw [twoTo_eq, Nat.cast_mul, Nat.cast_pow, Nat.cast_ofNat]

/-! ## Rounding to an integer -/

/-- A quotient within a half of `n` is rounded to `n`; at a distance of a half only if `n` is
    even. -/
theorem roundDiv_eq {num den n : Nat} (hd : 0 < den) (low : 2 * (n * den) ≤ 2 * num + den)
    (high : 2 * num ≤ 2 * (n * den) + den)
    (ties : n % 2 = 1 → 2 * (n * den) ≠ 2 * num + den ∧ 2 * num ≠ 2 * (n * den) + den) :
    roundDiv num den = n := by
  have hsplit : num / den * den + num % den = num := Nat.div_add_mod' num den
  have hmod := Nat.mod_lt num hd
  simp only [roundDiv]
  generalize num / den = q at *
  generalize num % den = r at *
  have hnext : (q + 1) * den = q * den + den := Nat.succ_mul q den
  have hle : q ≤ n := by
    by_contra hlt
    have hmul : (n + 1) * den ≤ q * den := Nat.mul_le_mul_right den (by omega)
    rw [Nat.succ_mul] at hmul
    omega
  have hge : n ≤ q + 1 := by
    by_contra hlt
    have hmul : (q + 2) * den ≤ n * den := Nat.mul_le_mul_right den (by omega)
    rw [Nat.succ_mul] at hmul
    omega
  rcases (by omega : n = q ∨ n = q + 1) with rfl | rfl
  · have heven : 2 * r = den → n % 2 = 0 := by omega
    rw [if_pos]
    rcases Nat.lt_or_ge (2 * r) den with h | h
    · simp [h]
    · have hr : 2 * r = den := by omega
      simp [hr, heven hr]
  · have hodd : 2 * r = den → q % 2 = 1 := by omega
    rw [if_neg]
    rcases Nat.lt_or_ge den (2 * r) with h | h
    · simp
      omega
    · have hr : 2 * r = den := by omega
      simp [hr, hodd hr]

/-! ## Rounding to a float -/

/-- The scale of a number that has 53 bits at that scale, or fewer at the smallest. -/
theorem log2_scale {units den scale : Nat} (hd : 0 < den)
    (high : units < 2 * leadingBit * (den * twoTo scale))
    (low : scale = 0 ∨ leadingBit * (den * twoTo scale) ≤ units) :
    (units / den).log2 - 52 = scale := by
  have hpow : 2 * leadingBit * (den * twoTo scale) = 2 ^ (53 + scale) * den := by
    rw [leadingBit_eq, twoTo_eq, pow_add]
    ring
  have hlt : units / den < 2 ^ (53 + scale) := by
    rw [Nat.div_lt_iff_lt_mul hd]
    omega
  by_cases h0 : units / den = 0
  · rcases low with rfl | low
    · rw [h0]
      rfl
    · have hle : leadingBit * twoTo scale ≤ units / den := by
        rw [Nat.le_div_iff_mul_le hd]
        calc leadingBit * twoTo scale * den = leadingBit * (den * twoTo scale) := by ring
          _ ≤ units := low
      have hpos : 0 < leadingBit * twoTo scale := by
        rw [leadingBit_eq, twoTo_eq]
        positivity
      omega
  · have hupper : (units / den).log2 < 53 + scale := (Nat.log2_lt h0).mpr hlt
    rcases low with rfl | low
    · omega
    · have hle : 2 ^ (52 + scale) ≤ units / den := by
        rw [Nat.le_div_iff_mul_le hd]
        calc 2 ^ (52 + scale) * den = leadingBit * (den * twoTo scale) := by
              rw [leadingBit_eq, twoTo_eq, pow_add]
              ring
          _ ≤ units := low
      have hlower := (Nat.le_log2 h0).mpr hle
      omega

/-- How far below a float the numbers lie that round to it, in quarters of its last place. -/
def quartersBelow (mantissa scale : Nat) : Nat :=
  if mantissa = leadingBit && 0 < scale then 1 else 2

/-- The rational `q`, in units of the smallest positive float, rounds to this float. -/
structure RoundsTo (mantissa scale : Nat) (q : ℚ) : Prop where
  low : (4 * mantissa - quartersBelow mantissa scale) * 2 ^ scale ≤ 4 * q
  high : 4 * q ≤ (4 * mantissa + 2) * 2 ^ scale
  ties : mantissa % 2 = 1 →
    (4 * mantissa - quartersBelow mantissa scale) * 2 ^ scale ≠ 4 * q ∧
      4 * q ≠ (4 * mantissa + 2) * 2 ^ scale

theorem quartersBelow_cases (mantissa scale : Nat) :
    quartersBelow mantissa scale = 2 ∨
      quartersBelow mantissa scale = 1 ∧ mantissa = leadingBit ∧ 0 < scale := by
  unfold quartersBelow
  by_cases hm : mantissa = leadingBit ∧ 0 < scale
  · exact .inr (by simp [hm])
  · exact .inl (by simp [hm])

variable {mantissa scale num den : Nat}

/-- The same without fractions, for a whole number of some `unit`, where `place` is how many of
    these the last place of the float is. -/
theorem roundsTo_iff {place n : Nat} {unit : ℚ} (hu : 0 < unit)
    (hplace : place * unit = 2 ^ scale) :
    RoundsTo mantissa scale (n * unit) ↔
      4 * (mantissa * place) ≤ 4 * n + quartersBelow mantissa scale * place ∧
        4 * n ≤ 4 * (mantissa * place) + 2 * place ∧
        (mantissa % 2 = 1 →
          4 * (mantissa * place) ≠ 4 * n + quartersBelow mantissa scale * place ∧
            4 * n ≠ 4 * (mantissa * place) + 2 * place) := by
  have hlow : (4 * mantissa - quartersBelow mantissa scale : ℚ) * 2 ^ scale =
      (4 * (mantissa * place) - quartersBelow mantissa scale * place) * unit := by
    rw [← hplace]
    ring
  have hhigh :
      (4 * mantissa + 2 : ℚ) * 2 ^ scale = (4 * (mantissa * place) + 2 * place) * unit := by
    rw [← hplace]
    ring
  have hn : 4 * (n * unit) = 4 * n * unit := by ring
  have le_iff : (4 * (mantissa * place) - quartersBelow mantissa scale * place) * unit ≤
      4 * n * unit ↔ 4 * (mantissa * place) ≤ 4 * n + quartersBelow mantissa scale * place := by
    rw [mul_le_mul_iff_left₀ hu, sub_le_iff_le_add]
    exact_mod_cast Iff.rfl
  have ge_iff : 4 * n * unit ≤ (4 * (mantissa * place) + 2 * place) * unit ↔
      4 * n ≤ 4 * (mantissa * place) + 2 * place := by
    rw [mul_le_mul_iff_left₀ hu]
    exact_mod_cast Iff.rfl
  have eq_low : (4 * (mantissa * place) - quartersBelow mantissa scale * place) * unit =
      4 * n * unit ↔ 4 * (mantissa * place) = 4 * n + quartersBelow mantissa scale * place := by
    rw [mul_left_inj' hu.ne', sub_eq_iff_eq_add]
    exact_mod_cast Iff.rfl
  have eq_high : 4 * n * unit = (4 * (mantissa * place) + 2 * place) * unit ↔
      4 * n = 4 * (mantissa * place) + 2 * place := by
    rw [mul_left_inj' hu.ne']
    exact_mod_cast Iff.rfl
  rw [← le_iff, ← ge_iff, ne_eq, ne_eq, ← eq_low, ← eq_high, ← hlow, ← hhigh, ← hn]
  exact ⟨fun h => ⟨h.low, h.high, h.ties⟩, fun h => ⟨h.1, h.2.1, h.2.2⟩⟩

theorem nearestBits_eq {units : Nat} (hunits : units = num * twoTo unitPlaces) (hd : 0 < den)
    (high : units < 2 * leadingBit * (den * twoTo scale))
    (low : scale = 0 ∨ leadingBit * (den * twoTo scale) ≤ units) {n : Nat}
    (hn : roundDiv units (den * twoTo scale) = n)
    (hfits : scale * leadingBit + n ≤ infinityBits) :
    nearestBits num den = scale * leadingBit + n := by
  simp only [nearestBits, ← hunits, log2_scale hd high low, hn]
  exact Nat.min_eq_left hfits

/-- The float that a fraction rounds to is the nearest one. -/
theorem nearestBits_of_roundsTo (hp : Proper mantissa scale) (hd : 0 < den)
    (h : RoundsTo mantissa scale ((num * twoTo unitPlaces : Nat) / den)) :
    nearestBits num den = scale * leadingBit + mantissa := by
  have hdq : (0 : ℚ) < den := by exact_mod_cast hd
  have hlast : ((den * twoTo scale : Nat) : ℚ) * (den : ℚ)⁻¹ = 2 ^ scale := by
    rw [twoTo_eq, Nat.cast_mul, mul_comm, inv_mul_cancel_left₀ hdq.ne']
    exact_mod_cast rfl
  rw [div_eq_mul_inv] at h
  obtain ⟨low, high, ties⟩ := (roundsTo_iff (inv_pos.mpr hdq) hlast).mp h
  have hm := hp.mantissa_lt
  have hs := hp.scale_le
  have hlead := hp.leading
  have hbelow := quartersBelow_cases mantissa scale
  have hfits : scale * leadingBit + mantissa ≤ infinityBits := by
    unfold infinityBits
    rw [leadingBit_eq] at *
    omega
  have hplace : 0 < den * twoTo scale := by
    rw [twoTo_eq]
    positivity
  have hlt : num * twoTo unitPlaces < 2 * leadingBit * (den * twoTo scale) := by
    have hmul : (mantissa + 1) * (den * twoTo scale) ≤ 2 * leadingBit * (den * twoTo scale) :=
      Nat.mul_le_mul_right _ hm
    rw [Nat.succ_mul] at hmul
    omega
  generalize hu : num * twoTo unitPlaces = units at *
  by_cases hscale : scale = 0 ∨ leadingBit * (den * twoTo scale) ≤ units
  · refine nearestBits_eq hu.symm hd hlt hscale ?_ hfits
    have heven : leadingBit % 2 = 0 := by decide
    generalize den * twoTo scale = place at *
    rcases hbelow with hb | ⟨hb, rfl, -⟩
    · rw [hb] at low ties
      exact roundDiv_eq hplace (by omega) (by omega) (by omega)
    · rw [hb] at low
      exact roundDiv_eq hplace (by omega) (by omega) (by omega)
  · -- In the narrow gap below the least mantissa: the scale is one less, and rounding carries.
    obtain ⟨hpos, hgap⟩ := not_or.mp hscale
    obtain ⟨t, rfl⟩ : ∃ t, scale = t + 1 := ⟨scale - 1, by omega⟩
    obtain rfl : mantissa = leadingBit := by
      by_contra hne
      have hge := hlead (Nat.succ_pos t)
      have hmul : (leadingBit + 1) * (den * twoTo (t + 1)) ≤ mantissa * (den * twoTo (t + 1)) :=
        Nat.mul_le_mul_right _ (by omega)
      rw [Nat.succ_mul] at hmul
      rcases hbelow with hb | ⟨hb, -⟩
      · rw [hb] at low
        omega
      · rw [hb] at low
        omega
    have hb : quartersBelow leadingBit (t + 1) = 1 := by simp [quartersBelow]
    have hhalf : den * twoTo (t + 1) = 2 * (den * twoTo t) := by
      rw [twoTo_eq, twoTo_eq, pow_succ]
      ring
    have hcarry : (t + 1) * leadingBit + leadingBit = t * leadingBit + 2 * leadingBit := by ring
    have hdouble : 2 * leadingBit * (den * twoTo t) = 2 * (leadingBit * (den * twoTo t)) := by ring
    have hplace' : leadingBit * (den * twoTo (t + 1)) = 2 * (leadingBit * (den * twoTo t)) := by
      rw [hhalf]
      ring
    have hone : den * twoTo t ≤ leadingBit * (den * twoTo t) :=
      Nat.le_mul_of_pos_left _ (by decide)
    rw [hb, one_mul] at low
    rw [hcarry] at hfits ⊢
    refine nearestBits_eq hu.symm hd (by omega) (.inr (by omega)) ?_ hfits
    exact roundDiv_eq (by omega) (by omega) (by omega) (by omega)

/-! ## Decimals -/

def Decimal.value (d : Decimal) : ℚ := d.coefficient * 10 ^ d.exponent

theorem length_digitsOf_le_iff {n k : Nat} (hk : 0 < k) :
    (digitsOf n).length ≤ k ↔ n < 10 ^ k :=
  Nat.length_toDigits_le_iff (by decide) hk

theorem length_digitsOf_pos (n : Nat) : 0 < (digitsOf n).length :=
  Nat.length_toDigits_pos

/-- A decimal is below the power of ten before its first digit. -/
theorem Decimal.value_lt (d : Decimal) :
    d.value < 10 ^ ((digitsOf d.coefficient).length + d.exponent) := by
  have hlt : d.coefficient < 10 ^ (digitsOf d.coefficient).length :=
    (length_digitsOf_le_iff (length_digitsOf_pos _)).mp (Nat.le_refl _)
  rw [value, zpow_add₀ (by norm_num), zpow_natCast]
  have hq : (d.coefficient : ℚ) < 10 ^ (digitsOf d.coefficient).length := by exact_mod_cast hlt
  exact mul_lt_mul_of_pos_right hq (by positivity)

/-- A decimal that is not zero has a first digit. -/
theorem Decimal.le_value {d : Decimal} (h : d.coefficient ≠ 0) :
    10 ^ ((digitsOf d.coefficient).length - 1 + d.exponent) ≤ d.value := by
  have hlen := length_digitsOf_pos d.coefficient
  have hle : 10 ^ ((digitsOf d.coefficient).length - 1) ≤ d.coefficient := by
    by_contra hlt
    rcases Nat.eq_zero_or_pos ((digitsOf d.coefficient).length - 1) with h0 | hpos
    · rw [h0] at hlt
      omega
    · have := (length_digitsOf_le_iff hpos).mpr (Nat.not_le.mp hlt)
      omega
  have hexp : ((digitsOf d.coefficient).length : Int) - 1 =
      ((digitsOf d.coefficient).length - 1 : Nat) := by omega
  rw [value, zpow_add₀ (by norm_num), hexp, zpow_natCast]
  have hq : (10 : ℚ) ^ ((digitsOf d.coefficient).length - 1) ≤ d.coefficient := by
    exact_mod_cast hle
  exact mul_le_mul_of_nonneg_right hq (by positivity)

theorem two_pow_lt_far : (2 : ℚ) ^ 1075 < 10 ^ (farPlaces : Int) := by
  have h : 2 ^ 1075 < 10 ^ farPlaces := by decide +kernel
  rw [zpow_natCast]
  exact_mod_cast h

/-- What rounds to a float other than zero is at least half of the smallest one. -/
theorem RoundsTo.one_le {q : ℚ} (h : RoundsTo mantissa scale q) (hm : 0 < mantissa) :
    1 ≤ 2 * q := by
  have hbelow : (quartersBelow mantissa scale : ℚ) ≤ 2 := by
    rcases quartersBelow_cases mantissa scale with hb | ⟨hb, -⟩
    · rw [hb]
      norm_num
    · rw [hb]
      norm_num
  have hmq : (1 : ℚ) ≤ mantissa := by exact_mod_cast hm
  have hpow : (1 : ℚ) ≤ 2 ^ scale := one_le_pow₀ (by norm_num)
  have hfirst : (2 : ℚ) * 1 ≤ (4 * mantissa - quartersBelow mantissa scale) * 2 ^ scale :=
    mul_le_mul (by linarith) hpow (by norm_num) (by linarith)
  have := h.low
  linarith

/-- What rounds to a finite float is below the power of two after the greatest one. -/
theorem RoundsTo.lt {q : ℚ} (h : RoundsTo mantissa scale q) (hp : Proper mantissa scale) :
    q < 2 ^ 1024 * 2 ^ unitPlaces := by
  have hmq : (mantissa : ℚ) + 1 ≤ 2 ^ 53 := by
    have hm := hp.mantissa_lt
    have : mantissa + 1 ≤ 2 ^ 53 := by
      rw [leadingBit_eq] at hm
      omega
    exact_mod_cast this
  have hle : q ≤ (mantissa + 1 / 2) * 2 ^ scale := by
    have := h.high
    linarith
  have hhalf : (mantissa : ℚ) + 1 / 2 < 2 ^ 53 := by linarith
  calc q ≤ (mantissa + 1 / 2) * 2 ^ scale := hle
    _ < 2 ^ 53 * 2 ^ 2045 :=
      mul_lt_mul hhalf (pow_le_pow_right₀ (by norm_num) hp.scale_le) (by positivity) (by positivity)
    _ = 2 ^ 1024 * 2 ^ unitPlaces := by
      rw [← pow_add, ← pow_add]
      rfl

/-- A decimal that rounds to a float is read as it. -/
theorem Decimal.magnitudeBits_of_roundsTo {d : Decimal} (hp : Proper mantissa scale)
    (hm : 0 < mantissa) (h : RoundsTo mantissa scale (d.value * 2 ^ unitPlaces)) :
    d.magnitudeBits = scale * leadingBit + mantissa := by
  have hone := h.one_le hm
  have hlt : d.value < 2 ^ 1024 := lt_of_mul_lt_mul_right (h.lt hp) (by positivity)
  have hvalue : 1 ≤ d.value * 2 ^ 1075 := by
    calc 1 ≤ 2 * (d.value * 2 ^ unitPlaces) := hone
      _ = d.value * 2 ^ 1075 := by
        rw [mul_left_comm, ← pow_succ']
        rfl
  have hpos : 0 < d.value := by
    by_contra hle
    have hneg := mul_nonpos_of_nonpos_of_nonneg (not_lt.mp hle) (by positivity : (0 : ℚ) ≤ 2 ^ 1075)
    exact absurd (le_trans hvalue hneg) (by norm_num)
  have hcoefficient : d.coefficient ≠ 0 := by
    intro h0
    simp [value, h0] at hpos
  have hnear : ¬ ((digitsOf d.coefficient).length + d.exponent : Int) < -farPlaces := by
    intro hfar
    have hten : d.value < 10 ^ (-(farPlaces : Int)) :=
      lt_of_lt_of_le d.value_lt (zpow_le_zpow_right₀ (by norm_num) hfar.le)
    have hone : d.value * 2 ^ 1075 < 10 ^ (-(farPlaces : Int)) * 10 ^ (farPlaces : Int) :=
      mul_lt_mul'' hten two_pow_lt_far hpos.le (by positivity)
    rw [← zpow_add₀ (by norm_num), neg_add_cancel, zpow_zero] at hone
    exact absurd (lt_of_le_of_lt hvalue hone) (lt_irrefl 1)
  have hbounded : ¬ (farPlaces : Int) < (digitsOf d.coefficient).length + d.exponent := by
    intro hfar
    have hten : (10 : ℚ) ^ (farPlaces : Int) ≤ d.value :=
      le_trans (zpow_le_zpow_right₀ (by norm_num) (by omega)) (le_value hcoefficient)
    have htwo : (2 : ℚ) ^ 1024 ≤ 2 ^ 1075 := pow_le_pow_right₀ (by norm_num) (by norm_num)
    exact absurd (lt_of_le_of_lt hten hlt) (not_lt.mpr (le_trans htwo two_pow_lt_far.le))
  simp only [magnitudeBits, hcoefficient, hnear, hbounded, decide_false, Bool.or_self,
    Bool.false_eq_true, if_false]
  unfold value at h
  split
  · rename_i e he
    apply nearestBits_of_roundsTo hp Nat.one_pos
    rw [he] at h
    convert h using 1
    rw [cast_units, Nat.cast_one, div_one, tenTo_eq, Nat.cast_mul, Nat.cast_pow, Nat.cast_ofNat,
      Int.ofNat_eq_natCast, zpow_natCast]
  · rename_i e he
    apply nearestBits_of_roundsTo hp (by rw [tenTo_eq]; positivity)
    rw [he] at h
    convert h using 1
    rw [cast_units, tenTo_eq, Nat.cast_pow, Nat.cast_ofNat, zpow_negSucc, div_eq_mul_inv,
      mul_right_comm]

end SvgDraw.Number
