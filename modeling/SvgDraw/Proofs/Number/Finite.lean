/-
  SvgDraw.Proofs.Number.Finite — which texts are read as finite numbers.

  A float is finite if its exponent field is not all ones (`isFinite_iff_fits`, `unpack_cases`).
  Dividing by a hundred keeps it so, one way and the other (`isFinite_div_hundred`): the quotient
  is below the greatest power of two even after rounding up.

  A decimal is read as infinite from `overflow` on, the middle between the greatest float and the
  power of two after it (`magnitudeBits_eq_infinity_iff`). So the texts that are read, but not as a
  finite number, are those that name infinity or the value that is no number, and those whose
  digits overflow (`Unbounded`, `read?_finite_iff`).
-/

import SvgDraw.Proofs.Number.Nearest

namespace SvgDraw.Number

open Float.Model Float.Model.UnpackedFloat

/-! ## The exponent of a finite float -/

def exponentField (bits : Nat) : Nat := bits / leadingBit % 0x800

theorem exponentField_toNat (b : BitVec Format.binary64.numBits) :
    exponentField b.toNat = (unpackExponent b).toNat :=
  (toNat_unpackExponent b).symm

theorem isFinite_eq_true_iff (x : Float) :
    isFinite x = true ↔ exponentField x.toBits.toNat ≠ 0x7FF := by
  simp only [isFinite, partsOf, Parts.ofBits]
  rw [← exponentField]
  by_cases h : exponentField x.toBits.toNat = 0x7FF
  · by_cases hf : x.toBits.toNat % leadingBit = 0
    · simp [h, hf]
    · simp [h, hf]
  · by_cases hz : exponentField x.toBits.toNat = 0
    · simp [hz]
    · simp [h, hz]

/-- The number is finite once it is packed: its exponent is not beyond that of the greatest
    float. -/
def FitsExponent : UnpackedFloat → Prop
  | .finite _ _ e _ => e ≤ 971
  | .zero _ => True
  | _ => False

theorem isFinite_pack_iff (u : UnpackedFloat) :
    isFinite (.ofModel (.pack u)) = true ↔ FitsExponent u := by
  have hbits :
      (Float.ofModel (.pack u)).toBits.toNat = (UnpackedFloat.pack .binary64 u).toNat := rfl
  rw [isFinite_eq_true_iff, hbits, exponentField_toNat]
  cases u with
  | notANumber =>
    simp [UnpackedFloat.pack, packedNaN, unpackExponent_packComponents, FitsExponent]
  | infinity s =>
    simp [UnpackedFloat.pack, packedInfinity, unpackExponent_packComponents, FitsExponent]
  | zero s =>
    simp [UnpackedFloat.pack, packedZero, unpackExponent_packComponents, FitsExponent]
  | finite s m e hm =>
    have hbias : (Format.binary64.exponentBias : Int) = 1023 := rfl
    have hwidth : (Format.binary64.mantissaBitsWithoutImplicit : Int) = 52 := rfl
    simp only [UnpackedFloat.pack, FitsExponent, hbias, hwidth]
    by_cases he : e ≤ 971
    · have hfits : ¬ 2 ^ Format.binary64.exponentBits ≤ (e + 1023 + 52).toNat + 1 := by
        show ¬ 2 ^ 11 ≤ _
        omega
      rw [if_neg hfits]
      simp only [he, iff_true]
      split
      · rw [unpackExponent_packComponents, BitVec.toNat_ofNat]
        show (e + 1023 + 52).toNat % 2 ^ 11 ≠ 2047
        omega
      · rw [unpackExponent_packComponents]
        simp
    · have hover : 2 ^ Format.binary64.exponentBits ≤ (e + 1023 + 52).toNat + 1 := by
        show 2 ^ 11 ≤ _
        omega
      rw [if_pos hover]
      simp [packedInfinity, unpackExponent_packComponents, he]

theorem isFinite_iff_fits (x : Float) : isFinite x = true ↔ FitsExponent x.toModel.unpack := by
  have hx : Float.ofModel (.pack x.toModel.unpack) = x := ofBits_toBits x
  rw [← isFinite_pack_iff, hx]

/-- What a bit pattern is taken apart into, by its exponent field. -/
theorem unpack_cases (b : BitVec Format.binary64.numBits) :
    (exponentField b.toNat = 0x7FF ∧
        (UnpackedFloat.unpack .binary64 b = .notANumber ∨
          ∃ s, UnpackedFloat.unpack .binary64 b = .infinity s)) ∨
      exponentField b.toNat ≠ 0x7FF ∧
        ((∃ s, UnpackedFloat.unpack .binary64 b = .zero s) ∨
          ∃ s m e hm, UnpackedFloat.unpack .binary64 b = .finite s m e hm ∧
            m < 2 ^ 53 ∧ e ≤ 971) := by
  have hmantissa : (unpackMantissa b).toNat < 2 ^ 52 := (unpackMantissa b).isLt
  have hexponent : (unpackExponent b).toNat < 2 ^ 11 := (unpackExponent b).isLt
  have hbias : (Format.binary64.exponentBias : Int) = 1023 := rfl
  have hwidth : (Format.binary64.mantissaBitsWithoutImplicit : Int) = 52 := rfl
  have hones : unpackExponent b = -1#11 ↔ exponentField b.toNat = 0x7FF := by
    rw [exponentField_toNat, ← BitVec.toNat_inj]
    rfl
  simp only [UnpackedFloat.unpack, hbias, hwidth]
  split
  · rename_i h
    refine .inl ⟨hones.mp h, ?_⟩
    split
    · exact .inr ⟨_, rfl⟩
    · exact .inl rfl
  · rename_i h
    rw [hones] at h
    refine .inr ⟨h, ?_⟩
    rw [exponentField_toNat] at h
    split
    · rename_i hzero
      have hexponent : (unpackExponent b).toNat = 0 := by
        rw [hzero]
        rfl
      split
      · exact .inl ⟨_, rfl⟩
      · rename_i hne
        have hpos : 0 < (unpackMantissa b).toNat :=
          Nat.pos_of_ne_zero fun h => hne (BitVec.eq_of_toNat_eq h)
        exact .inr ⟨_, _, _, hpos, rfl, by omega, by omega⟩
    · have hlead := toNat_leading (unpackMantissa b)
      have hpos : 0 < (1#1 ++ unpackMantissa b).toNat := by omega
      exact .inr ⟨_, _, _, hpos, rfl, by omega, by omega⟩

theorem fits_unpack_iff (b : BitVec Format.binary64.numBits) :
    FitsExponent (UnpackedFloat.unpack .binary64 b) ↔ exponentField b.toNat ≠ 0x7FF := by
  obtain ⟨h, hu | ⟨s, hu⟩⟩ | ⟨h, ⟨s, hu⟩ | ⟨s, m, e, hm, hu, -, he⟩⟩ := unpack_cases b
  · simp [hu, h, FitsExponent]
  · simp [hu, h, FitsExponent]
  · simp [hu, h, FitsExponent]
  · simp [hu, h, FitsExponent, he]

/-- Of the bit patterns up to that of infinity, all others are finite. -/
theorem isFinite_ofMagnitudeBits {bits : Nat} (h : bits ≤ infinityBits) (negative : Bool) :
    isFinite (ofMagnitudeBits negative bits) = true ↔ bits ≠ infinityBits := by
  have hpack (n : Nat) : isFinite (Float.ofBits (UInt64.ofNat n)) = true ↔
      exponentField (n % 2 ^ 64) ≠ 0x7FF :=
    (isFinite_pack_iff _).trans (fits_unpack_iff _)
  rw [ofMagnitudeBits, hpack]
  unfold exponentField infinityBits at *
  rw [leadingBit_eq] at *
  cases negative with
  | true =>
    rw [if_pos rfl, signBit_eq]
    omega
  | false =>
    rw [if_neg (by decide)]
    omega

/-! ## Rounding the result of an operation -/

theorem mantissa_shiftRight (em : ExtendedMantissa) (n : Nat) :
    (em >>> n).mantissa = em.mantissa / 2 ^ n := by
  show (Nat.repeat ExtendedMantissa.shiftRightOne n em).mantissa = _
  induction n with
  | zero => simp [Nat.repeat]
  | succ n ih =>
    have hstep : (Nat.repeat ExtendedMantissa.shiftRightOne (n + 1) em).mantissa =
        (Nat.repeat ExtendedMantissa.shiftRightOne n em).mantissa / 2 := rfl
    rw [hstep, ih, Nat.div_div_eq_div_mul, ← Nat.pow_succ]

theorem mantissa_ofMantissaAndAccuracy (m : Nat) (accuracy : Accuracy) :
    (ExtendedMantissa.ofMantissaAndAccuracy m accuracy).mantissa = m := by
  rcases accuracy with _ | (_ | _ | _) <;> rfl

theorem roundedMantissa_le (em : ExtendedMantissa) : em.roundedMantissa ≤ em.mantissa + 1 := by
  have hmod : em.mantissa % 2 < 2 := Nat.mod_lt _ (by decide)
  unfold ExtendedMantissa.roundedMantissa
  rcases em.accuracy with _ | (_ | _ | _)
  all_goals simp only [Accuracy.roundToNearestEven]
  all_goals omega

/-- Rounding after a shift makes a number at most one bit longer than the shift leaves it. -/
theorem log2_le_of_rounded {m n r : Nat} (h : r ≤ m / 2 ^ n + 1) : r.log2 ≤ m.log2 + 1 - n := by
  have hm : m < 2 ^ (m.log2 + 1) := Nat.lt_log2_self
  have hq : m / 2 ^ n < 2 ^ (m.log2 + 1 - n) := by
    rw [Nat.div_lt_iff_lt_mul (Nat.two_pow_pos n), ← Nat.pow_add]
    exact Nat.lt_of_lt_of_le hm (Nat.pow_le_pow_right (by decide) (by omega))
  by_cases hr : r = 0
  · rw [hr]
    exact Nat.zero_le _
  · have hlt : r < 2 ^ (m.log2 + 1 - n + 1) := by
      rw [Nat.pow_succ]
      omega
    exact Nat.le_of_lt_succ ((Nat.log2_lt hr).mpr hlt)

/-- Shifting a number to an exponent of the format and rounding it takes it at most past the next
    power of two. -/
theorem shiftToTargetExponent_bounds (m : Nat) (e : Int) (accuracy : Accuracy) :
    let r := shiftToTargetExponent .binary64 m e accuracy
    r.2 = max e (max (totalExponent m e - 53) (-1074)) ∧
      totalExponent r.1.roundedMantissa r.2 ≤ max (totalExponent m e + 1) (r.2 + 1) := by
  intro r
  have hexponent : r.2 = e + (max (totalExponent m e - 53) (-1074) - e).toNat := rfl
  have hrounded := roundedMantissa_le r.1
  have hmantissa : r.1.mantissa = m / 2 ^ (max (totalExponent m e - 53) (-1074) - e).toNat := by
    refine (mantissa_shiftRight _ _).trans ?_
    rw [mantissa_ofMantissaAndAccuracy]
    rfl
  rw [hmantissa] at hrounded
  have hlog := log2_le_of_rounded hrounded
  generalize hn : (max (totalExponent m e - 53) (-1074) - e).toNat = n at *
  refine ⟨by omega, ?_⟩
  unfold totalExponent
  omega

/-- A number below the greatest power of two is rounded to a finite one. -/
theorem roundWithAccuracy_fits (s : Sign) {m : Nat} {e : Int} (he : e ≤ 971)
    (ht : totalExponent m e ≤ 1023) (accuracy : Accuracy) :
    FitsExponent (roundWithAccuracy .binary64 s m e accuracy) := by
  obtain ⟨hfirst, hrounded⟩ := shiftToTargetExponent_bounds m e accuracy
  generalize hr : shiftToTargetExponent .binary64 m e accuracy = r at *
  -- A carry of the first rounding is taken up by a second shift, which is exact.
  obtain ⟨hsecond, -⟩ := shiftToTargetExponent_bounds r.1.roundedMantissa r.2 .exact
  unfold roundWithAccuracy
  simp only [hr]
  split
  · trivial
  · show (shiftToTargetExponent .binary64 r.1.roundedMantissa r.2 .exact).2 ≤ 971
    omega

/-! ## Percentages -/

theorem unpack_hundred :
    (100.0 : Float).toModel.unpack = .finite .positive 7036874417766400 (-46) (by decide) := by
  have h : (100.0 : Float) = .ofBits 0x4059000000000000 := by decide +kernel
  rw [h]
  rfl

theorem log2_hundred : (7036874417766400 : Nat).log2 = 52 := by decide +kernel

theorem div_hundred_eq (x : Float) :
    x / 100.0 = .ofModel (.pack (.div .binary64 x.toModel.unpack
      (.finite .positive 7036874417766400 (-46) (by decide)))) := by
  rw [← unpack_hundred]
  rfl

theorem log2_shiftLeft {m : Nat} (hm : 0 < m) (n : Nat) : (m <<< n).log2 = m.log2 + n := by
  have hlow := Nat.mul_le_mul_right (2 ^ n) (Nat.log2_self_le (Nat.ne_of_gt hm))
  have hhigh := Nat.mul_lt_mul_of_pos_right (@Nat.lt_log2_self m) (Nat.two_pow_pos n)
  rw [← Nat.pow_add] at hlow hhigh
  rw [Nat.shiftLeft_eq, Nat.log2_eq_iff (Nat.ne_of_gt (Nat.mul_pos hm (Nat.two_pow_pos n)))]
  exact ⟨hlow, by rwa [Nat.add_right_comm]⟩

/-- The quotient of a finite float by a hundred is below the greatest power of two. -/
theorem divCore_hundred_bounds {m : Nat} {e : Int} (hm : 0 < m) (hlt : m < 2 ^ 53)
    (he : e ≤ 971) :
    let r := divCore .binary64 m e 7036874417766400 (-46)
    r.2.1 ≤ 971 ∧ totalExponent r.1 r.2.1 ≤ 1023 := by
  intro r
  have hlog : m.log2 < 53 := (Nat.log2_lt (Nat.ne_of_gt hm)).mpr hlt
  have hexponent : r.2.1 = min (e - -46) (max (m.log2 + 1 + e - 7 - 53) (-1074)) := by
    have hbits : (Format.binary64.mantissaBits : Int) = 53 := rfl
    have hmin : Format.binary64.minExponent = -1074 := rfl
    show min (e - -46) (Format.binary64.targetExponent
      (totalExponent m e - totalExponent 7036874417766400 (-46))) = _
    simp only [Format.targetExponent, totalExponent, log2_hundred, hbits, hmin]
    congr 1
  have hquotient : r.1 = (m <<< (e - -46 - r.2.1).toNat) / 7036874417766400 := rfl
  generalize r.2.1 = t at *
  have hle : r.1.log2 ≤ m.log2 + (e - -46 - t).toNat + 1 - 52 := by
    rw [← log2_shiftLeft hm]
    apply log2_le_of_rounded
    rw [hquotient]
    exact Nat.le_succ_of_le (Nat.div_le_div_left (by decide) (by decide))
  refine ⟨by omega, ?_⟩
  unfold totalExponent
  omega

/-- A percentage is finite if the number before the sign is. -/
theorem isFinite_div_hundred (x : Float) : isFinite (x / 100.0) = isFinite x := by
  have hunpack : x.toModel.unpack = UnpackedFloat.unpack .binary64 x.toBits.toBitVec := rfl
  rw [Bool.eq_iff_iff, isFinite_iff_fits x, div_hundred_eq, isFinite_pack_iff, hunpack]
  obtain ⟨-, hu | ⟨s, hu⟩⟩ | ⟨-, ⟨s, hu⟩ | ⟨s, m, e, hm, hu, hlt, he⟩⟩ :=
    unpack_cases x.toBits.toBitVec
  · simp [hu, UnpackedFloat.div, FitsExponent]
  · simp [hu, UnpackedFloat.div, FitsExponent]
  · simp [hu, UnpackedFloat.div, FitsExponent]
  · obtain ⟨hexponent, htotal⟩ := divCore_hundred_bounds hm hlt he
    rw [hu]
    exact iff_of_true (roundWithAccuracy_fits _ hexponent htotal _) he

/-! ## Decimals that overflow -/

/-- A quotient is rounded to an even number or more if it is at most a half below it. -/
theorem le_roundDiv_iff {num den n : Nat} (hd : 0 < den) (hn : n % 2 = 0) :
    n ≤ roundDiv num den ↔ 2 * (n * den) ≤ 2 * num + den := by
  have hsplit : num / den * den + num % den = num := Nat.div_add_mod' num den
  have hmod := Nat.mod_lt num hd
  simp only [roundDiv]
  generalize num / den = q at *
  generalize num % den = r at *
  have hnext : (q + 1) * den = q * den + den := Nat.succ_mul q den
  rcases Nat.lt_trichotomy n (q + 1) with hlt | rfl | hgt
  · have hle : n * den ≤ q * den := Nat.mul_le_mul_right den (by omega)
    split
    · omega
    · omega
  · -- A tie goes up, since the number below is odd.
    have hodd : q % 2 = 1 := by omega
    rw [hnext]
    by_cases h : 2 * r < den
    · rw [if_pos (by simp [h])]
      omega
    · rw [if_neg (by simp [h, hodd])]
      omega
  · have hle : (q + 2) * den ≤ n * den := Nat.mul_le_mul_right den (by omega)
    rw [Nat.succ_mul] at hle
    split
    · omega
    · omega

/-- A fraction has 53 bits at its scale, or fewer at the smallest. -/
theorem bounds_of_scale {units den scale : Nat} (hd : 0 < den)
    (h : (units / den).log2 - 52 = scale) :
    units < 2 * leadingBit * (den * twoTo scale) ∧
      (scale = 0 ∨ leadingBit * (den * twoTo scale) ≤ units) := by
  have hpow (n : Nat) : 2 ^ (n + scale) * den = 2 ^ n * (den * twoTo scale) := by
    rw [twoTo_eq, pow_add]
    ring
  constructor
  · have hlt : units / den < 2 ^ (53 + scale) :=
      Nat.lt_of_lt_of_le Nat.lt_log2_self (Nat.pow_le_pow_right (by decide) (by omega))
    rw [Nat.div_lt_iff_lt_mul hd, hpow] at hlt
    exact hlt
  · by_cases h0 : scale = 0
    · exact .inl h0
    · have hne : units / den ≠ 0 := by
        intro hz
        rw [hz] at h
        exact h0 h.symm
      have hle : 2 ^ (52 + scale) ≤ units / den :=
        Nat.le_trans (Nat.pow_le_pow_right (by decide) (by omega)) (Nat.log2_self_le hne)
      rw [Nat.le_div_iff_mul_le hd, hpow] at hle
      exact .inr hle

theorem nearestBits_eq_infinity_iff {num den : Nat} (hd : 0 < den) :
    nearestBits num den = infinityBits ↔
      (2 ^ 54 - 1) * (den * twoTo 2044) ≤ num * twoTo unitPlaces := by
  simp only [nearestBits]
  generalize num * twoTo unitPlaces = units
  generalize hscale : (units / den).log2 - 52 = scale
  obtain ⟨hhigh, hlow⟩ := bounds_of_scale hd hscale
  have hplace : 0 < den * twoTo scale := by
    rw [twoTo_eq]
    positivity
  have hround {n : Nat} (hn : n % 2 = 0) := @le_roundDiv_iff units _ n hplace hn
  have hdouble (n : Nat) : den * twoTo (n + 1) = 2 * (den * twoTo n) := by
    rw [twoTo_eq, twoTo_eq, pow_succ]
    ring
  have hmono {m n : Nat} (h : m ≤ n) : den * twoTo m ≤ den * twoTo n :=
    Nat.mul_le_mul_left den (Nat.pow_le_pow_right (by decide) h)
  have htop : den * twoTo 2045 = 2 * (den * twoTo 2044) := hdouble 2044
  rw [min_eq_right_iff, infinityBits]
  rw [leadingBit_eq] at *
  -- Only at the greatest scale does the mantissa decide.
  rcases Nat.lt_trichotomy scale 2045 with hlt | rfl | hgt
  · have hsmall : den * twoTo scale ≤ den * twoTo 2044 := hmono (Nat.le_of_lt_succ hlt)
    have hmantissa := @hround (2 ^ 53 + 2) (by decide)
    omega
  · have hmantissa := @hround (2 ^ 53) (by decide)
    omega
  · have hgreat : den * twoTo 2046 ≤ den * twoTo scale := hmono hgt
    have hmantissa := @hround (2 ^ 52) (by decide)
    have hnext : den * twoTo 2046 = 2 * (den * twoTo 2045) := hdouble 2045
    omega

/-- The least number that is too great for a float: the middle between the greatest float and the
    power of two after it. -/
def overflow : ℚ := 2 ^ 1024 - 2 ^ 970

theorem overflow_units : overflow * 2 ^ unitPlaces = (2 ^ 54 - 1) * 2 ^ 2044 := by
  have hpower : (2 : ℚ) ^ 1024 = 2 ^ 54 * 2 ^ 970 := by rw [← pow_add]
  have hscale : (2 : ℚ) ^ 2044 = 2 ^ 970 * 2 ^ unitPlaces := by
    rw [← pow_add]
    rfl
  rw [overflow, hpower, hscale, ← mul_assoc, sub_mul (2 ^ 54), one_mul]

theorem one_lt_overflow : 1 < overflow := by
  have hone : (1 : ℚ) < 2 ^ 970 := one_lt_pow₀ (by norm_num) (by norm_num)
  have htwice : (2 : ℚ) ^ 970 + 2 ^ 970 ≤ 2 ^ 1024 := by
    rw [← two_mul, ← pow_succ']
    exact pow_le_pow_right₀ (by norm_num) (by norm_num)
  exact lt_of_lt_of_le hone (le_sub_iff_add_le.mpr htwice)

theorem overflow_lt_far : overflow < 10 ^ (farPlaces : Int) := by
  calc overflow < 2 ^ 1024 := sub_lt_self _ (by positivity)
    _ ≤ 2 ^ 1075 := pow_le_pow_right₀ (by norm_num) (by norm_num)
    _ < 10 ^ (farPlaces : Int) := two_pow_lt_far

/-- The float nearest to a fraction is infinite from the overflow on. -/
theorem nearestBits_eq_infinity_iff_overflow {num den : Nat} (hd : 0 < den) :
    nearestBits num den = infinityBits ↔ overflow ≤ (num : ℚ) / den := by
  have hdq : (0 : ℚ) < den := by exact_mod_cast hd
  have hunit : (0 : ℚ) < 2 ^ unitPlaces := by positivity
  have hleast : (((2 ^ 54 - 1) * (den * twoTo 2044) : Nat) : ℚ) =
      overflow * den * 2 ^ unitPlaces := by
    have hfactor : ((2 ^ 54 - 1 : Nat) : ℚ) = 2 ^ 54 - 1 := by norm_num
    rw [mul_right_comm, overflow_units, Nat.cast_mul, Nat.cast_mul, twoTo_eq, Nat.cast_pow,
      hfactor, Nat.cast_ofNat, mul_comm (den : ℚ), mul_assoc]
  rw [nearestBits_eq_infinity_iff hd, le_div_iff₀ hdq, ← mul_le_mul_iff_left₀ hunit,
    ← cast_units, ← hleast, Nat.cast_le]

theorem Decimal.magnitudeBits_le (d : Decimal) : d.magnitudeBits ≤ infinityBits := by
  unfold magnitudeBits
  dsimp only
  split
  · exact Nat.zero_le _
  · split
    · exact Nat.le_refl _
    · split <;> exact Nat.min_le_right _ _

/-- A decimal is read as infinite from the overflow on. -/
theorem Decimal.magnitudeBits_eq_infinity_iff (d : Decimal) :
    d.magnitudeBits = infinityBits ↔ overflow ≤ d.value := by
  have hzero : 0 ≠ infinityBits := by decide
  by_cases hcoefficient : d.coefficient = 0
  · have hvalue : d.value = 0 := by simp [value, hcoefficient]
    simp only [magnitudeBits, hcoefficient, decide_true, Bool.true_or, if_true, hzero, hvalue,
      false_iff, not_le]
    exact lt_trans one_pos one_lt_overflow
  · simp only [magnitudeBits, hcoefficient, decide_false, Bool.false_or, decide_eq_true_eq]
    split
    · rename_i hnear
      have hsmall : d.value < 10 ^ (0 : Int) :=
        lt_of_lt_of_le d.value_lt (zpow_le_zpow_right₀ (by norm_num) (by omega))
      simp only [hzero, false_iff, not_le]
      exact hsmall.trans one_lt_overflow
    · split
      · rename_i hfar
        have hgreat : (10 : ℚ) ^ (farPlaces : Int) ≤ d.value :=
          le_trans (zpow_le_zpow_right₀ (by norm_num) (by omega)) (le_value hcoefficient)
        exact iff_of_true rfl (overflow_lt_far.le.trans hgreat)
      · unfold value
        split
        · rename_i e he
          rw [nearestBits_eq_infinity_iff_overflow Nat.one_pos, he]
          simp [tenTo_eq]
        · rename_i e he
          rw [nearestBits_eq_infinity_iff_overflow (by rw [tenTo_eq]; positivity), he]
          simp [tenTo_eq, zpow_negSucc, div_eq_mul_inv]

theorem Decimal.isFinite_toFloat (negative : Bool) (d : Decimal) :
    isFinite (d.toFloat negative) = true ↔ d.value < overflow := by
  rw [toFloat, isFinite_ofMagnitudeBits d.magnitudeBits_le, ne_eq, magnitudeBits_eq_infinity_iff,
    not_le]

/-! ## Texts -/

/-- The text is read, but not as a finite number: behind its sign it names infinity or the value
    that is no number, in any case, or its digits overflow. -/
def Unbounded (cs : List Char) : Prop :=
  let body := (splitSign cs).2
  body.map Char.toLower ∈ nanName :: infinityNames ∨
    ∃ d, readDecimal? body = some d ∧ overflow ≤ d.value

theorem isFinite_nan : isFinite (0.0 / 0.0) = false := by decide +kernel

/-- Whatever a text is read as is finite, but for the unbounded texts. -/
theorem read?_finite_iff (cs : List Char) :
    (∀ x ∈ read? cs, isFinite x = true) ↔ ¬ Unbounded cs := by
  simp only [read?, Unbounded]
  generalize splitSign cs = parts
  obtain ⟨negative, body⟩ := parts
  dsimp only
  split
  · rename_i hname
    rw [List.contains_iff_mem] at hname
    have hinfinite := isFinite_ofMagnitudeBits (Nat.le_refl infinityBits) negative
    simp [hname, hinfinite]
  · rename_i hname
    rw [List.contains_iff_mem] at hname
    split
    · rename_i hnan
      simp [hnan, isFinite_nan]
    · rename_i hnan
      simp [hname, hnan, Decimal.isFinite_toFloat]

end SvgDraw.Number
