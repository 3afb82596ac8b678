/-
  SvgDraw.Proofs.Number.Bits — floats against their bits.

  A float is taken apart into a sign, a mantissa and an exponent for arithmetic and put together
  afterwards. Nothing is lost on the way (`pack_unpack`), so a float is the one of its own bits
  (`ofBits_toBits`), and adding it to zero changes nothing but the sign of a zero
  (`zero_add_eq_unsigned`).

  The parts of a finite float are a mantissa and a scale of certain sizes (`Proper`), and its bits
  are its sign bit and `scale * leadingBit + mantissa` (`bits_of_finite`). So the float can be put
  together from these (`ofMagnitudeBits_of_finite`).
-/

import Mathlib
import SvgDraw.Number.Binary

namespace SvgDraw.Number

open Float.Model Float.Model.UnpackedFloat

/-! ## The fields of a bit pattern -/

section Fields

variable (b : BitVec Format.binary64.numBits)

theorem toNat_unpackMantissa : (unpackMantissa b).toNat = b.toNat % 2 ^ 52 := by
  simp [unpackMantissa, BitVec.extractLsb]

theorem toNat_unpackExponent : (unpackExponent b).toNat = b.toNat / 2 ^ 52 % 2 ^ 11 := by
  simp [unpackExponent, BitVec.extractLsb, Nat.shiftRight_eq_div_pow]

theorem toNat_unpackSign : (unpackSign b).toNat = b.toNat / 2 ^ 63 % 2 := by
  simp [unpackSign, BitVec.extractLsb, Nat.shiftRight_eq_div_pow]

theorem toNat_packComponents (s : Sign) (e : BitVec 11) (m : BitVec 52) :
    (packComponents .binary64 s e m).toNat =
      (s.toBitVec.toNat * 2 ^ 11 + e.toNat) * 2 ^ 52 + m.toNat := by
  rw [packComponents, BitVec.toNat_append, BitVec.toNat_append,
    ← Nat.shiftLeft_add_eq_or_of_lt m.isLt, ← Nat.shiftLeft_add_eq_or_of_lt e.isLt,
    Nat.shiftLeft_eq, Nat.shiftLeft_eq]

theorem toBitVec_ofBitVec (v : BitVec 1) : (Sign.ofBitVec v).toBitVec = v := by
  revert v
  decide

/-- The three fields of a bit pattern are all of it. -/
theorem packComponents_unpack :
    packComponents .binary64 (Sign.ofBitVec (unpackSign b)) (unpackExponent b) (unpackMantissa b) =
      b := by
  apply BitVec.eq_of_toNat_eq
  have hb : b.toNat < 2 ^ 64 := b.isLt
  rw [toNat_packComponents, toBitVec_ofBitVec, toNat_unpackSign, toNat_unpackExponent,
    toNat_unpackMantissa]
  omega

end Fields

/-! ## Taking apart and putting together -/

/-- The leading bit of a mantissa comes to `2 ^ 52`. -/
theorem toNat_leading (m : BitVec 52) : (1#1 ++ m).toNat = 2 ^ 52 + m.toNat := by
  rw [BitVec.toNat_append, ← Nat.shiftLeft_add_eq_or_of_lt m.isLt]
  rfl

/-- A mantissa without a leading bit is packed with the exponent zero. -/
theorem pack_subnormal (s : Sign) (m : BitVec 52) (e : Int) (he : e = -1074) (hm : 0 < m.toNat) :
    UnpackedFloat.pack .binary64 (.finite s m.toNat e hm) = packComponents .binary64 s 0#11 m := by
  have hlog : m.toNat.log2 < 52 := (Nat.log2_lt (Nat.ne_of_gt hm)).mpr m.isLt
  have hbits : m.toNat.log2 + 1 ≠ Format.binary64.mantissaBits := by
    show m.toNat.log2 + 1 ≠ 53
    omega
  subst he
  simp only [UnpackedFloat.pack]
  rw [if_neg (by decide), if_neg hbits, BitVec.ofNat_toNat, BitVec.setWidth_eq]

/-- A mantissa with a leading bit is packed without it. -/
theorem pack_normal (s : Sign) (m : BitVec 52) (x : BitVec 11) (e : Int)
    (he : e = (x.toNat : Int) - 1075) (hx : x ≠ -1#11) (hm : 0 < (1#1 ++ m).toNat) :
    UnpackedFloat.pack .binary64 (.finite s (1#1 ++ m).toNat e hm) =
      packComponents .binary64 s x m := by
  have hlog : (1#1 ++ m).toNat.log2 = 52 := by
    have := m.isLt
    rw [Nat.log2_eq_iff (Nat.ne_of_gt hm), toNat_leading]
    omega
  have hfits : ¬ 2 ^ 11 ≤ x.toNat + 1 := by
    intro h
    apply hx
    apply BitVec.eq_of_toNat_eq
    have := x.isLt
    have hones : (-1#11).toNat = 2 ^ 11 - 1 := rfl
    omega
  have hfraction : BitVec.ofNat 52 (1#1 ++ m).toNat = m := by
    apply BitVec.eq_of_toNat_eq
    have := m.isLt
    rw [BitVec.toNat_ofNat, toNat_leading]
    omega
  have hbiased : (e + (Format.binary64.exponentBias : Int) +
      (Format.binary64.mantissaBitsWithoutImplicit : Int)).toNat = x.toNat := by
    have hbias : Format.binary64.exponentBias = 1023 := rfl
    simp only [hbias]
    omega
  simp only [UnpackedFloat.pack, hbiased, hlog]
  rw [if_neg hfits, if_pos (by decide), hfraction, BitVec.ofNat_toNat, BitVec.setWidth_eq]

/-- Packing what was unpacked gives the bits back. -/
theorem pack_unpack {b : BitVec Format.binary64.numBits} (h : Format.binary64.Valid b) :
    UnpackedFloat.pack .binary64 (UnpackedFloat.unpack .binary64 b) = b := by
  have hb := packComponents_unpack b
  simp only [UnpackedFloat.unpack]
  split
  · rename_i hones
    split
    · rename_i hzero
      rw [hones, hzero] at hb
      exact hb
    · rename_i hfraction
      exact (h.eq_packedNaN hones hfraction).symm
  · rename_i hones
    split
    · rename_i hsub
      rw [hsub] at hb
      split
      · rename_i hzero
        rw [hzero] at hb
        exact hb
      · rw [pack_subnormal _ _ _ (by rw [hsub]; rfl), hb]
    · exact (pack_normal _ _ _ _ rfl hones _).trans hb

/-- A float is the float of its bits. -/
theorem ofBits_toBits (x : Float) : Float.ofBits x.toBits = x := by
  obtain ⟨⟨bits, valid⟩⟩ := x
  have h := pack_unpack valid
  simp only [Float.ofBits, Float.toBits, Float.Model.ofBits, Float.Model.pack, h]

/-! ## Adding to zero -/

def unsigned (x : Float) : Float := if x = -0.0 then 0.0 else x

theorem unpack_zero : (0.0 : Float).toModel.unpack = .zero .positive := by
  have h : (0.0 : Float) = .ofBits 0 := by decide +kernel
  rw [h]
  rfl

theorem unpack_negative_zero : (-0.0 : Float).toModel.unpack = .zero .negative := by
  have h : (-0.0 : Float) = .ofBits 0x8000000000000000 := by decide +kernel
  rw [h]
  rfl

/-- Adding to zero only takes the sign of a zero away. -/
theorem zero_add_eq_unsigned (x : Float) : 0.0 + x = unsigned x := by
  have hx : Float.ofModel (Float.Model.pack x.toModel.unpack) = x := ofBits_toBits x
  have hsum : 0.0 + x =
      .ofModel (Float.Model.pack (.add .binary64 (.zero .positive) x.toModel.unpack)) := by
    rw [← unpack_zero]
    rfl
  -- What is no zero is what the sum is packed from.
  have hother (hu : ∀ s, x.toModel.unpack ≠ .zero s)
      (ha : UnpackedFloat.add .binary64 (.zero .positive) x.toModel.unpack = x.toModel.unpack) :
      0.0 + x = unsigned x := by
    rw [hsum, ha, hx, unsigned, if_neg]
    rintro rfl
    exact hu _ unpack_negative_zero
  cases hu : x.toModel.unpack with
  | zero s =>
    rw [hu] at hx
    rw [← hx]
    cases s with
    | negative => decide +kernel
    | positive => decide +kernel
  | notANumber => exact hother (by simp [hu]) (by simp [hu, UnpackedFloat.add])
  | infinity s => exact hother (by simp [hu]) (by simp [hu, UnpackedFloat.add])
  | finite s m e hm => exact hother (by simp [hu]) (by simp [hu, UnpackedFloat.add])

theorem unsigned_unsigned (x : Float) : unsigned (unsigned x) = unsigned x := by
  by_cases h : x = -0.0
  · rw [h]
    decide +kernel
  · have hx : unsigned x = x := if_neg h
    rw [hx, hx]

/-! ## Parts -/

/-- The mantissa and the scale of a finite float. -/
structure Proper (mantissa scale : Nat) : Prop where
  mantissa_lt : mantissa < 2 * leadingBit
  /-- Only at the smallest scale may the leading bit be missing. -/
  leading : 0 < scale → leadingBit ≤ mantissa
  scale_le : scale ≤ 2045

theorem leadingBit_eq : leadingBit = 2 ^ 52 := rfl

theorem signBit_eq : signBit = 2 ^ 63 := rfl

/-- The bits of a finite float are its sign, and its scale and mantissa added up. -/
theorem bits_of_finite {bits mantissa scale : Nat} {negative : Bool} (hb : bits < 2 ^ 64)
    (h : Parts.ofBits bits = .finite negative mantissa scale) :
    bits = (if negative then signBit + (scale * leadingBit + mantissa)
        else scale * leadingBit + mantissa) ∧ Proper mantissa scale := by
  have hsum : ∀ n, bits / 2 ^ 52 % 2 ^ 11 * 2 ^ 52 + bits % 2 ^ 52 = n →
      bits = if bits / 2 ^ 63 % 2 == 1 then 2 ^ 63 + n else n := by
    intro n hn
    rcases Nat.mod_two_eq_zero_or_one (bits / 2 ^ 63) with hs | hs
    · rw [hs, if_neg (by decide)]
      omega
    · rw [hs, if_pos (by decide)]
      omega
  simp only [Parts.ofBits] at h
  rw [leadingBit_eq, signBit_eq] at *
  split at h
  · split at h <;> cases h
  · split at h
    · cases h
      refine ⟨hsum _ (by omega), ⟨?_, ?_, by omega⟩⟩
      · rw [leadingBit_eq]
        omega
      · intro h0
        cases h0
    · cases h
      refine ⟨hsum _ (by omega), ⟨?_, ?_, by omega⟩⟩
      · rw [leadingBit_eq]
        omega
      · intro _
        rw [leadingBit_eq]
        omega

theorem proper_of_finite {x : Float} {negative : Bool} {mantissa scale : Nat}
    (h : partsOf x = .finite negative mantissa scale) : Proper mantissa scale :=
  (bits_of_finite x.toBits.toNat_lt h).2

/-- A finite float is put together from its parts. -/
theorem ofMagnitudeBits_of_finite {x : Float} {negative : Bool} {mantissa scale : Nat}
    (h : partsOf x = .finite negative mantissa scale) :
    ofMagnitudeBits negative (scale * leadingBit + mantissa) = x := by
  have hbits := (bits_of_finite x.toBits.toNat_lt h).1
  rw [ofMagnitudeBits, ← hbits, UInt64.ofNat_toNat, ofBits_toBits]

end SvgDraw.Number
