import Mathlib
import TimingStats.Saturation

/-! # The value of a double

`toRat` reads a finite double as the format defines it: a sign, a fraction with a leading one
unless the exponent field is zero, and a power of two. -/

namespace TimingStats.Binary64

open Float.Model Float.Model.UnpackedFloat

/-- The value of a finite double by its three fields. -/
def toRat (x : Float) : ℚ :=
  (if negative x then -1 else 1) *
    if exponentField x = 0 then (fractionField x : ℚ) / 2 ^ 52 * 2 ^ (-1022 : ℤ)
    else (1 + (fractionField x : ℚ) / 2 ^ 52) * 2 ^ ((exponentField x : ℤ) - 1023)

theorem exponentField_eq (x : Float) : exponentField x = x.toBits.toNat / 2 ^ 52 % 2 ^ 11 := by
  have h := Nat.and_two_pow_sub_one_eq_mod (x.toBits.toNat >>> 52) 11
  unfold exponentField
  rw [UInt64.toNat_and, UInt64.toNat_shiftRight, ← Nat.shiftRight_eq_div_pow]
  exact h

theorem fractionField_eq (x : Float) : fractionField x = x.toBits.toNat % 2 ^ 52 := by
  have h := Nat.and_two_pow_sub_one_eq_mod x.toBits.toNat 52
  unfold fractionField
  rw [UInt64.toNat_and]
  simpa using h

theorem negative_iff (x : Float) : negative x = true ↔ 2 ^ 63 ≤ x.toBits.toNat := by
  have hlt := x.toBits.toNat_lt
  have hs : (x.toBits >>> 63).toNat = x.toBits.toNat / 2 ^ 63 := by
    rw [UInt64.toNat_shiftRight, Nat.shiftRight_eq_div_pow]
    rfl
  unfold negative
  rw [bne_iff_ne, Ne, ← UInt64.toNat_inj, hs, UInt64.toNat_zero]
  omega

theorem units_eq (x : Float) :
    (units x : ℚ) = (if negative x then -1 else 1) * (significand x * 2 ^ shift x) := by
  unfold units magnitude
  rw [Nat.shiftLeft_eq]
  split <;> push_cast <;> ring

theorem toRat_eq_units (x : Float) : toRat x = units x * 2 ^ (-1074 : ℤ) := by
  rw [units_eq, mul_assoc]
  unfold toRat significand shift
  congr 1
  split
  · rename_i h
    have hp : (2 : ℚ) ^ (-1022 : ℤ) = 2 ^ 52 * 2 ^ (-1074 : ℤ) := by
      rw [← zpow_natCast, ← zpow_add₀ (by norm_num)]
      norm_num
    rw [hp, h, show max 0 1 - 1 = 0 from rfl, pow_zero]
    generalize (2 : ℚ) ^ (-1074 : ℤ) = u
    ring
  · rename_i h
    have hpos : 1 ≤ exponentField x := Nat.one_le_iff_ne_zero.mpr h
    have hp : (2 : ℚ) ^ ((exponentField x : ℤ) - 1023) =
        2 ^ 52 * 2 ^ (exponentField x - 1) * 2 ^ (-1074 : ℤ) := by
      rw [← pow_add, ← zpow_natCast, ← zpow_add₀ (by norm_num)]
      congr 1
      omega
    rw [max_eq_left hpos, hp]
    generalize (2 : ℚ) ^ (-1074 : ℤ) = u
    unfold hiddenBit
    push_cast
    ring

/-! ## Packed and unpacked -/

def sign (x : Float) : Sign := if negative x then .negative else .positive

variable (b : BitVec Format.binary64.numBits)

theorem toNat_unpackExponent : (unpackExponent b).toNat = b.toNat / 2 ^ 52 % 2 ^ 11 := by
  simp [unpackExponent, Nat.shiftRight_eq_div_pow]

theorem toNat_unpackMantissa : (unpackMantissa b).toNat = b.toNat % 2 ^ 52 := by
  simp [unpackMantissa]

theorem toNat_unpackSign : (unpackSign b).toNat = b.toNat / 2 ^ 63 % 2 := by
  simp [unpackSign, Nat.shiftRight_eq_div_pow]

theorem ofBitVec_unpackSign (x : Float) :
    Sign.ofBitVec (@unpackSign Format.binary64 x.toModel.toBits.toBitVec) = sign x := by
  have hs := toNat_unpackSign x.toModel.toBits.toBitVec
  have hn := negative_iff x
  have hlt := x.toBits.toNat_lt
  change _ = x.toBits.toNat / 2 ^ 63 % 2 at hs
  unfold Sign.ofBitVec sign
  by_cases h : negative x = true
  · have h1 := hn.mp h
    have hne : @unpackSign Format.binary64 x.toModel.toBits.toBitVec ≠ 0#1 := by
      intro he
      rw [he, BitVec.toNat_zero] at hs
      omega
    rw [if_neg hne, if_pos h]
  · have h1 : ¬ 2 ^ 63 ≤ x.toBits.toNat := fun hc => h (hn.mpr hc)
    have he : @unpackSign Format.binary64 x.toModel.toBits.toBitVec = 0#1 := by
      apply BitVec.eq_of_toNat_eq
      rw [hs, BitVec.toNat_zero]
      omega
    rw [if_pos he, if_neg h]

theorem toNat_hidden (m : BitVec 52) : (1#1 ++ m).toNat = m.toNat + hiddenBit := by
  rw [BitVec.toNat_append, ← Nat.shiftLeft_add_eq_or_of_lt m.isLt]
  unfold hiddenBit
  simp [Nat.add_comm]

theorem unpack_eq (x : Float) : x.toModel.unpack =
    if exponentField x = 2047 then
      if fractionField x = 0 then .infinity (sign x) else .notANumber
    else if h : significand x = 0 then .zero (sign x)
    else .finite (sign x) (significand x) (shift x - 1074) (Nat.pos_of_ne_zero h) := by
  have he := toNat_unpackExponent x.toModel.toBits.toBitVec
  have hm := toNat_unpackMantissa x.toModel.toBits.toBitVec
  have hs := ofBitVec_unpackSign x
  change _ = x.toBits.toNat / 2 ^ 52 % 2 ^ 11 at he
  change _ = x.toBits.toNat % 2 ^ 52 at hm
  rw [← exponentField_eq] at he
  rw [← fractionField_eq] at hm
  have hinf : @unpackExponent Format.binary64 x.toModel.toBits.toBitVec = -1#_ ↔
      exponentField x = 2047 := by
    rw [← BitVec.toNat_inj, he]
    rfl
  have hzero : @unpackExponent Format.binary64 x.toModel.toBits.toBitVec = 0#_ ↔
      exponentField x = 0 := by
    rw [← BitVec.toNat_inj, he]
    rfl
  have hfrac : @unpackMantissa Format.binary64 x.toModel.toBits.toBitVec = 0#_ ↔
      fractionField x = 0 := by
    rw [← BitVec.toNat_inj, hm]
    rfl
  unfold Float.Model.unpack UnpackedFloat.unpack
  dsimp only
  simp only [hinf, hzero, hfrac, hs]
  by_cases h1 : exponentField x = 2047
  · rw [if_pos h1, if_pos h1]
  · rw [if_neg h1, if_neg h1]
    by_cases h2 : exponentField x = 0
    · have hsig : significand x = fractionField x := if_pos h2
      have hshift : shift x = 0 := by rw [shift, h2]; rfl
      simp only [hsig, hshift, he, hm, h2]
      rfl
    · have hsig : significand x = fractionField x + hiddenBit := if_neg h2
      have hshift : (shift x : ℤ) = exponentField x - 1 := by
        unfold shift
        omega
      have hne : significand x ≠ 0 := by
        rw [hsig]
        unfold hiddenBit
        omega
      have hcat : (1#1 ++ @unpackMantissa Format.binary64
          x.toModel.toBits.toBitVec).toNat = significand x := by
        rw [toNat_hidden, hm, hsig]
      simp only [if_neg h2, dif_neg hne, hcat, he, hshift]
      congr 1
      simp [Format.exponentBias]
      ring

/-- The value of an unpacked number; the special ones have none and give zero. -/
def valueOf : UnpackedFloat → ℚ
  | .finite s m e _ => s.apply m * 2 ^ e
  | _ => 0

theorem isFinite_iff (x : Float) : isFinite x = true ↔ exponentField x ≠ 2047 := bne_iff_ne

theorem shift_le_of_finite {x : Float} (h : isFinite x = true) : shift x ≤ 2045 := by
  have hfield := (isFinite_iff x).mp h
  have hlt := exponentField_lt x
  unfold shift
  omega

theorem toRat_eq_valueOf {x : Float} (h : isFinite x = true) :
    toRat x = valueOf x.toModel.unpack := by
  rw [unpack_eq, if_neg ((isFinite_iff x).mp h), toRat_eq_units, units_eq]
  have hp : (2 : ℚ) ^ ((shift x : ℤ) - 1074) = 2 ^ shift x * 2 ^ (-1074 : ℤ) := by
    rw [← zpow_natCast, ← zpow_add₀ (by norm_num)]
    rfl
  by_cases hz : significand x = 0
  · rw [dif_pos hz, hz]
    simp [valueOf]
  · rw [dif_neg hz, valueOf, hp]
    generalize (2 : ℚ) ^ (-1074 : ℤ) = u
    unfold sign
    split <;> simp only [Sign.apply] <;> push_cast <;> ring

theorem isFinite_of_unpack {x : Float} {s : Sign} {m : Nat} {e : ℤ} {h : 0 < m}
    (hx : x.toModel.unpack = .finite s m e h) : isFinite x = true := by
  rw [isFinite_iff]
  intro he
  rw [unpack_eq, if_pos he] at hx
  split at hx <;> cases hx

theorem isFinite_of_unpack_zero {x : Float} {s : Sign} (hx : x.toModel.unpack = .zero s) :
    isFinite x = true := by
  rw [isFinite_iff]
  intro he
  rw [unpack_eq, if_pos he] at hx
  split at hx <;> cases hx

theorem fields_of_unpack_infinity {x : Float} {s : Sign} (hx : x.toModel.unpack = .infinity s) :
    exponentField x = 2047 ∧ fractionField x = 0 ∧ sign x = s := by
  rw [unpack_eq] at hx
  split at hx
  · split at hx
    · exact ⟨‹_›, ‹_›, by injection hx⟩
    · cases hx
  · split at hx <;> cases hx

/-! ## Whole numbers -/

theorem cast_one_shiftLeft (n : ℕ) : (((1 <<< n : ℕ) : ℤ) : ℚ) = 2 ^ (n : ℤ) := by
  rw [Nat.one_shiftLeft, zpow_natCast]
  push_cast
  rfl

theorem toRat_eq_div (x : Float) : toRat x = units x / (one : ℤ) := by
  rw [toRat_eq_units, zpow_neg, div_eq_mul_inv]
  exact congrArg (_ * ·⁻¹) (cast_one_shiftLeft 1074).symm

theorem ceil_eq (x : Float) : ceil x = ⌈toRat x⌉ := by
  have hone : (0 : ℤ) ≤ (one : ℤ) := Int.natCast_nonneg one
  have hneg : -toRat x = ((-units x : ℤ) : ℚ) / (one : ℕ) := by
    rw [toRat_eq_div]
    push_cast
    ring
  rw [ceil, Int.fdiv_eq_ediv_of_nonneg _ hone, ← Rat.floor_intCast_div_natCast, ← hneg,
    Int.floor_neg, neg_neg]

end TimingStats.Binary64
