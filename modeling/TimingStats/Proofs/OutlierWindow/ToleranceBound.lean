import TimingStats.OutlierWindow
import TimingStats.Proofs.Binary64.Order
import TimingStats.Proofs.Binary64.Quotients

/-! # The bound on unflagged samples

The margin of the bound is the spread of the unflagged samples, converted, scaled by the tolerance
and rounded up. Each of these steps keeps order and sign. So the bound is never below the greatest
unflagged sample, and it cannot fall when the samples it is drawn from spread further apart. -/

namespace TimingStats

open Float.Model Float.Model.UnpackedFloat

/-! ## Back into sixty-four bits -/

theorem saturate_mono {m n : Int} (h : m ≤ n) : (saturate m).toInt ≤ (saturate n).toInt := by
  rw [toInt_saturate, toInt_saturate]
  omega

theorem saturate_of_le {n : Int} (h : Int64.maxValue.toInt ≤ n) : saturate n = Int64.maxValue := by
  have hmin : Int64.minValue.toInt ≤ Int64.maxValue.toInt := by decide
  rw [← Int64.toInt_inj, toInt_saturate]
  omega

namespace Binary64

theorem Rounds.isFinite_eq_false {x : Float} {q : ℚ} (hx : Rounds x q)
    (hge : 2 ^ 1024 ≤ |rounded q|) : isFinite x = false := by
  obtain ⟨he, -, -⟩ := fields_of_unpack_infinity (hx.overflow hge)
  rw [← Bool.not_eq_true, isFinite_iff, not_not]
  exact he

/-- What is out of the range of doubles is out of the range of samples. -/
theorem maxValue_le_ceil {r : ℚ} (h : 2 ^ 1024 ≤ r) : Int64.maxValue.toInt ≤ ⌈r⌉ := by
  have hmax : ((Int64.maxValue.toInt : ℤ) : ℚ) ≤ 2 ^ 1024 :=
    calc ((Int64.maxValue.toInt : ℤ) : ℚ) ≤ 2 ^ 64 := by
          rw [show Int64.maxValue.toInt = 9223372036854775807 by decide]
          norm_num
      _ ≤ 2 ^ 1024 := pow_le_pow_right₀ one_le_two (by decide)
  exact_mod_cast hmax.trans (h.trans (Int.le_ceil r))

/-- Where the exact result is not negative, converting back depends on the rounded result alone:
an infinity stands for a number beyond the range. -/
theorem Rounds.saturateCeil_eq {x : Float} {q : ℚ} (hx : Rounds x q) (hq : 0 ≤ q) :
    saturateCeil x = saturate ⌈rounded q⌉ := by
  have habs : |rounded q| = rounded q := abs_of_nonneg (rounded_nonneg hq)
  rcases lt_or_ge (rounded q) (2 ^ 1024) with hlt | hge
  · obtain ⟨hf, hv⟩ := hx.finite (by rwa [habs])
    rw [saturateCeil, if_pos hf, ceil_eq, hv]
  · have hinf := hx.overflow (by rwa [habs])
    rw [if_neg (not_lt.mpr hq)] at hinf
    obtain ⟨-, hm, hs⟩ := fields_of_unpack_infinity hinf
    have hsign : negative x = false := by
      unfold sign at hs
      split at hs
      · cases hs
      · exact Bool.eq_false_iff.mpr ‹_›
    have hfin : isFinite x = false := hx.isFinite_eq_false (by rwa [habs])
    have hnan : isNaN x = false := by simp [isNaN, hm]
    rw [saturate_of_le (maxValue_le_ceil hge)]
    unfold saturateCeil
    rw [hfin, hnan, hsign]
    rfl

theorem toFloat_finite (n : UInt64) :
    isFinite n.toFloat = true ∧ toRat n.toFloat = rounded n.toNat := by
  refine (toFloat_rounds n).finite_of_le (k := 64) ?_ (by norm_num)
  rw [abs_of_nonneg (Nat.cast_nonneg _)]
  exact_mod_cast n.toNat_lt.le

end Binary64

namespace OutlierWindow

open Binary64

/-! ## The tolerance -/

theorem finite_of_validTolerance {t : Float} (h : validTolerance t = true) :
    isFinite t = true ∧ 0 ≤ toRat t := by
  obtain ⟨hf, hle⟩ := Bool.and_eq_true_iff.mp h
  refine ⟨hf, ?_⟩
  rw [← zero_value.2, ← le_iff zero_value.1 hf]
  exact of_decide_eq_true hle

/-! ## The margin -/

/-- The margin that a spread and a tolerance leave, before it is brought into range. -/
def exactMargin (spread : ℕ) (t : ℚ) : ℤ := ⌈rounded (rounded spread * t)⌉

theorem exactMargin_nonneg (spread : ℕ) {t : ℚ} (ht : 0 ≤ t) : 0 ≤ exactMargin spread t := by
  have hs : 0 ≤ rounded (spread : ℚ) := rounded_nonneg (Nat.cast_nonneg spread)
  exact Int.ceil_nonneg (rounded_nonneg (mul_nonneg hs ht))

theorem exactMargin_mono {m n : ℕ} (h : m ≤ n) {t : ℚ} (ht : 0 ≤ t) :
    exactMargin m t ≤ exactMargin n t := by
  have hm : (0 : ℚ) ≤ m := Nat.cast_nonneg m
  have hs : rounded (m : ℚ) ≤ rounded (n : ℚ) := rounded_mono hm (by exact_mod_cast h)
  have hprod := mul_le_mul_of_nonneg_right hs ht
  exact Int.ceil_le_ceil (rounded_mono (mul_nonneg (rounded_nonneg hm) ht) hprod)

theorem saturateCeil_margin (spread : UInt64) {t : Float} (h : validTolerance t = true) :
    saturateCeil (spread.toFloat * t) = saturate (exactMargin spread.toNat (toRat t)) := by
  obtain ⟨hf, ht⟩ := finite_of_validTolerance h
  obtain ⟨hsf, hsv⟩ := toFloat_finite spread
  have hround := mul_rounds hsf hf
  rw [hsv] at hround
  exact hround.saturateCeil_eq
    (mul_nonneg (rounded_nonneg (Nat.cast_nonneg _)) ht)

/-! ## The bound -/

/-- The spread of two samples in order, as sixty-four bits hold it. -/
theorem toNat_spread {lo hi : Int64} (h : lo ≤ hi) :
    ((UInt64.ofNat (hi.toInt - lo.toInt).natAbs).toNat : ℤ) = hi.toInt - lo.toInt := by
  have hle := Int64.le_iff_toInt_le.mp h
  have hl := lo.le_toInt
  have hu := hi.toInt_lt
  rw [UInt64.toNat_ofNat_of_lt' (by unfold UInt64.size; omega)]
  omega

/-- The bound in exact arithmetic. -/
theorem toleranceBound_eq {lo hi : Int64} (h : lo ≤ hi) {t : Float}
    (ht : validTolerance t = true) :
    toleranceBound lo hi t = saturate (hi.toInt +
      (saturate (exactMargin (hi.toInt - lo.toInt).toNat (toRat t))).toInt) := by
  have hs : (UInt64.ofNat (hi.toInt - lo.toInt).natAbs).toNat = (hi.toInt - lo.toInt).toNat := by
    have := toNat_spread h
    omega
  unfold toleranceBound
  dsimp only
  rw [saturateCeil_margin _ ht, hs]

/-- The margin is not negative, so only the upper end of the range is in the way. -/
theorem toInt_toleranceBound {lo hi : Int64} (h : lo ≤ hi) {t : Float}
    (ht : validTolerance t = true) :
    (toleranceBound lo hi t).toInt = Min.min Int64.maxValue.toInt (hi.toInt +
      Min.min Int64.maxValue.toInt (exactMargin (hi.toInt - lo.toInt).toNat (toRat t))) := by
  have hm := exactMargin_nonneg (hi.toInt - lo.toInt).toNat (finite_of_validTolerance ht).2
  have hmin : Int64.minValue.toInt = -9223372036854775808 := by decide
  have hmax : Int64.maxValue.toInt = 9223372036854775807 := by decide
  have hl := hi.minValue_le_toInt
  rw [toleranceBound_eq h ht, toInt_saturate, toInt_saturate]
  omega

theorem le_toleranceBound {lo hi : Int64} (h : lo ≤ hi) {t : Float}
    (ht : validTolerance t = true) : hi ≤ toleranceBound lo hi t := by
  have hm := exactMargin_nonneg (hi.toInt - lo.toInt).toNat (finite_of_validTolerance ht).2
  have hmax : Int64.maxValue.toInt = 9223372036854775807 := by decide
  have hu := hi.toInt_le
  rw [Int64.le_iff_toInt_le, toInt_toleranceBound h ht]
  omega

/-- Samples that spread further apart have a bound that is no lower. -/
theorem toleranceBound_mono {lo hi lo' hi' : Int64} (hlo : lo' ≤ lo) (h : lo ≤ hi) (hhi : hi ≤ hi')
    {t : Float} (ht : validTolerance t = true) :
    toleranceBound lo hi t ≤ toleranceBound lo' hi' t := by
  have h' : lo' ≤ hi' := Int64.le_trans hlo (Int64.le_trans h hhi)
  rw [Int64.le_iff_toInt_le, toInt_toleranceBound h ht, toInt_toleranceBound h' ht]
  rw [Int64.le_iff_toInt_le] at hlo h hhi
  have hm := exactMargin_mono
    (show (hi.toInt - lo.toInt).toNat ≤ (hi'.toInt - lo'.toInt).toNat by omega)
    (finite_of_validTolerance ht).2
  omega

end OutlierWindow
end TimingStats
