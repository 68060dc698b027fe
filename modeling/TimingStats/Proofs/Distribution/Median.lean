import TimingStats.Percentile
import TimingStats.Proofs.Binary64.Order
import TimingStats.Proofs.Binary64.Quotients
import TimingStats.Proofs.Distribution.Ranks

/-! # The median

A percentile is one of the observations. The rank of the fiftieth is worked out exactly for any
number of observations that can be met with: half of them, rounded up. So at least half of the
observations lie on the side of a number that the median lies on. -/

namespace TimingStats

namespace Binary64

/-- A positive double is rounded to the whole number whose distance is at most a half, upwards at
the half. -/
theorem round_eq {x : Float} (h : 0 < toRat x) : round x = ⌊toRat x + 1 / 2⌋ := by
  have hsign : negative x = false := by
    by_contra hneg
    rw [Bool.not_eq_false] at hneg
    rw [toRat_eq_units, units_eq, hneg] at h
    have hmul : (0 : ℚ) ≤ significand x * 2 ^ shift x * 2 ^ (-1074 : ℤ) :=
      mul_nonneg (by positivity) (two_zpow_pos _).le
    simp only [if_true] at h
    linarith
  have hone : (0 : ℚ) < (one : ℕ) := by
    have : 0 < one := by decide +kernel
    exact_mod_cast this
  have hval : toRat x + 1 / 2 = ((2 * magnitude x + one : ℕ) : ℤ) / ((2 * one : ℕ) : ℚ) := by
    rw [toRat_eq_div, units, hsign, if_neg (by decide)]
    push_cast
    field_simp
  rw [hval, Rat.floor_intCast_div_natCast, round, hsign, if_neg (by decide)]
  norm_cast

end Binary64

namespace Percentile

open Binary64

/-- The product that the rank of the median comes from is exact. -/
theorem half_value {n : ℕ} (hle : n ≤ 2 ^ 47) :
    isFinite ((50 : Float) * Float.ofNat n / 100) = true ∧
      toRat ((50 : Float) * Float.ofNat n / 100) = (n : ℚ) / 2 := by
  obtain ⟨hnf, hnv⟩ := ofNat_value (hle.trans (by norm_num))
  obtain ⟨hff, hfv⟩ : isFinite (50 : Float) = true ∧ toRat (50 : Float) = 50 := by
    exact_mod_cast ofNat_value (n := 50) (by norm_num)
  obtain ⟨hdf, hdv⟩ : isFinite (100 : Float) = true ∧ toRat (100 : Float) = 100 := by
    exact_mod_cast ofNat_value (n := 100) (by norm_num)
  have hn : (n : ℚ) ≤ 2 ^ 47 := by exact_mod_cast hle
  have hn0 : (0 : ℚ) ≤ n := n.cast_nonneg
  have hproduct : Representable (50 * n) := by
    exact_mod_cast representable_natCast (n := 50 * n) (by omega)
  have hhalf : Representable (n / 2) := by
    have hrep := representable_mul_zpow (m := n) (e := -1)
      (by rw [Nat.abs_cast]; exact_mod_cast hle.trans (by norm_num)) (by norm_num)
    rw [zpow_neg_one] at hrep
    exact_mod_cast hrep
  have hmul := mul_rounds hff hnf
  rw [hfv, hnv] at hmul
  obtain ⟨hpf, hpv⟩ := hmul.finite_of_le (k := 53) (by rw [abs_of_nonneg] <;> linarith)
    (by norm_num)
  rw [hproduct] at hpv
  have hdiv := div_rounds hpf hdf (by rw [hdv]; norm_num)
  rw [hpv, hdv, show (50 : ℚ) * n / 100 = n / 2 by ring] at hdiv
  obtain ⟨hf, hv⟩ := hdiv.finite_of_le (k := 47) (by rw [abs_of_nonneg] <;> linarith)
    (by norm_num)
  exact ⟨hf, hv.trans hhalf⟩

/-- The rank of the median, counted from zero. Rounding and rounding up agree on halves. -/
theorem rankIndex_median {n : ℕ} (hn : 0 < n) (hle : n ≤ 2 ^ 47) :
    rankIndex 50 n = (n - 1) / 2 := by
  obtain ⟨hf, hv⟩ := half_value hle
  have hclamp : clamp 50 = 50 := by decide +kernel
  have hpos : (0 : ℚ) < n := by exact_mod_cast hn
  have hnan : isNaN ((50 : Float) * Float.ofNat n / 100) = false := by
    simp [isNaN, (isFinite_iff _).mp hf]
  have hround : round ((50 : Float) * Float.ofNat n / 100) = ((n + 1) / 2 : ℕ) := by
    rw [round_eq (by rw [hv]; linarith), hv,
      show (n : ℚ) / 2 + 1 / 2 = ((n + 1 : ℕ) : ℤ) / (2 : ℕ) by push_cast; ring,
      Rat.floor_intCast_div_natCast]
    norm_cast
  have hceil : ceil ((50 : Float) * Float.ofNat n / 100) = ((n + 1) / 2 : ℕ) := by
    rw [ceil_eq, hv, Int.ceil_eq_iff]
    have hlow : n ≤ 2 * ((n + 1) / 2) := by omega
    have hhigh : 2 * ((n + 1) / 2) < n + 2 := by omega
    have hlow : (n : ℚ) ≤ 2 * ((n + 1) / 2 : ℕ) := by exact_mod_cast hlow
    have hhigh : (2 : ℚ) * ((n + 1) / 2 : ℕ) < n + 2 := by exact_mod_cast hhigh
    constructor
    · rw [Int.cast_natCast]
      linarith
    · rw [Int.cast_natCast]
      linarith
  unfold rankIndex nearestRank
  rw [hclamp]
  dsimp only
  rw [hnan, if_neg (by decide), hround, hceil, ite_self, Int.toNat_natCast]
  unfold UInt64.size
  omega

end Percentile

namespace Distribution

theorem percentile_eq (d : Distribution) (p : Float) :
    d.percentile p =
      d.observationAt ⟨Percentile.rankIndex p d.size, Percentile.rankIndex_lt p d.size_pos⟩ :=
  d.valueAt_eq _

theorem percentile_mem (d : Distribution) (p : Float) :
    d.percentile p ∈ d.histogram.observations := by
  rw [percentile_eq]
  exact d.observationAt_mem _

/-- The median is the middle observation, the lower one of two. -/
theorem getElem?_median {d : Distribution} (hle : d.size ≤ 2 ^ 47) :
    d.histogram.observations[(d.size - 1) / 2]? = some (d.percentile 50) := by
  rw [← Percentile.rankIndex_median d.size_pos hle, percentile_eq]
  exact List.getElem?_eq_getElem _

/-- If the median is less than a number, then so is at least half of the observations. -/
theorem size_le_countP_lt {d : Distribution} (hle : d.size ≤ 2 ^ 47) {x : Int64}
    (h : d.percentile 50 < x) :
    d.size ≤ 2 * d.histogram.observations.countP fun v => decide (v < x) := by
  obtain ⟨hk, hget⟩ := List.getElem?_eq_some_iff.mp (getElem?_median hle)
  have hcount := succ_le_countP d.histogram.observations_sorted (p := fun v => decide (v < x))
    (fun v w hvw hw => decide_eq_true (Int64.lt_of_le_of_lt hvw (of_decide_eq_true hw)))
    hk (by rw [hget]; exact decide_eq_true h)
  omega

/-- If the median is greater than a number, then so is at least half of the observations. -/
theorem size_le_countP_gt {d : Distribution} (hle : d.size ≤ 2 ^ 47) {x : Int64}
    (h : x < d.percentile 50) :
    d.size ≤ 2 * d.histogram.observations.countP fun v => decide (x < v) := by
  obtain ⟨hk, hget⟩ := List.getElem?_eq_some_iff.mp (getElem?_median hle)
  have hcount := length_sub_le_countP d.histogram.observations_sorted
    (p := fun v => decide (x < v))
    (fun v w hvw hv => decide_eq_true (Int64.lt_of_lt_of_le (of_decide_eq_true hv) hvw))
    hk (by rw [hget]; exact decide_eq_true h)
  rw [d.length_observations] at hcount
  omega

end Distribution
end TimingStats
