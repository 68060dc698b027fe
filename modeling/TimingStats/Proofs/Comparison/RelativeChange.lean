import TimingStats.Proofs.Comparison.Replicates
import TimingStats.Proofs.Distribution.Median

/-! # The relative change

The relative change is that of the median of resampled ratios, counted in ten-thousandths. Rounding
keeps it on the side of zero that the median is on of one, so it says which sample is the greater
one in at least half of the pairs. -/

namespace TimingStats

open TimingStats.Random Binary64

/-! ## Ratios -/

section Ratios

variable {l r : Int64}

theorem toInt_pos (h : 0 < r) : 0 < r.toInt := by
  simpa using Int64.lt_iff_toInt_lt.mp h

/-- The quotient of a sample and a positive one is rounded down. -/
theorem toInt_scaledQuotient_of_pos (factor : Int64) (hl : 0 ≤ l.toInt * factor.toInt)
    (hr : 0 < r) : (scaledQuotient l factor r).toInt =
      clamped (l.toInt * factor.toInt / r.toInt) := by
  have hpos : 0 < r.toInt := toInt_pos hr
  rw [toInt_scaledQuotient, exactQuotient, if_neg hpos.ne', towardZero_div,
    Int.tdiv_eq_ediv_of_nonneg hl]

/-- A positive sample divided by one that is no greater is at least one. -/
theorem le_scaledQuotient (hr : 0 < r) (h : r ≤ l) :
    Comparison.ratioScale ≤ scaledQuotient l Comparison.ratioScale r := by
  have hpos : 0 < r.toInt := toInt_pos hr
  have hle := Int64.le_iff_toInt_le.mp h
  have hscale : Comparison.ratioScale.toInt = 10000 := rfl
  have hquotient : 10000 ≤ l.toInt * 10000 / r.toInt :=
    (Int.le_ediv_iff_mul_le hpos).mpr (by omega)
  rw [Int64.le_iff_toInt_le, toInt_scaledQuotient_of_pos _ (by rw [hscale]; omega) hr, hscale,
    clamped]
  omega

/-- A positive sample divided by one that is no less is at most one. -/
theorem scaledQuotient_le (hl : 0 < l) (h : l ≤ r) :
    scaledQuotient l Comparison.ratioScale r ≤ Comparison.ratioScale := by
  have hpos : 0 < l.toInt := toInt_pos hl
  have hle := Int64.le_iff_toInt_le.mp h
  have hr : 0 < r := Int64.lt_of_lt_of_le hl h
  have hscale : Comparison.ratioScale.toInt = 10000 := rfl
  have hquotient : l.toInt * 10000 / r.toInt ≤ 10000 :=
    Int.ediv_le_of_le_mul (by omega) (by omega)
  rw [Int64.le_iff_toInt_le, toInt_scaledQuotient_of_pos _ (by rw [hscale]; omega) hr, hscale,
    clamped]
  omega

end Ratios

namespace Comparison

/-! ## Relative changes -/

/-- The change in percent that a number of ten-thousandths stands for, rounded at each step. -/
def percentChange (m : ℚ) : ℚ :=
  rounded (rounded (rounded (rounded m * 100) / 10000) - 100)

theorem percentChange_mono {m n : ℚ} (h : m ≤ n) : percentChange m ≤ percentChange n :=
  rounded_monotone (sub_le_sub_right (rounded_monotone (div_le_div_of_nonneg_right
    (rounded_monotone (mul_le_mul_of_nonneg_right (rounded_monotone h) (by norm_num)))
    (by norm_num))) _)

theorem percentChange_scale : percentChange 10000 = 0 := by
  have hexact : ∀ n : ℕ, n ≤ 2 ^ 53 → rounded (n : ℚ) = n := fun n hn => representable_natCast hn
  have h1 : rounded (10000 : ℚ) = 10000 := by exact_mod_cast hexact 10000 (by norm_num)
  have h2 : rounded (1000000 : ℚ) = 1000000 := by exact_mod_cast hexact 1000000 (by norm_num)
  have h3 : rounded (100 : ℚ) = 100 := by exact_mod_cast hexact 100 (by norm_num)
  unfold percentChange
  norm_num [h1, h2, h3, rounded_zero]

def relativeOf (m : Int64) : Float :=
  Float.ofInt m.toInt * 100 / Float.ofInt ratioScale.toInt - 100

theorem relativeOf_value (m : Int64) :
    isFinite (relativeOf m) = true ∧ toRat (relativeOf m) = percentChange m.toInt := by
  obtain ⟨hdf, hdv⟩ : isFinite (100 : Float) = true ∧ toRat (100 : Float) = 100 := by
    exact_mod_cast ofNat_value (n := 100) (by norm_num)
  obtain ⟨hsf, hsv⟩ : isFinite (Float.ofInt ratioScale.toInt) = true ∧
      toRat (Float.ofInt ratioScale.toInt) = 10000 := by
    exact_mod_cast ofNat_value (n := 10000) (by norm_num)
  have hm : |(m.toInt : ℚ)| ≤ 2 ^ 63 := by
    have hcast : |m.toInt| ≤ 2 ^ 63 := abs_le.mpr ⟨m.le_toInt, m.toInt_lt.le⟩
    exact_mod_cast hcast
  obtain ⟨hf, hv⟩ := (ofInt_rounds m.toInt).finite_of_le hm (by norm_num)
  have hb := abs_rounded_le_two_pow hm
  have hproduct := mul_rounds hf hdf
  rw [hv, hdv] at hproduct
  have hpb : |rounded (m.toInt : ℚ) * 100| ≤ 2 ^ 70 := by
    rw [abs_mul, abs_of_pos (by norm_num : (0 : ℚ) < 100)]
    linarith
  obtain ⟨hpf, hpv⟩ := hproduct.finite_of_le hpb (by norm_num)
  have hquotient := div_rounds hpf hsf (by rw [hsv]; norm_num)
  rw [hpv, hsv] at hquotient
  have hqb : |rounded (rounded (m.toInt : ℚ) * 100) / 10000| ≤ 2 ^ 70 := by
    rw [abs_div, abs_of_pos (by norm_num : (0 : ℚ) < 10000)]
    have hrb := abs_rounded_le_two_pow hpb
    linarith
  obtain ⟨hqf, hqv⟩ := hquotient.finite_of_le hqb (by norm_num)
  have hdifference := sub_rounds hqf hdf
  rw [hqv, hdv] at hdifference
  refine hdifference.finite_of_le (k := 71) ((abs_sub _ _).trans ?_) (by norm_num)
  rw [abs_of_pos (by norm_num : (0 : ℚ) < 100)]
  have hrb := abs_rounded_le_two_pow hqb
  linarith

/-- A relative change above zero comes from a median ratio above one. -/
theorem scale_lt_of_relativeOf_pos {m : Int64} (h : 0 < relativeOf m) : ratioScale < m := by
  obtain ⟨hf, hv⟩ := relativeOf_value m
  rw [lt_iff zero_value.1 hf, zero_value.2, hv] at h
  by_contra hle
  have hcast : (m.toInt : ℚ) ≤ 10000 := by
    exact_mod_cast Int64.le_iff_toInt_le.mp (Int64.not_lt.mp hle)
  exact h.not_ge ((percentChange_mono hcast).trans_eq percentChange_scale)

/-- A relative change below zero comes from a median ratio below one. -/
theorem lt_scale_of_relativeOf_neg {m : Int64} (h : relativeOf m < 0) : m < ratioScale := by
  obtain ⟨hf, hv⟩ := relativeOf_value m
  rw [lt_iff hf zero_value.1, zero_value.2, hv] at h
  by_contra hle
  have hcast : (10000 : ℚ) ≤ m.toInt := by
    exact_mod_cast Int64.le_iff_toInt_le.mp (Int64.not_lt.mp hle)
  exact h.not_ge (percentChange_scale.symm.trans_le (percentChange_mono hcast))

/-! ## Pairs -/

/-- Where the median ratio is on one side of a number, some pair is, and half of the pairs are. -/
theorem half_of_median {pairs : List (Int64 × Int64)} {f : Int64 × Int64 → Int64}
    {ratio : Distribution} (hperm : ratio.histogram.observations.Perm (pairs.map f))
    {q : Int64 → Bool} {good : Int64 × Int64 → Bool}
    (hgood : ∀ p ∈ pairs, q (f p) = true → good p = true)
    (hmedian : q (ratio.percentile 50) = true)
    (hhalf : ratio.size ≤ 2 ^ 47 → ratio.size ≤ 2 * ratio.histogram.observations.countP q) :
    (∃ p ∈ pairs, good p = true) ∧
      (pairs.length ≤ 2 ^ 47 → pairs.length ≤ 2 * pairs.countP good) := by
  have hlen : ratio.size = pairs.length := by
    rw [← ratio.length_observations, hperm.length_eq, List.length_map]
  rw [hperm.countP_eq, List.countP_map, hlen] at hhalf
  obtain ⟨p, hp, hfp⟩ := List.mem_map.mp (hperm.mem_iff.mp (ratio.percentile_mem 50))
  exact ⟨⟨p, hp, hgood p hp (hfp ▸ hmedian)⟩, fun hle =>
    (hhalf hle).trans (Nat.mul_le_mul_left 2 (List.countP_mono_left hgood))⟩

section Measured

variable {σ : Type} [RankSource σ] {baseline candidate : Distribution} {config : ComparisonConfig}
  {hn : 0 < config.bootstrapIterations} {s s' : σ} {c : Comparison}

/-- The pairs that a comparison takes the ratios of: what is resampled after the replicates and the
differences. -/
def ratioPairs (baseline candidate : Distribution) (iterations : ℕ) (s : σ) :
    List (Int64 × Int64) :=
  let s₁ := (replicates baseline candidate iterations [] s).2
  let s₂ := (Distribution.resampledPairs candidate baseline s₁).2
  (Distribution.resampledPairs candidate baseline s₂).1

theorem ratio_of_measure (h : measure baseline candidate config hn s = .ok (c, s')) :
    ∃ ratio : Distribution, c.relativeChange = relativeOf (ratio.percentile 50) ∧
      ratio.histogram.observations.Perm
        ((ratioPairs baseline candidate config.bootstrapIterations s).map fun p =>
          scaledQuotient p.1 ratioScale p.2) := by
  obtain ⟨shifts, s₁, difference, s₂, ratio, hshifts, hdifference, hratio, -, -, -, hrelative, -⟩ :=
    measure_cases h
  obtain ⟨-, -, rfl⟩ := shifts_of_bootstrap hshifts
  obtain ⟨_, hsub, -⟩ := Builder.resample_pairs Builder.isEmpty_new candidate baseline
    saturatingSub (replicates baseline candidate config.bootstrapIterations [] s).2
  obtain ⟨quotient, hdiv, hperm⟩ := Builder.resample_pairs difference.isEmpty_reset candidate
    baseline (scaledQuotient · ratioScale ·) s₂
  obtain ⟨rfl, rfl⟩ := Prod.mk.inj (Except.ok.inj (hsub.symm.trans hdifference))
  obtain ⟨rfl, -⟩ := Prod.mk.inj (Except.ok.inj (hdiv.symm.trans hratio))
  exact ⟨quotient, hrelative, hperm⟩

theorem relativeChange_finite (h : measure baseline candidate config hn s = .ok (c, s')) :
    isFinite c.relativeChange = true := by
  obtain ⟨ratio, hrelative, -⟩ := ratio_of_measure h
  rw [hrelative]
  exact (relativeOf_value _).1

def Positive (d : Distribution) : Prop := ∀ v ∈ d.histogram.observations, 0 < v

theorem mem_of_mem_ratioPairs {n : ℕ} {p : Int64 × Int64}
    (h : p ∈ ratioPairs baseline candidate n s) :
    p.1 ∈ candidate.histogram.observations ∧ p.2 ∈ baseline.histogram.observations :=
  Distribution.mem_of_mem_resampledPairs h

/-- A positive relative change shows a slower candidate in some pair, and in half of the pairs
as long as the rank of the median is exact. -/
theorem slower_of_measure (h : measure baseline candidate config hn s = .ok (c, s'))
    (hc : Positive candidate) (hrelative : 0 < c.relativeChange) :
    let pairs := ratioPairs baseline candidate config.bootstrapIterations s
    (∃ p ∈ pairs, decide (p.2 < p.1) = true) ∧ (pairs.length ≤ 2 ^ 47 →
      pairs.length ≤ 2 * pairs.countP fun p => decide (p.2 < p.1)) := by
  obtain ⟨ratio, heq, hperm⟩ := ratio_of_measure h
  have hmedian := scale_lt_of_relativeOf_pos (heq ▸ hrelative)
  refine half_of_median hperm (q := fun v => decide (ratioScale < v)) (fun p hp hlt => ?_)
    (decide_eq_true hmedian) (fun hle => Distribution.size_le_countP_gt hle hmedian)
  by_contra hle
  exact Int64.not_lt.mpr (scaledQuotient_le (hc _ (mem_of_mem_ratioPairs hp).1)
    (Int64.not_lt.mp (mt decide_eq_true hle))) (of_decide_eq_true hlt)

/-- A negative relative change shows a faster candidate likewise. -/
theorem faster_of_measure (h : measure baseline candidate config hn s = .ok (c, s'))
    (hb : Positive baseline) (hrelative : c.relativeChange < 0) :
    let pairs := ratioPairs baseline candidate config.bootstrapIterations s
    (∃ p ∈ pairs, decide (p.1 < p.2) = true) ∧ (pairs.length ≤ 2 ^ 47 →
      pairs.length ≤ 2 * pairs.countP fun p => decide (p.1 < p.2)) := by
  obtain ⟨ratio, heq, hperm⟩ := ratio_of_measure h
  have hmedian := lt_scale_of_relativeOf_neg (heq ▸ hrelative)
  refine half_of_median hperm (q := fun v => decide (v < ratioScale)) (fun p hp hlt => ?_)
    (decide_eq_true hmedian) (fun hle => Distribution.size_le_countP_lt hle hmedian)
  by_contra hle
  exact Int64.not_lt.mpr (le_scaledQuotient (hb _ (mem_of_mem_ratioPairs hp).2)
    (Int64.not_lt.mp (mt decide_eq_true hle))) (of_decide_eq_true hlt)

/-- Pairs that are all the same have their own ratio as the median. -/
theorem relativeChange_of_pairs (h : measure baseline candidate config hn s = .ok (c, s'))
    {v w : Int64} {k : ℕ} (hpairs : ratioPairs baseline candidate config.bootstrapIterations s =
      List.replicate k (v, w)) :
    c.relativeChange = relativeOf (scaledQuotient v ratioScale w) := by
  obtain ⟨ratio, hrelative, hperm⟩ := ratio_of_measure h
  obtain ⟨p, hp, hq⟩ := List.mem_map.mp (hperm.mem_iff.mp (ratio.percentile_mem 50))
  obtain rfl : p = (v, w) := List.eq_of_mem_replicate (hpairs ▸ hp)
  rw [hrelative, ← hq]

/-- The relative change depends on what is drawn after the replicates. -/
theorem relativeChange_congr {t t' : σ} {e : Comparison}
    (hs : measure baseline candidate config hn s = .ok (c, s'))
    (ht : measure baseline candidate config hn t = .ok (e, t'))
    (heq : (replicates baseline candidate config.bootstrapIterations [] s).2 =
      (replicates baseline candidate config.bootstrapIterations [] t).2) :
    c.relativeChange = e.relativeChange := by
  obtain ⟨_, _, _, _, _, hshifts, hsub, hdiv, -, -, -, hu, -⟩ := measure_cases hs
  obtain ⟨_, _, _, _, _, hshifts', hsub', hdiv', -, -, -, he, -⟩ := measure_cases ht
  obtain ⟨-, -, rfl⟩ := shifts_of_bootstrap hshifts
  obtain ⟨-, -, rfl⟩ := shifts_of_bootstrap hshifts'
  rw [heq] at hsub
  obtain ⟨rfl, rfl⟩ := Prod.mk.inj (Except.ok.inj (hsub.symm.trans hsub'))
  obtain ⟨rfl, -⟩ := Prod.mk.inj (Except.ok.inj (hdiv.symm.trans hdiv'))
  rw [hu, he]

end Measured

end Comparison
end TimingStats
