import TimingStats.Proofs.Binary64.RelativeError
import TimingStats.Proofs.Distribution.Median
import TimingStats.Proofs.Distribution.Queries
import TimingStats.Proofs.Distribution.Summaries

/-! # Nearest ranks

The rank of a percentile is worked out in doubles, and each of the three steps may round. If the
exact rank is a whole number, the rounded one is so near that it is taken for it. Otherwise the
exact rank is a thousandth or more away from the next whole number, and that is too far to be
overcome. So the rank is the one of integer arithmetic, up to a hundred thousand million
observations. -/

namespace TimingStats

namespace Percentile

open Binary64

/-- A double for a number of tenths of a percent, as near as its digits allow. -/
structure Tenths (p : Float) (k : ℕ) : Prop where
  finite : isFinite p = true
  near : |toRat p - k / 10| ≤ k / 10 / 2 ^ 53
  low : 500 ≤ k
  high : k < 1000

/-- The rank that a number of tenths of a percent reaches, in integer arithmetic. -/
def exactRank (k n : ℕ) : ℕ := (k * n + 999) / 1000

variable {p x : Float} {k n : ℕ}

theorem hundred_value : isFinite (100 : Float) = true ∧ toRat (100 : Float) = 100 := by
  exact_mod_cast ofNat_value (n := 100) (by norm_num)

theorem tenths_ofNat {m : ℕ} (hm : 50 ≤ m) (hlt : m < 100) : Tenths (Float.ofNat m) (10 * m) := by
  obtain ⟨hf, hv⟩ := ofNat_value (n := m) (by omega)
  refine ⟨hf, ?_, by omega, by omega⟩
  have hexact : ((10 * m : ℕ) : ℚ) / 10 = m := by
    push_cast
    ring
  rw [hv, hexact, sub_self, abs_zero]
  positivity

theorem tenths_999 : Tenths 99.9 999 := by
  have hunits : units 99.9 = 7029837543348634 * 2 ^ 1028 := by decide +kernel
  have hpow : (2 : ℚ) ^ 1028 * 2 ^ (-1074 : ℤ) = 1 / 2 ^ 46 := by
    rw [← zpow_natCast, ← zpow_add₀ (by norm_num)]
    norm_num
  have hvalue : toRat 99.9 = 7029837543348634 / 2 ^ 46 := by
    rw [toRat_eq_units, hunits, Int.cast_mul, Int.cast_pow, Int.cast_ofNat, Int.cast_ofNat,
      mul_assoc, hpow, mul_one_div]
  refine ⟨by decide +kernel, ?_, by decide, by decide⟩
  rw [hvalue]
  norm_num

theorem Tenths.bounds (h : Tenths p k) : 49 ≤ toRat p ∧ toRat p ≤ 100 := by
  have hlow : (500 : ℚ) ≤ k := by exact_mod_cast h.low
  have hhigh : (k : ℚ) ≤ 999 := by exact_mod_cast Nat.le_of_lt_succ h.high
  obtain ⟨hbelow, habove⟩ := abs_le.mp h.near
  constructor <;> linarith

theorem Tenths.clamp_eq (h : Tenths p k) : clamp p = p := by
  obtain ⟨hlow, hhigh⟩ := h.bounds
  have hneg : ¬ p < 0 := by
    rw [lt_iff h.finite zero_value.1, zero_value.2]
    linarith
  have hbig : ¬ 100 < p := by
    rw [lt_iff hundred_value.1 h.finite, hundred_value.2]
    linarith
  rw [clamp, if_neg hneg, if_neg hbig]

/-! ## Rounding errors -/

/-- The errors of the percentile `w`, the product `z` and the quotient `y` together, where the exact
rank is `q`. -/
theorem abs_sub_le_of_errors {w z y q : ℚ} (hq : 0 ≤ q)
    (hpercentile : |w - 100 * q| ≤ 100 / 2 ^ 53 * q) (hproduct : |z - w| ≤ w / 2 ^ 52)
    (hquotient : |y - z / 100| ≤ z / 100 / 2 ^ 52) : |y - q| ≤ 3 / 2 ^ 52 * q := by
  rw [abs_le] at *
  constructor <;> linarith

/-- The exact rank is off by no more than the three roundings together. -/
theorem Tenths.rank_near (h : Tenths p k) (hn : 0 < n) (hle : n ≤ 10 ^ 11) :
    isFinite (p * Float.ofNat n / 100) = true ∧
      |toRat (p * Float.ofNat n / 100) - k * n / 1000| ≤ 3 / 2 ^ 52 * (k * n / 1000) := by
  obtain ⟨hlow, hhigh⟩ := h.bounds
  obtain ⟨hnf, hnv⟩ := ofNat_value (n := n) (hle.trans (by norm_num))
  have hone : (1 : ℚ) ≤ n := by exact_mod_cast hn
  have hmany : (n : ℚ) ≤ 10 ^ 11 := by exact_mod_cast hle
  have hsmall : (2 : ℚ) ^ (-1021 : ℤ) ≤ 1 / 4 :=
    (zpow_le_zpow_right₀ (by norm_num) (by norm_num : (-1021 : ℤ) ≤ -2)).trans (by norm_num)
  have hproduct_low : 49 ≤ toRat p * n :=
    hlow.trans (le_mul_of_one_le_right (by linarith) hone)
  have hproduct_high : toRat p * n ≤ 100 * 10 ^ 11 :=
    mul_le_mul hhigh hmany (by linarith) (by norm_num)
  have hmul := mul_rounds h.finite hnf
  rw [hnv] at hmul
  obtain ⟨hmf, hmv⟩ := hmul.finite_of_nonneg (k := 44) (by linarith) (by linarith) (by norm_num)
  have hproduct := abs_rounded_sub_le (q := toRat p * n) (by linarith)
  obtain ⟨hbelow, habove⟩ := abs_le.mp hproduct
  have hdiv := div_rounds hmf hundred_value.1 (by rw [hundred_value.2]; norm_num)
  rw [hmv, hundred_value.2] at hdiv
  obtain ⟨hf, hv⟩ := hdiv.finite_of_nonneg (k := 44) (by linarith) (by linarith) (by norm_num)
  have hquotient := abs_rounded_sub_le (q := rounded (toRat p * n) / 100) (by linarith)
  have hpercentile : |toRat p * n - k / 10 * n| ≤ k / 10 / 2 ^ 53 * n := by
    rw [← sub_mul, abs_mul, abs_of_nonneg (by linarith : (0 : ℚ) ≤ n)]
    exact mul_le_mul_of_nonneg_right h.near (by linarith)
  have hexact : (k : ℚ) / 10 * n = 100 * (k * n / 1000) := by ring
  have hslack : (k : ℚ) / 10 / 2 ^ 53 * n = 100 / 2 ^ 53 * (k * n / 1000) := by ring
  rw [hexact, hslack] at hpercentile
  refine ⟨hf, ?_⟩
  rw [hv]
  exact abs_sub_le_of_errors (by positivity) hpercentile hproduct hquotient

/-! ## Snapping -/

theorem epsilon_value : isFinite epsilon = true ∧ toRat epsilon = 2 ^ (-52 : ℤ) := by
  have hunits : units epsilon = 2 ^ 1022 := by decide +kernel
  refine ⟨by decide +kernel, ?_⟩
  rw [toRat_eq_units, hunits, Int.cast_pow, Int.cast_ofNat, ← zpow_natCast,
    ← zpow_add₀ (by norm_num)]
  norm_num

/-- The tolerance is a power of two times the number, and is not rounded. -/
theorem tolerance_value (hf : isFinite x = true) (hlow : 1 / 4 ≤ toRat x)
    (hhigh : toRat x ≤ 2 ^ 53) :
    isFinite (x.abs * 4 * epsilon) = true ∧ toRat (x.abs * 4 * epsilon) = toRat x / 2 ^ 50 := by
  obtain ⟨haf, hav⟩ := abs_value hf
  obtain ⟨hef, hev⟩ := epsilon_value
  obtain ⟨hff, hfv⟩ : isFinite (4 : Float) = true ∧ toRat (4 : Float) = 4 := by
    exact_mod_cast ofNat_value (n := 4) (by norm_num)
  have hpos : 0 ≤ toRat x := by linarith
  have hplace : -54 ≤ lastPlace |toRat x| := by
    have hquarter : (2 : ℚ) ^ (-2 : ℤ) ≤ |toRat x| := by
      rw [abs_of_nonneg hpos]
      exact le_trans (by norm_num) hlow
    exact le_lastPlace hquarter
  have hfour : Representable (toRat x * 4) := by
    have hrep := (representable_toRat x).mul_two_zpow (j := 2) (by omega)
    rwa [show (2 : ℚ) ^ (2 : ℤ) = 4 by norm_num] at hrep
  have hscaled : Representable (toRat x / 2 ^ 50) := by
    have hrep := (representable_toRat x).mul_two_zpow (j := -50) (by omega)
    rwa [show (2 : ℚ) ^ (-50 : ℤ) = (2 ^ 50)⁻¹ by norm_num, ← div_eq_mul_inv] at hrep
  rw [abs_of_nonneg hpos] at hav
  have hmul := mul_rounds haf hff
  rw [hav, hfv] at hmul
  obtain ⟨hmf, hmv⟩ := hmul.finite_of_nonneg (k := 55) (by linarith) (by linarith) (by norm_num)
  rw [hfour] at hmv
  have hmul' := mul_rounds hmf hef
  rw [hmv, hev, show toRat x * 4 * 2 ^ (-52 : ℤ) = toRat x / 2 ^ 50 by ring_nf] at hmul'
  obtain ⟨htf, htv⟩ := hmul'.finite_of_nonneg (k := 3) (by positivity) (by linarith) (by norm_num)
  exact ⟨htf, htv.trans hscaled⟩

theorem snaps_iff (hf : isFinite x = true) (hlow : 1 / 4 ≤ toRat x) (hhigh : toRat x ≤ 2 ^ 53)
    {j : ℤ} (hj : |j| ≤ 2 ^ 53) :
    snaps x j = true ↔ rounded |toRat x - j| ≤ toRat x / 2 ^ 50 := by
  obtain ⟨htf, htv⟩ := tolerance_value hf hlow hhigh
  have hjq : |(j : ℚ)| ≤ 2 ^ 53 := by exact_mod_cast hj
  obtain ⟨hif, hiv⟩ := (ofInt_rounds j).finite_of_le hjq (by norm_num)
  rw [representable_intCast hj] at hiv
  have hsub := sub_rounds hf hif
  rw [hiv] at hsub
  obtain ⟨hjlow, hjhigh⟩ := abs_le.mp hjq
  obtain ⟨hdf, hdv⟩ := hsub.finite_of_le (k := 54)
    (by rw [abs_le]; constructor <;> linarith) (by norm_num)
  obtain ⟨haf, hav⟩ := abs_value hdf
  rw [hdv, abs_rounded] at hav
  unfold snaps
  rw [decide_eq_true_iff, le_iff haf htf, hav, htv]

/-! ## Ranks -/

/-- A number that the roundings have led away from a whole one is taken for that. -/
theorem snaps_of_near (hf : isFinite x = true) {m : ℕ} (hm : 0 < m) (hle : m ≤ 10 ^ 11)
    (hnear : |toRat x - m| ≤ 3 / 2 ^ 52 * m) : round x = m ∧ snaps x m = true := by
  have hone : (1 : ℚ) ≤ m := by exact_mod_cast hm
  have hmany : (m : ℚ) ≤ 10 ^ 11 := by exact_mod_cast hle
  obtain ⟨hbelow, habove⟩ := abs_le.mp hnear
  have hlow : 1 / 4 ≤ toRat x := by linarith
  have hhigh : toRat x ≤ 2 ^ 53 := by linarith
  have htolerance : Representable (toRat x / 2 ^ 50) :=
    (tolerance_value hf hlow hhigh).2 ▸ representable_toRat _
  constructor
  · rw [round_eq (by linarith), Int.floor_eq_iff, Int.cast_natCast]
    constructor <;> linarith
  · rw [snaps_iff hf hlow hhigh (by rw [Nat.abs_cast]; omega), Int.cast_natCast]
    refine htolerance.rounded_le (hnear.trans ?_)
    linarith

/-- A number is not taken for a whole one that is further away than all roundings lead. -/
theorem not_snaps_of_far (hf : isFinite x = true) (hlow : 1 / 4 ≤ toRat x)
    (hhigh : toRat x ≤ 2 ^ 38) {j : ℤ} (hj : |j| ≤ 2 ^ 53) (hfar : 1 / 2 ^ 11 ≤ |toRat x - j|) :
    ¬ snaps x j = true := by
  have hrep : Representable (1 / 2 ^ 11) := by
    have hpow := representable_two_zpow (e := -11) (by norm_num)
    rwa [show (2 : ℚ) ^ (-11 : ℤ) = 1 / 2 ^ 11 by norm_num] at hpow
  have hrounded := hrep.le_rounded hfar
  rw [snaps_iff hf hlow (by linarith) hj, not_le]
  linarith

/-- A number of thousandths that is not whole is a thousandth or more away from every whole one. -/
theorem thousandth_le {a : ℕ} (ha : ¬ 1000 ∣ a) (j : ℤ) : 1 / 1000 ≤ |(a : ℚ) / 1000 - j| := by
  have hne : (1 : ℤ) ≤ |(a : ℤ) - 1000 * j| := Int.one_le_abs fun hzero => ha (by omega)
  have hcast : (1 : ℚ) ≤ |(a : ℚ) - 1000 * j| := by exact_mod_cast hne
  have hscale : (a : ℚ) / 1000 - j = (a - 1000 * j) / 1000 := by ring
  rw [hscale, abs_div, abs_of_pos (by norm_num : (0 : ℚ) < 1000)]
  exact div_le_div_of_nonneg_right hcast (by norm_num)

/-- Otherwise the number is rounded up, and its roundings have not led it past a whole one. -/
theorem ceil_of_near (hf : isFinite x = true) {a : ℕ} (hlow : 500 ≤ a) (hle : a ≤ 10 ^ 14)
    (ha : ¬ 1000 ∣ a) (hnear : |toRat x - a / 1000| ≤ 3 / 2 ^ 52 * (a / 1000)) :
    ¬ snaps x (round x) = true ∧ ceil x = ((a + 999) / 1000 : ℕ) := by
  have hfew : (500 : ℚ) ≤ a := by exact_mod_cast hlow
  have hmany : (a : ℚ) ≤ 10 ^ 14 := by exact_mod_cast hle
  obtain ⟨hbelow, habove⟩ := abs_le.mp hnear
  have hlow : 1 / 4 ≤ toRat x := by linarith
  have hhigh : toRat x ≤ 2 ^ 38 := by linarith
  constructor
  · have hround := round_eq (x := x) (by linarith)
    have hnonneg : 0 ≤ round x := hround ▸ Int.floor_nonneg.mpr (by linarith)
    have hsmall : round x < 2 ^ 53 := by
      rw [hround, Int.floor_lt]
      push_cast
      linarith
    refine not_snaps_of_far hf hlow hhigh (by rw [abs_of_nonneg hnonneg]; omega) ?_
    have hfar := thousandth_le ha (round x)
    have htriangle := abs_sub_le ((a : ℚ) / 1000) (toRat x) (round x)
    have hback := (abs_sub_comm ((a : ℚ) / 1000) (toRat x)).trans_le hnear
    linarith
  · have hup : a + 1 ≤ 1000 * ((a + 999) / 1000) := by omega
    have hdown : 1000 * ((a + 999) / 1000) + 1 ≤ a + 1000 := by omega
    have hup : (a : ℚ) + 1 ≤ 1000 * ((a + 999) / 1000 : ℕ) := by exact_mod_cast hup
    have hdown : (1000 : ℚ) * ((a + 999) / 1000 : ℕ) + 1 ≤ a + 1000 := by exact_mod_cast hdown
    rw [ceil_eq, Int.ceil_eq_iff, Int.cast_natCast]
    constructor <;> linarith

/-- **The rank of a standard percentile is exact.** -/
theorem nearestRank_eq (h : Tenths p k) (hn : 0 < n) (hle : n ≤ 10 ^ 11) :
    nearestRank p n = exactRank k n := by
  obtain ⟨hf, hnear⟩ := h.rank_near hn hle
  have hlow : 500 ≤ k * n := Nat.mul_le_mul h.low hn
  have hhigh : k * n ≤ 999 * 10 ^ 11 := Nat.mul_le_mul (Nat.le_of_lt_succ h.high) hle
  have hnan : isNaN (p * Float.ofNat n / 100) = false := by
    simp [isNaN, (isFinite_iff _).mp hf]
  have hcast : (k : ℚ) * n = (k * n : ℕ) := (Nat.cast_mul k n).symm
  rw [hcast] at hnear
  suffices hrank : (if snaps (p * Float.ofNat n / 100) (round (p * Float.ofNat n / 100)) then
      round (p * Float.ofNat n / 100) else ceil (p * Float.ofNat n / 100)) = exactRank k n by
    unfold nearestRank
    rw [h.clamp_eq]
    dsimp only
    rw [hnan, if_neg (by decide), hrank, Int.toNat_natCast]
    unfold UInt64.size exactRank
    omega
  generalize p * Float.ofNat n / 100 = x at hf hnear
  generalize hproduct : k * n = a at hnear hlow hhigh
  have hrank : exactRank k n = (a + 999) / 1000 := by rw [exactRank, hproduct]
  by_cases hdvd : 1000 ∣ a
  · have hexact : a = 1000 * exactRank k n := by omega
    have hquotient : (a : ℚ) / 1000 = exactRank k n := by
      have hcast : (a : ℚ) = 1000 * exactRank k n := by exact_mod_cast hexact
      rw [hcast, mul_div_cancel_left₀ _ (by norm_num)]
    rw [hquotient] at hnear
    obtain ⟨hround, hsnaps⟩ := snaps_of_near hf (by omega) (by omega) hnear
    rw [hround, if_pos hsnaps]
  · obtain ⟨hsnaps, hceil⟩ := ceil_of_near hf hlow (by omega) hdvd hnear
    rw [if_neg hsnaps, hceil, hrank]

theorem rankIndex_eq (h : Tenths p k) (hn : 0 < n) (hle : n ≤ 10 ^ 11) :
    rankIndex p n = exactRank k n - 1 := by
  have hmul : k * n ≤ 999 * n := Nat.mul_le_mul_right n (Nat.le_of_lt_succ h.high)
  unfold rankIndex
  rw [nearestRank_eq h hn hle]
  unfold exactRank
  omega

end Percentile

namespace Distribution

open Percentile (Tenths exactRank)

variable {d : Distribution} {p : Float} {k : ℕ}

/-- The observation at a rank of integer arithmetic. It is the least up to which there are enough
observations. -/
structure ExactQuantile (d : Distribution) (k : ℕ) (v : Int64) : Prop where
  atRank : d.histogram.observations[exactRank k d.size - 1]? = some v
  observed : v ∈ d.histogram.observations
  enough : k * d.size ≤ 1000 * d.countAtMost v
  least : ∀ w, k * d.size ≤ 1000 * d.countAtMost w → v ≤ w

theorem percentile_exact (hp : Tenths p k) (h : d.size ≤ 10 ^ 11) :
    d.ExactQuantile k (d.percentile p) := by
  have hrank := Percentile.rankIndex_eq hp d.size_pos h
  have hcount : ∀ w, d.percentile p ≤ w ↔ k * d.size ≤ 1000 * d.countAtMost w := by
    intro w
    have hpos : 500 ≤ k * d.size := Nat.mul_le_mul hp.low d.size_pos
    rw [percentile, d.valueAt_le_iff]
    dsimp only
    rw [hrank]
    unfold exactRank
    omega
  refine ⟨?_, d.percentile_mem p, (hcount _).mp (Int64.le_refl _), fun w => (hcount w).mpr⟩
  rw [← hrank, d.percentile_eq]
  exact List.getElem?_eq_getElem _

/-- What a summary takes from the percentiles. -/
theorem summary_percentiles (d : Distribution) : ∃ s, d.summary = .ok s ∧
    s.p50 = d.percentiles.p50 ∧ s.p90 = d.percentiles.p90 ∧ s.p95 = d.percentiles.p95 ∧
    s.p99 = d.percentiles.p99 ∧ s.p999 = d.percentiles.p999 := by
  obtain ⟨m, x, -, -, hs⟩ := d.summary_eq
  exact ⟨_, hs, rfl, rfl, rfl, rfl, rfl⟩

/-- **The standard percentiles are exact.** Up to a hundred thousand million observations, each of
them is the observation at the rank of integer arithmetic, in the percentiles and in the summary. -/
theorem percentiles_exact (d : Distribution) (h : d.size ≤ 10 ^ 11) :
    d.ExactQuantile 500 d.percentiles.p50 ∧ d.ExactQuantile 750 d.percentiles.p75 ∧
      d.ExactQuantile 900 d.percentiles.p90 ∧ d.ExactQuantile 950 d.percentiles.p95 ∧
      d.ExactQuantile 990 d.percentiles.p99 ∧ d.ExactQuantile 999 d.percentiles.p999 ∧
      ∃ s, d.summary = .ok s ∧ d.ExactQuantile 500 s.p50 ∧ d.ExactQuantile 900 s.p90 ∧
        d.ExactQuantile 950 s.p95 ∧ d.ExactQuantile 990 s.p99 ∧ d.ExactQuantile 999 s.p999 := by
  have hwhole : ∀ m, 50 ≤ m → m < 100 → d.ExactQuantile (10 * m) (d.percentile (Float.ofNat m)) :=
    fun m hm hlt => percentile_exact (Percentile.tenths_ofNat hm hlt) h
  have h50 : d.ExactQuantile 500 d.percentiles.p50 := hwhole 50 (by decide) (by decide)
  have h75 : d.ExactQuantile 750 d.percentiles.p75 := hwhole 75 (by decide) (by decide)
  have h90 : d.ExactQuantile 900 d.percentiles.p90 := hwhole 90 (by decide) (by decide)
  have h95 : d.ExactQuantile 950 d.percentiles.p95 := hwhole 95 (by decide) (by decide)
  have h99 : d.ExactQuantile 990 d.percentiles.p99 := hwhole 99 (by decide) (by decide)
  have h999 : d.ExactQuantile 999 d.percentiles.p999 := percentile_exact Percentile.tenths_999 h
  obtain ⟨s, hs, hs50, hs90, hs95, hs99, hs999⟩ := d.summary_percentiles
  refine ⟨h50, h75, h90, h95, h99, h999, s, hs, ?_⟩
  rw [hs50, hs90, hs95, hs99, hs999]
  exact ⟨h50, h90, h95, h99, h999⟩

/-- Forty-one of forty-one thousand observations are late. -/
def fewLate : Distribution :=
  (Builder.new.insertAll (List.replicate 40959 10 ++ List.replicate 41 500)).finish
    (Nat.pos_of_ne_zero (mt (Builder.numBins_insertAll_eq_zero Builder.isEmpty_new _).mp fun hnil =>
      absurd ((List.replicate_eq_nil_iff _).mp (List.append_eq_nil_iff.mp hnil).1) (by decide)))

theorem observations_fewLate :
    fewLate.histogram.observations.Perm (List.replicate 40959 10 ++ List.replicate 41 500) := by
  rw [fewLate, Builder.observations_finish]
  exact Builder.observations_insertAll_of_isEmpty Builder.isEmpty_new _

/-- Here the rank comes out above the whole number 40959 and is taken for it. -/
theorem percentiles_exact_fewLate : fewLate.size = 41000 ∧
    fewLate.ExactQuantile 999 fewLate.percentiles.p999 ∧ fewLate.percentiles.p999 = 10 := by
  have hsize : fewLate.size = 41000 := by
    rw [← fewLate.length_observations, observations_fewLate.length_eq, List.length_append,
      List.length_replicate, List.length_replicate]
  obtain ⟨-, -, -, -, -, hexact, -⟩ := percentiles_exact fewLate (by rw [hsize]; decide)
  have hcount : fewLate.countAtMost 10 = 40959 := by
    rw [countAtMost_eq, observations_fewLate.countP_eq, List.countP_append, List.countP_replicate,
      List.countP_replicate]
    rfl
  have hseen := observations_fewLate.mem_iff.mp hexact.observed
  refine ⟨hsize, hexact, Int64.le_antisymm (hexact.least 10 ?_) ?_⟩
  · rw [hsize, hcount]
  · rcases List.mem_append.mp hseen with hten | hlate
    · exact Int64.le_of_eq (List.eq_of_mem_replicate hten).symm
    · rw [List.eq_of_mem_replicate hlate]
      decide

end Distribution
end TimingStats
