import TimingStats.Comparison
import TimingStats.Proofs.Distribution.Resampling
import TimingStats.Proofs.Distribution.Summaries

/-! # When a comparison faults

A comparison that is not refused faults only if its replicates cannot be addressed. The integers
that it works out stay in the range of their words as long as the observations can be counted. -/

namespace TimingStats

open TimingStats.Random

/-! ## Integers -/

namespace Comparison

variable {σ : Type} [RankSource σ]

/-- Each draw adds at most 2^63. -/
theorem natAbs_drawnTotal_le (d : Distribution) (n : Nat) (total : Int) (s : σ) :
    (drawnTotal d n total s).1.natAbs ≤ total.natAbs + n * 2 ^ 63 := by
  induction n generalizing total s with
  | zero => exact Nat.le_add_right _ _
  | succ n ih =>
    have hdraw := natAbs_toInt_le (d.choose s).1
    have hadd := Int.natAbs_add_le total (d.choose s).1.toInt
    have hrest := ih (total + (d.choose s).1.toInt) (d.choose s).2
    change (drawnTotal d n (total + (d.choose s).1.toInt) (d.choose s).2).1.natAbs ≤ _
    omega

end Comparison

/-- The integers that are worked out from a distribution fit their words: its counts and ranks in
sixty-four bits, and its products and sums of draws in one hundred and twenty-eight. -/
structure Distribution.Fits (d : Distribution) : Prop where
  counts : ∀ b ∈ d.bins, b.count < UInt64.size
  ranks : ∀ r ∈ d.endRanks, r < UInt64.size
  products : ∀ b ∈ d.bins, (b.value.toInt * b.count).natAbs < 2 ^ 127
  draws : ∀ {σ : Type} [RankSource σ] (n : Nat) (s : σ), n ≤ d.size →
    (Comparison.drawnTotal d n 0 s).1.natAbs < 2 ^ 127

theorem Distribution.fits_of_size {d : Distribution} (h : d.size < UInt64.size) : d.Fits := by
  have hcount : ∀ b ∈ d.bins, b.count < UInt64.size := fun b hb =>
    Nat.lt_of_le_of_lt (d.count_le_size hb) h
  refine ⟨hcount, fun r hr => Nat.lt_of_le_of_lt (le_size_of_mem_endRanks hr) h,
    fun b hb => natAbs_mul_count_lt b.value (hcount b hb), ?_⟩
  intro σ _ n s hn
  have hle := Comparison.natAbs_drawnTotal_le d n 0 s
  have hsize : UInt64.size = 2 ^ 64 := rfl
  omega

/-! ## Derived distributions -/

namespace Builder

variable {σ : Type} [RankSource σ]

/-- Resampling into an empty builder makes as many observations as the shorter side has. -/
theorem resample_ok {b : Builder} (h : b.isEmpty = true) (left right : Distribution)
    (combine : Int64 → Int64 → Int64) (s : σ) :
    ∃ d s', b.resample left right combine s = .ok (d, s') ∧
      d.size = min left.size right.size := by
  obtain ⟨d, hok, hperm⟩ := resample_pairs h left right combine s
  have hlen := hperm.length_eq
  rw [List.length_map, d.length_observations, Distribution.length_resampledPairs] at hlen
  exact ⟨d, _, hok, hlen⟩

end Builder

namespace Comparison

/-- The integers of whatever is resampled from two distributions fit their words. -/
def ResamplesFit (baseline candidate : Distribution) : Prop :=
  ∀ {σ : Type} [RankSource σ] (b : Builder) (combine : Int64 → Int64 → Int64) (s s' : σ)
    (d : Distribution), b.isEmpty = true →
    b.resample candidate baseline combine s = .ok (d, s') → d.Fits

theorem resamplesFit_of_size {baseline : Distribution} (h : baseline.size < UInt64.size)
    (candidate : Distribution) : ResamplesFit baseline candidate := by
  intro σ _ b combine s s' d hempty hok
  obtain ⟨d', s'', hok', hsize⟩ := Builder.resample_ok hempty candidate baseline combine s
  cases hok.symm.trans hok'
  exact Distribution.fits_of_size
    (hsize ▸ Nat.lt_of_le_of_lt (Nat.min_le_right _ _) h)

variable {σ : Type} [RankSource σ]

/-! ## Replicates -/

/-- From this number on, replicates cannot be addressed. -/
def iterationLimit : Nat := 2 ^ 60

theorem iterationLimit_le_iff (n : Nat) : UInt64.size / 2 ≤ 8 * n ↔ iterationLimit ≤ n := by
  have hsize : UInt64.size / 2 = 8 * iterationLimit := rfl
  omega

theorem bootstrap_ok {iterations : Nat} (hlt : iterations < iterationLimit) (h : 0 < iterations)
    (baseline candidate : Distribution) (s : σ) :
    ∃ shifts s', bootstrap baseline candidate iterations h s = .ok (shifts, s') := by
  unfold bootstrap
  rw [if_neg (mt (iterationLimit_le_iff iterations).mp (Nat.not_le_of_lt hlt))]
  exact ⟨_, _, rfl⟩

theorem bootstrap_faults {iterations : Nat} (hle : iterationLimit ≤ iterations)
    (h : 0 < iterations) (baseline candidate : Distribution) (s : σ) :
    bootstrap baseline candidate iterations h s = .error .allocationTooLarge := by
  unfold bootstrap
  rw [if_pos ((iterationLimit_le_iff iterations).mpr hle)]

/-- Bootstrapping that succeeds sorts the replicates, and leaves the state after their draws. -/
theorem shifts_of_bootstrap {baseline candidate : Distribution} {iterations : Nat}
    {h : 0 < iterations} {s s' : σ} {shifts : Shifts}
    (hok : bootstrap baseline candidate iterations h s = .ok (shifts, s')) :
    iterations < iterationLimit ∧
      shifts.values = (sorted (replicates baseline candidate iterations [] s).1).toArray ∧
      s' = (replicates baseline candidate iterations [] s).2 := by
  unfold bootstrap at hok
  split at hok
  · cases hok
  · rename_i hroom
    obtain ⟨rfl, rfl⟩ := Prod.mk.inj (Except.ok.inj hok)
    exact ⟨Nat.not_le.mp (mt (iterationLimit_le_iff iterations).mpr hroom), rfl, rfl⟩

/-! ## Comparisons -/

variable {baseline candidate : Distribution} {config : ComparisonConfig}

theorem measure_of_parts {hpos : 0 < config.bootstrapIterations} {s s₁ s₂ s₃ : σ} {shifts : Shifts}
    {difference ratio : Distribution}
    (hshifts : bootstrap baseline candidate config.bootstrapIterations hpos s = .ok (shifts, s₁))
    (hdifference : Builder.new.subtract candidate baseline s₁ = .ok (difference, s₂))
    (hratio : difference.reset.scaledDiv candidate ratioScale baseline s₂ = .ok (ratio, s₃)) :
    ∃ c, measure baseline candidate config hpos s = .ok (c, s₃) ∧
      c.relativeChange =
        Float.ofInt (ratio.percentile 50).toInt * 100 / Float.ofInt ratioScale.toInt - 100 ∧
      c.probabilitySlowerSample =
        1 - Float.ofNat (difference.countAtMost 0) / Float.ofNat difference.size := by
  obtain ⟨b, hb, -⟩ := baseline.summary_ok
  obtain ⟨c, hc, -⟩ := candidate.summary_ok
  unfold measure
  rw [hb]
  dsimp only [bind, Except.bind]
  rw [hc]
  dsimp only
  rw [hshifts]
  dsimp only
  rw [hdifference]
  dsimp only
  rw [hratio]
  exact ⟨_, rfl, rfl, rfl⟩

theorem measure_ok (hpos : 0 < config.bootstrapIterations)
    (hlt : config.bootstrapIterations < iterationLimit) (s : σ) :
    ∃ c s', measure baseline candidate config hpos s = .ok (c, s') := by
  obtain ⟨shifts, s₁, hshifts⟩ := bootstrap_ok hlt hpos baseline candidate s
  obtain ⟨difference, s₂, hdifference, -⟩ :=
    Builder.resample_ok Builder.isEmpty_new candidate baseline saturatingSub s₁
  obtain ⟨ratio, s₃, hratio, -⟩ := Builder.resample_ok difference.isEmpty_reset candidate baseline
    (scaledQuotient · ratioScale ·) s₂
  obtain ⟨c, hok, -⟩ := measure_of_parts hshifts hdifference hratio
  exact ⟨c, s₃, hok⟩

/-- What the figures of a comparison come from. -/
theorem measure_cases {hpos : 0 < config.bootstrapIterations} {s s' : σ} {c : Comparison}
    (h : measure baseline candidate config hpos s = .ok (c, s')) :
    ∃ shifts s₁ difference s₂ ratio,
      bootstrap baseline candidate config.bootstrapIterations hpos s = .ok (shifts, s₁) ∧
      Builder.new.subtract candidate baseline s₁ = .ok (difference, s₂) ∧
      difference.reset.scaledDiv candidate ratioScale baseline s₂ = .ok (ratio, s') ∧
      c.intervalLower = shifts.atFraction ((1 - config.confidenceLevel) / 2) ∧
      c.intervalUpper = shifts.atFraction (1 - (1 - config.confidenceLevel) / 2) ∧
      c.probabilityRegression = shifts.positiveShare ∧
      c.relativeChange =
        Float.ofInt (ratio.percentile 50).toInt * 100 / Float.ofInt ratioScale.toInt - 100 ∧
      c.isSignificant = significant c.intervalLower c.intervalUpper c.relativeChange
        config.significanceThreshold := by
  obtain ⟨b, hb, -⟩ := baseline.summary_ok
  obtain ⟨d, hd, -⟩ := candidate.summary_ok
  unfold measure at h
  rw [hb] at h
  dsimp only [bind, Except.bind] at h
  rw [hd] at h
  dsimp only at h
  cases hshifts : bootstrap baseline candidate config.bootstrapIterations hpos s with
  | error e => rw [hshifts] at h; cases h
  | ok drawn =>
    obtain ⟨shifts, s₁⟩ := drawn
    rw [hshifts] at h
    dsimp only at h
    cases hdifference : Builder.new.subtract candidate baseline s₁ with
    | error e => rw [hdifference] at h; cases h
    | ok subtracted =>
      obtain ⟨difference, s₂⟩ := subtracted
      rw [hdifference] at h
      dsimp only at h
      cases hratio : difference.reset.scaledDiv candidate ratioScale baseline s₂ with
      | error e => rw [hratio] at h; cases h
      | ok divided =>
        obtain ⟨ratio, s₃⟩ := divided
        rw [hratio] at h
        cases h
        exact ⟨shifts, s₁, difference, s₂, ratio, rfl, hdifference, hratio, rfl, rfl, rfl, rfl, rfl⟩

theorem measure_faults (hpos : 0 < config.bootstrapIterations)
    (hle : iterationLimit ≤ config.bootstrapIterations) (s : σ) :
    measure baseline candidate config hpos s = .error .allocationTooLarge := by
  obtain ⟨b, hb, -⟩ := baseline.summary_ok
  obtain ⟨c, hc, -⟩ := candidate.summary_ok
  unfold measure
  rw [hb]
  dsimp only [bind, Except.bind]
  rw [hc]
  dsimp only
  rw [bootstrap_faults hle hpos]

theorem attempt_of_refusal {e : ComparisonError} (h : refusal baseline candidate config = some e)
    (s : σ) : attempt baseline candidate config s = .ok (.error e, s) := by
  unfold attempt
  split
  · rename_i e' he
    rw [Option.some_inj.mp (he.symm.trans h)]
  · rename_i hnone
    cases h.symm.trans hnone

theorem attempt_of_no_refusal (h : refusal baseline candidate config = none) (s : σ) :
    attempt baseline candidate config s =
      (fun r => (.ok r.1, r.2)) <$>
        measure baseline candidate config (iterations_pos_of_refusal h) s := by
  unfold attempt
  split
  · rename_i e he
    cases h.symm.trans he
  · cases measure baseline candidate config (iterations_pos_of_refusal h) s <;> rfl

theorem compare_of_refusal {e : ComparisonError} (h : refusal baseline candidate config = some e)
    (s : σ) : compare baseline candidate config s = .ok (.error e) := by
  unfold compare
  rw [attempt_of_refusal h]
  rfl

theorem compare_of_no_refusal (h : refusal baseline candidate config = none) (s : σ) :
    compare baseline candidate config s =
      .ok <$> measure baseline candidate config (iterations_pos_of_refusal h) s := by
  unfold compare
  rw [attempt_of_no_refusal h]
  cases measure baseline candidate config (iterations_pos_of_refusal h) s <;> rfl

theorem compare_of_measure (haccept : refusal baseline candidate config = none)
    {hn : 0 < config.bootstrapIterations} {s s' : σ} {c : Comparison}
    (h : measure baseline candidate config hn s = .ok (c, s')) :
    compare baseline candidate config s = .ok (.ok (c, s')) := by
  rw [compare_of_no_refusal haccept, h]
  rfl

theorem compare_faults (haccept : refusal baseline candidate config = none)
    (hle : iterationLimit ≤ config.bootstrapIterations) (s : σ) :
    compare baseline candidate config s = .error .allocationTooLarge := by
  rw [compare_of_no_refusal haccept, measure_faults _ hle]
  rfl

/-- Two distributions of at least two observations are refused for the parameters alone. -/
theorem refusal_eq (hb : 2 ≤ baseline.size) (hc : 2 ≤ candidate.size) :
    refusal baseline candidate config =
      if ¬ (0 < config.confidenceLevel ∧ config.confidenceLevel < 1) then
        some (.invalidConfidenceLevel config.confidenceLevel)
      else if config.bootstrapIterations = 0 then some .noBootstrapIterations
      else none := by
  unfold refusal
  rw [if_neg (Nat.not_lt.mpr hb), if_neg (Nat.not_lt.mpr hc)]
  simp only [Bool.not_eq_true', Bool.and_eq_false_iff, decide_eq_false_iff_not, not_and_or]

section Made

variable {hn : 0 < config.bootstrapIterations} {s s' : σ} {c : Comparison}

theorem level_of_refusal (h : refusal baseline candidate config = none) :
    0 < config.confidenceLevel ∧ config.confidenceLevel < 1 := by
  unfold refusal at h
  split at h
  · cases h
  · split at h
    · cases h
    · split at h
      · cases h
      · rename_i hlevel
        simpa only [Bool.not_eq_true', Bool.not_eq_false, Bool.and_eq_true, decide_eq_true_eq]
          using hlevel

theorem measure_of_compare (h : compare baseline candidate config s = .ok (.ok (c, s'))) :
    ∃ hn, measure baseline candidate config hn s = .ok (c, s') ∧
      0 < config.confidenceLevel ∧ config.confidenceLevel < 1 := by
  cases hrefusal : refusal baseline candidate config with
  | some e => cases h.symm.trans (compare_of_refusal hrefusal s)
  | none =>
    refine ⟨iterations_pos_of_refusal hrefusal, ?_, level_of_refusal hrefusal⟩
    rw [compare_of_no_refusal hrefusal] at h
    cases hmeasure : measure baseline candidate config (iterations_pos_of_refusal hrefusal) s with
    | error e => rw [hmeasure] at h; cases h
    | ok figures =>
      rw [hmeasure] at h
      cases h
      rfl

end Made

end Comparison
end TimingStats
