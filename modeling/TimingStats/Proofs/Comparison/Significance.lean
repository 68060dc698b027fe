import TimingStats.Proofs.Comparison.Interval
import TimingStats.Proofs.Comparison.RelativeChange
import TimingStats.Report.Human

/-! # The direction of a significant change

The interval comes from means of draws and the relative change from the median of resampled ratios.
A change is significant if the interval leaves out zero and the relative change is great enough,
each in a direction of its own. The relative change says which sample is the greater one in at
least half of the pairs. The two directions agree for samples on either side of a number. -/

namespace TimingStats

open TimingStats.Random Binary64

/-! ## Verdicts -/

namespace Report

variable {c : Comparison}

theorem changeLabel_eq_regression :
    changeLabel c = "📈 REGRESSION" ↔ c.isSignificant = true ∧ 0 < c.relativeChange := by
  unfold changeLabel
  cases c.isSignificant with
  | false => simp
  | true => by_cases hpos : 0 < c.relativeChange <;> simp [hpos]

theorem changeLabel_eq_improvement :
    changeLabel c = "📉 improvement" ↔ c.isSignificant = true ∧ ¬ 0 < c.relativeChange := by
  unfold changeLabel
  cases c.isSignificant with
  | false => simp
  | true => by_cases hpos : 0 < c.relativeChange <;> simp [hpos]

/-- A report shows the verdict behind the figures of the change. -/
theorem verdict_of_humanComparison {r : ComparisonReport} {text : String}
    (h : humanComparison r = .ok text) : ∃ before after, text =
      before ++ "  change: " ++ signedPlaces r.comparison.relativeChange ++ "% (mean " ++
        signedPlaces r.comparison.absoluteChange ++ " ns) " ++ changeLabel r.comparison ++ "\n" ++
        after := by
  unfold humanComparison at h
  cases hb : analysisBlock r.baseline with
  | error e => rw [hb] at h; cases h
  | ok first =>
    cases hc : analysisBlock r.candidate with
    | error e => rw [hb, hc] at h; cases h
    | ok second =>
      rw [hb, hc] at h
      cases h
      refine ⟨title "QuietBench Comparison Results" ++ "Baseline\n" ++ first ++ "\n" ++
        "Candidate\n" ++ second ++ "\n" ++ "Comparison\n" ++ "".pushn '-' 60 ++ "\n",
        "  P(regression): " ++ percent r.comparison.probabilityRegression ++ "\n" ++
        "  slower sample pairs: " ++ percent r.comparison.probabilitySlowerSample ++ "\n" ++
        "  mean difference CI: [" ++ duration r.comparison.intervalLower ++ ", " ++
        duration r.comparison.intervalUpper ++ "]\n" ++ "  effect size: " ++
        twoPlaces r.comparison.effectSize ++ " (" ++ r.comparison.effect.text ++ ")\n", ?_⟩
      unfold comparisonBlock
      simp only [String.append_assoc]

end Report

namespace Comparison

section Measured

variable {σ : Type} [RankSource σ] {baseline candidate : Distribution} {config : ComparisonConfig}
  {hn : 0 < config.bootstrapIterations} {s s' : σ} {c : Comparison} {p : ℕ}

/-! ## Samples on either side of a number -/

/-- No observation of one sample is above a number and none of the other below it, and a double
holds the totals of as many times the number as each sample has observations. -/
structure Apart (low high : Distribution) (p : ℕ) : Prop where
  below : ∀ v ∈ low.histogram.observations, v.toInt ≤ p
  above : ∀ v ∈ high.histogram.observations, p ≤ v.toInt
  low_exact : low.size * p ≤ 2 ^ 53
  high_exact : high.size * p ≤ 2 ^ 53

/-- The samples of two distributions lie on either side of a number. -/
def LieApart (d e : Distribution) : Prop := ∃ p, Apart d e p ∨ Apart e d p

theorem Apart.pos {low high : Distribution} {p : ℕ} (h : Apart low high p) (hlow : Positive low) :
    0 < p := by
  have hmem := low.observationAt_mem ⟨0, low.size_pos⟩
  have hpos := toInt_pos (hlow _ hmem)
  have hle := h.below _ hmem
  omega

theorem Apart.le {low high : Distribution} {p : ℕ} (h : Apart low high p) {v w : Int64}
    (hv : v ∈ low.histogram.observations) (hw : w ∈ high.histogram.observations) : ¬ w < v := by
  have hbelow := h.below v hv
  have habove := h.above w hw
  rw [Int64.lt_iff_toInt_lt]
  omega

/-- The means of draws from samples that lie apart are in the same order. -/
theorem Apart.means {low high : Distribution} {p : ℕ} (h : Apart low high p)
    (hlow : Positive low) (s s' : σ) :
    toRat (resampledMean low s).1 ≤ toRat (resampledMean high s').1 :=
  (resampledMean_le (h.pos hlow) h.low_exact h.below s).trans
    (le_resampledMean (h.pos hlow) h.high_exact h.above s')

/-- If no candidate is below a number and no baseline above it, no replicate is negative, and the
relative change is not. -/
theorem Apart.not_faster (h : measure baseline candidate config hn s = .ok (c, s'))
    (hapart : Apart baseline candidate p) (hb : Positive baseline)
    (hcoherent : c.Coherent (replicates baseline candidate config.bootstrapIterations [] s).1
      config.confidenceLevel config.bootstrapIterations) :
    ¬ c.intervalUpper < 0 ∧ ¬ c.relativeChange < 0 := by
  constructor
  · have hbsize := size_lt_of_exact (hapart.pos hb) hapart.low_exact
    have hcsize := size_lt_of_exact (hapart.pos hb) hapart.high_exact
    have hnonneg : ∀ x ∈ (replicates baseline candidate config.bootstrapIterations [] s).1,
        0 ≤ toRat x := forall_mem_replicates (fun s s' => by
      rw [(replicate_value hbsize hcsize s s').2]
      exact rounded_nonneg (sub_nonneg.mpr (hapart.means hb s' s))) _ (by simp) s
    rw [lt_iff (hcoherent.finite _ hcoherent.upper_mem) zero_value.1, zero_value.2, not_lt]
    exact hnonneg _ hcoherent.upper_mem
  · intro hneg
    obtain ⟨⟨q, hq, hlt⟩, -⟩ := faster_of_measure h hb hneg
    obtain ⟨hqc, hqb⟩ := mem_of_mem_ratioPairs hq
    exact hapart.le hqb hqc (of_decide_eq_true hlt)

/-- If no candidate is above a number and no baseline below it, no replicate is positive, and the
relative change is not. -/
theorem Apart.not_slower (h : measure baseline candidate config hn s = .ok (c, s'))
    (hapart : Apart candidate baseline p) (hc : Positive candidate)
    (hcoherent : c.Coherent (replicates baseline candidate config.bootstrapIterations [] s).1
      config.confidenceLevel config.bootstrapIterations) :
    ¬ 0 < c.intervalLower ∧ ¬ 0 < c.relativeChange := by
  constructor
  · have hbsize := size_lt_of_exact (hapart.pos hc) hapart.high_exact
    have hcsize := size_lt_of_exact (hapart.pos hc) hapart.low_exact
    have hnonpos : ∀ x ∈ (replicates baseline candidate config.bootstrapIterations [] s).1,
        toRat x ≤ 0 := forall_mem_replicates (fun s s' => by
      rw [(replicate_value hbsize hcsize s s').2]
      exact representable_zero.rounded_le (sub_nonpos.mpr (hapart.means hc s s'))) _ (by simp) s
    rw [lt_iff zero_value.1 (hcoherent.finite _ hcoherent.lower_mem), zero_value.2, not_lt]
    exact hnonpos _ hcoherent.lower_mem
  · intro hpos
    obtain ⟨⟨q, hq, hlt⟩, -⟩ := slower_of_measure h hc hpos
    obtain ⟨hqc, hqb⟩ := mem_of_mem_ratioPairs hq
    exact hapart.le hqc hqb (of_decide_eq_true hlt)

/-! ## Direction -/

theorem ne_zero_of_threshold {threshold x : Float} (hx : isFinite x = true)
    (hpos : 0 < threshold) (hle : threshold ≤ x.abs) : toRat x ≠ 0 := by
  obtain ⟨haf, hav⟩ := abs_value hx
  have htf := isFinite_of_between zero_value.1 haf (Binary64.le_of_lt hpos) hle
  rw [lt_iff zero_value.1 htf, zero_value.2] at hpos
  rw [le_iff htf haf, hav] at hle
  exact abs_pos.mp (hpos.trans_le hle)

theorem isSignificant_iff (h : measure baseline candidate config hn s = .ok (c, s')) :
    c.isSignificant = true ↔ (0 < c.intervalLower ∨ c.intervalUpper < 0) ∧
      config.significanceThreshold ≤ c.relativeChange.abs := by
  obtain ⟨-, -, -, -, -, -, -, -, -, -, -, -, hsignificant⟩ := measure_cases h
  rw [hsignificant, significant]
  simp only [Bool.and_eq_true, Bool.or_eq_true, decide_eq_true_eq]

/-- What a comparison says about its direction. The interval lies on one side of zero, and the
relative change is on the side of at least half of the pairs. For samples that lie apart both are on
the same side, and so is the verdict. -/
structure Directed (c : Comparison) (baseline candidate : Distribution) (threshold : Float)
    (pairs : List (Int64 × Int64)) : Prop where
  significant : c.isSignificant = true ↔
    (0 < c.intervalLower ∨ c.intervalUpper < 0) ∧ threshold ≤ c.relativeChange.abs
  one_side : ¬ (0 < c.intervalLower ∧ c.intervalUpper < 0)
  regression : Report.changeLabel c = "📈 REGRESSION" ↔
    c.isSignificant = true ∧ 0 < c.relativeChange
  improvement : Report.changeLabel c = "📉 improvement" ↔
    c.isSignificant = true ∧ c.relativeChange ≤ 0
  slower : 0 < c.relativeChange → (∃ p ∈ pairs, p.2 < p.1) ∧
    (pairs.length ≤ 2 ^ 47 → pairs.length ≤ 2 * pairs.countP fun p => decide (p.2 < p.1))
  faster : c.relativeChange < 0 → (∃ p ∈ pairs, p.1 < p.2) ∧
    (pairs.length ≤ 2 ^ 47 → pairs.length ≤ 2 * pairs.countP fun p => decide (p.1 < p.2))
  unopposed : LieApart baseline candidate → c.isSignificant = true →
    (0 < c.relativeChange → 0 < c.intervalLower) ∧ (c.relativeChange < 0 → c.intervalUpper < 0)
  agreement : LieApart baseline candidate → 0 < threshold → c.isSignificant = true →
    (0 < c.relativeChange ↔ 0 < c.intervalLower) ∧ (c.relativeChange < 0 ↔ c.intervalUpper < 0)
  verdict : LieApart baseline candidate → 0 < threshold →
    (Report.changeLabel c = "📈 REGRESSION" → 0 < c.intervalLower) ∧
    (Report.changeLabel c = "📉 improvement" → c.intervalUpper < 0)

/-- A significant change is not zero, if the threshold is positive. -/
theorem pos_or_neg_of_isSignificant (h : measure baseline candidate config hn s = .ok (c, s'))
    (hpos : 0 < config.significanceThreshold) (hsig : c.isSignificant = true) :
    0 < c.relativeChange ∨ c.relativeChange < 0 := by
  have hf := relativeChange_finite h
  have hne := ne_zero_of_threshold hf hpos ((isSignificant_iff h).mp hsig).2
  rw [lt_iff zero_value.1 hf, lt_iff hf zero_value.1, zero_value.2]
  exact hne.lt_or_gt.symm

section Coherence

variable (h : measure baseline candidate config hn s = .ok (c, s')) (hb : Positive baseline)
  (hc : Positive candidate)
  (hcoherent : c.Coherent (replicates baseline candidate config.bootstrapIterations [] s).1
    config.confidenceLevel config.bootstrapIterations)

include h hb hc hcoherent

/-- For samples that lie apart, one side of zero is left out by interval and change alike. -/
theorem LieApart.same_side (hapart : LieApart baseline candidate) :
    (¬ c.intervalUpper < 0 ∧ ¬ c.relativeChange < 0) ∨
      (¬ 0 < c.intervalLower ∧ ¬ 0 < c.relativeChange) := by
  obtain ⟨p, hup | hdown⟩ := hapart
  · exact .inl (hup.not_faster h hb hcoherent)
  · exact .inr (hdown.not_slower h hc hcoherent)

theorem LieApart.unopposed (hapart : LieApart baseline candidate) (hsig : c.isSignificant = true) :
    (0 < c.relativeChange → 0 < c.intervalLower) ∧
      (c.relativeChange < 0 → c.intervalUpper < 0) := by
  have hexcludes := ((isSignificant_iff h).mp hsig).1
  rcases hapart.same_side h hb hc hcoherent with ⟨hupper, hfaster⟩ | ⟨hlower, hslower⟩
  · exact ⟨fun _ => hexcludes.resolve_right hupper, fun hneg => absurd hneg hfaster⟩
  · exact ⟨fun hpos => absurd hpos hslower, fun _ => hexcludes.resolve_left hlower⟩

theorem LieApart.agreement (hapart : LieApart baseline candidate)
    (hpos : 0 < config.significanceThreshold) (hsig : c.isSignificant = true) :
    (0 < c.relativeChange ↔ 0 < c.intervalLower) ∧
      (c.relativeChange < 0 ↔ c.intervalUpper < 0) := by
  have hexcludes := ((isSignificant_iff h).mp hsig).1
  have hnonzero := pos_or_neg_of_isSignificant h hpos hsig
  rcases hapart.same_side h hb hc hcoherent with ⟨hupper, hfaster⟩ | ⟨hlower, hslower⟩
  · exact ⟨iff_of_true (hnonzero.resolve_right hfaster) (hexcludes.resolve_right hupper),
      iff_of_false hfaster hupper⟩
  · exact ⟨iff_of_false hslower hlower,
      iff_of_true (hnonzero.resolve_left hslower) (hexcludes.resolve_left hlower)⟩

theorem directed_of_measure : c.Directed baseline candidate config.significanceThreshold
    (ratioPairs baseline candidate config.bootstrapIterations s) := by
  have hf := relativeChange_finite h
  have hnot : ¬ 0 < c.relativeChange ↔ c.relativeChange ≤ 0 := by
    rw [lt_iff zero_value.1 hf, le_iff hf zero_value.1, not_lt]
  refine ⟨isSignificant_iff h, hcoherent.one_side, Report.changeLabel_eq_regression,
    Report.changeLabel_eq_improvement.trans (and_congr_right fun _ => hnot),
    fun hpos => by simpa using slower_of_measure h hc hpos,
    fun hneg => by simpa using faster_of_measure h hb hneg,
    fun hapart => hapart.unopposed h hb hc hcoherent,
    fun hapart => hapart.agreement h hb hc hcoherent,
    fun hapart hpos => ⟨fun hlabel => ?_, fun hlabel => ?_⟩⟩
  · obtain ⟨hsig, hslower⟩ := Report.changeLabel_eq_regression.mp hlabel
    exact (hapart.agreement h hb hc hcoherent hpos hsig).1.mp hslower
  · obtain ⟨hsig, hslower⟩ := Report.changeLabel_eq_improvement.mp hlabel
    have hfaster := (pos_or_neg_of_isSignificant h hpos hsig).resolve_left hslower
    exact (hapart.agreement h hb hc hcoherent hpos hsig).2.mp hfaster

end Coherence

/-- **A significant change does not contradict its interval, if the samples lie apart.** In general
its verdict is that of the relative change alone, which at least half of the resampled pairs bear
out. Where no sample of one side is below a number and none of the other above it, the relative
change is above zero exactly if the whole interval is, and below zero likewise. -/
theorem significance_directed (hb : Positive baseline) (hc : Positive candidate)
    (hbsize : baseline.size < UInt64.size) (hcsize : candidate.size < UInt64.size)
    (h : compare baseline candidate config s = .ok (.ok (c, s'))) :
    c.Directed baseline candidate config.significanceThreshold
      (ratioPairs baseline candidate config.bootstrapIterations s) ∧
    ∀ (r : ComparisonReport) (text : String), r.comparison = c →
      Report.humanComparison r = .ok text → ∃ before after, text =
        before ++ "  change: " ++ Report.signedPlaces c.relativeChange ++ "% (mean " ++
          Report.signedPlaces c.absoluteChange ++ " ns) " ++ Report.changeLabel c ++ "\n" ++
          after := by
  obtain ⟨hn, hmeasure, h0, h1⟩ := measure_of_compare h
  have hcoherent := coherent_of_measure hmeasure hbsize hcsize h0 h1
  refine ⟨directed_of_measure hmeasure hb hc hcoherent, ?_⟩
  rintro r text rfl htext
  exact Report.verdict_of_humanComparison htext

end Measured

/-! ## Directions that differ -/

def samplesOf (v : Int64) (vs : List Int64) : Distribution :=
  ((Builder.ofCapacity 1 Nat.one_pos).insertAll (v :: vs)).finish (Nat.pos_of_ne_zero
    (mt (Builder.numBins_insertAll_eq_zero rfl _).mp (List.cons_ne_nil v vs)))

@[simp] theorem mem_samplesOf {v w : Int64} {vs : List Int64} :
    w ∈ (samplesOf v vs).histogram.observations ↔ w ∈ v :: vs := by
  unfold samplesOf
  rw [Builder.observations_finish]
  exact (Builder.observations_insertAll_of_isEmpty rfl _).mem_iff

/-- Draws the highest of three candidates in the only replicate, and then the lowest of whatever is
drawn from. -/
def highestFirst : WordStream :=
  .ofList [0xc000000000000000, 0xc000000000000000, 0xc000000000000000, 0, 0, 0, 0, 0, 0]

/-- Two samples that lie apart, with a slower candidate. -/
theorem significance_directed_apart :
    ∃ c s', compare (samplesOf 100 [100]) (samplesOf 200 [300, 400]) ⟨0.95, 5, 1⟩ highestFirst =
        .ok (.ok (c, s')) ∧ c.isSignificant = true ∧
      LieApart (samplesOf 100 [100]) (samplesOf 200 [300, 400]) ∧
      c.Directed (samplesOf 100 [100]) (samplesOf 200 [300, 400]) 5
        (ratioPairs (samplesOf 100 [100]) (samplesOf 200 [300, 400]) 1 highestFirst) ∧
      0 < c.intervalLower ∧ 0 < c.relativeChange := by
  obtain ⟨c, s', hmeasure, hrun, hlower, -, hsignificant⟩ := run_of_constant (samplesOf 100 [100])
    (samplesOf 200 [300, 400]) ⟨0.95, 5, 1⟩ highestFirst 300 (by decide +kernel) (by decide +kernel)
    (by decide +kernel) (by decide) (by decide) (by decide +kernel)
  have hrelative := relativeChange_of_pairs hmeasure (v := 200) (w := 100) (k := 2)
    (by decide +kernel)
  have hb : Positive (samplesOf 100 [100]) := by simp [Positive]
  have hc : Positive (samplesOf 200 [300, 400]) := by simp [Positive]
  have hapart : Apart (samplesOf 100 [100]) (samplesOf 200 [300, 400]) 150 :=
    ⟨by simp, by simp, by decide +kernel, by decide +kernel⟩
  obtain ⟨hdirected, -⟩ :=
    significance_directed hb hc (by decide +kernel) (by decide +kernel) hrun
  have hsig : c.isSignificant = true := by rw [hsignificant, hrelative]; decide +kernel
  exact ⟨c, s', hrun, hsig, ⟨150, .inl hapart⟩, hdirected, by rw [hlower]; decide +kernel,
    by rw [hrelative]; decide +kernel⟩

/-- Draws the lowest candidate in the only replicate, and the middle one for differences and
ratios. -/
def lowestFirst : WordStream :=
  .ofList [0, 0, 0, 0, 0, 0x8000000000000000, 0x8000000000000000, 0x8000000000000000,
    0x8000000000000000]

/-- A significant change need not have the direction of its interval. A slow candidate that is drawn
again and again puts the whole interval above zero, while the median ratio is a half. And samples
that lie apart can differ in direction as well if the threshold is zero, or if a total is
rounded. -/
theorem directions_differ :
    (∃ c s', compare (samplesOf 100 [100]) (samplesOf 50 [50, 1000]) ⟨0.95, 5, 1⟩ highestFirst =
        .ok (.ok (c, s')) ∧ c.isSignificant = true ∧ 0 < c.intervalLower ∧ c.relativeChange < 0 ∧
      Report.changeLabel c = "📉 improvement") ∧
    (∃ c s', compare (samplesOf 100 [100]) (samplesOf 100 [100, 1000]) ⟨0.95, 0, 1⟩ highestFirst =
        .ok (.ok (c, s')) ∧ c.isSignificant = true ∧ 0 < c.intervalLower ∧
      ¬ 0 < c.relativeChange ∧ Report.changeLabel c = "📉 improvement") ∧
    (∃ c s', compare (samplesOf 3100000000000003 [3100000000000003])
        (samplesOf 3100000000000003 [6200000000000006, 6200000000000006]) ⟨0.95, 5, 1⟩ lowestFirst =
        .ok (.ok (c, s')) ∧ c.isSignificant = true ∧ c.intervalUpper < 0 ∧ 0 < c.relativeChange ∧
      Report.changeLabel c = "📈 REGRESSION") := by
  refine ⟨?_, ?_, ?_⟩
  · obtain ⟨c, s', hmeasure, hrun, hlower, -, hsignificant⟩ := run_of_constant (samplesOf 100 [100])
      (samplesOf 50 [50, 1000]) ⟨0.95, 5, 1⟩ highestFirst 900 (by decide +kernel)
      (by decide +kernel) (by decide +kernel) (by decide) (by decide) (by decide +kernel)
    have hrelative := relativeChange_of_pairs hmeasure (v := 50) (w := 100) (k := 2)
      (by decide +kernel)
    have hsig : c.isSignificant = true := by rw [hsignificant, hrelative]; decide +kernel
    exact ⟨c, s', hrun, hsig, by rw [hlower]; decide +kernel, by rw [hrelative]; decide +kernel,
      Report.changeLabel_eq_improvement.mpr ⟨hsig, by rw [hrelative]; decide +kernel⟩⟩
  · obtain ⟨c, s', hmeasure, hrun, hlower, -, hsignificant⟩ := run_of_constant (samplesOf 100 [100])
      (samplesOf 100 [100, 1000]) ⟨0.95, 0, 1⟩ highestFirst 900 (by decide +kernel)
      (by decide +kernel) (by decide +kernel) (by decide) (by decide) (by decide +kernel)
    have hrelative := relativeChange_of_pairs hmeasure (v := 100) (w := 100) (k := 2)
      (by decide +kernel)
    have hsig : c.isSignificant = true := by rw [hsignificant, hrelative]; decide +kernel
    have hslower : ¬ 0 < c.relativeChange := by rw [hrelative]; decide +kernel
    exact ⟨c, s', hrun, hsig, by rw [hlower]; decide +kernel, hslower,
      Report.changeLabel_eq_improvement.mpr ⟨hsig, hslower⟩⟩
  · obtain ⟨c, s', hmeasure, hrun, -, hupper, hsignificant⟩ := run_of_constant
      (samplesOf 3100000000000003 [3100000000000003])
      (samplesOf 3100000000000003 [6200000000000006, 6200000000000006]) ⟨0.95, 5, 1⟩ lowestFirst
      (-0.5) (by decide +kernel) (by decide +kernel) (by decide +kernel) (by decide) (by decide)
      (by decide +kernel)
    have hrelative := relativeChange_of_pairs hmeasure (v := 6200000000000006)
      (w := 3100000000000003) (k := 2) (by decide +kernel)
    have hsig : c.isSignificant = true := by rw [hsignificant, hrelative]; decide +kernel
    have hslower : 0 < c.relativeChange := by rw [hrelative]; decide +kernel
    exact ⟨c, s', hrun, hsig, by rw [hupper]; decide +kernel, hslower,
      Report.changeLabel_eq_regression.mpr ⟨hsig, hslower⟩⟩

end Comparison
end TimingStats
