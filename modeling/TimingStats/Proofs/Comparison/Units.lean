import TimingStats.Proofs.Comparison.Draws

/-! # The unit of time

A smaller unit multiplies all observations by a number. On the same source a comparison then draws
the same ranks, so it pairs what it paired before, in the smaller unit. The common number cancels
from every ratio, and a difference keeps its sign even where it is brought into range. So the
relative change and the share of slower samples do not depend on the unit. -/

namespace TimingStats

open TimingStats.Random

/-! ## Common factors -/

/-- A common positive factor cancels from a quotient, also from one by zero. -/
theorem exactQuotient_mul {k : ℤ} (hk : 0 < k) (factor l r : ℤ) :
    exactQuotient factor (l * k) (r * k) = exactQuotient factor l r := by
  have hzero : r * k = 0 ↔ r = 0 := Int.mul_eq_zero.trans (or_iff_left hk.ne')
  have hscaled : l * k * factor = l * factor * k := by ring
  have hquotient : ((l * factor * k : ℤ) : ℚ) / (r * k : ℤ) = (l * factor : ℤ) / r := by
    rw [Int.cast_mul _ k, Int.cast_mul _ k]
    exact mul_div_mul_right _ _ (Int.cast_ne_zero.mpr hk.ne')
  have hneg : l * factor * k < 0 ↔ l * factor < 0 :=
    ⟨fun h => neg_of_mul_neg_left h hk.le, fun h => mul_neg_of_neg_of_pos h hk⟩
  unfold exactQuotient
  rw [hscaled, hquotient]
  simp only [hzero, mul_pos_iff_of_pos_right hk, hneg]

section Factor

variable {k : Int64} (hk : 0 < k) {l r : Int64} (hl : ¬ Overflows l k) (hr : ¬ Overflows r k)
include hk hl hr

theorem scaledQuotient_mul (factor : Int64) :
    scaledQuotient (l * k) factor (r * k) = scaledQuotient l factor r := by
  refine Int64.toInt_inj.mp ?_
  rw [toInt_scaledQuotient, toInt_scaledQuotient, toInt_mul_of_fits hl, toInt_mul_of_fits hr]
  exact exactQuotient_mul (toInt_pos hk) _ _ _

/-- Products with a positive number are in the order of what is multiplied. -/
theorem mul_le_mul_iff_of_fits : l * k ≤ r * k ↔ l ≤ r := by
  rw [Int64.le_iff_toInt_le, Int64.le_iff_toInt_le, toInt_mul_of_fits hl, toInt_mul_of_fits hr]
  exact mul_le_mul_iff_of_pos_right (toInt_pos hk)

end Factor

/-! ## Draws -/

section Draws

variable {σ : Type} [RankSource σ]

theorem drawRanks_congr {m n : ℕ} (h : m = n) (hm : 0 < m) (hn : 0 < n) (j : ℕ) (s : σ) :
    drawRanks m hm j s =
      ((drawRanks n hn j s).1.map (Fin.cast h.symm), (drawRanks n hn j s).2) := by
  subst h
  exact Prod.ext (List.map_id _).symm rfl

namespace Distribution

/-- Each observation of one distribution is that of another in a unit that goes into the unit of the
other some number of times. -/
structure InUnit (e d : Distribution) (k : Int64) : Prop where
  pos : 0 < k
  fit : d.Scalable k
  observations : e.histogram.observations = d.histogram.observations.map (· * k)

theorem inUnit_of_scale {b : Builder} {d e : Distribution} {k : Int64} (hk : 0 < k)
    (h : b.scale k d = .ok e) : e.InUnit d k := by
  refine ⟨hk, (Builder.scalable_of_scale h).2, ?_⟩
  rw [Builder.observations_of_scale h, products, if_neg (Int64.not_lt.mpr (Int64.le_of_lt hk))]

section Unit

variable {d e left right left' right' : Distribution} {k : Int64}

theorem InUnit.size (h : e.InUnit d k) : e.size = d.size := by
  rw [← e.length_observations, h.observations, List.length_map, d.length_observations]

theorem InUnit.observationAt (h : e.InUnit d k) (r : Fin d.size) :
    e.observationAt (r.cast h.size.symm) = d.observationAt r * k :=
  (List.getElem_of_eq h.observations _).trans (List.getElem_map _)

/-- The same ranks are drawn in either unit. -/
theorem InUnit.drawn (h : e.InUnit d k) (m : ℕ) (s : σ) :
    e.drawn m s = ((d.drawn m s).1.map (· * k), (d.drawn m s).2) := by
  unfold Distribution.drawn
  rw [drawRanks_congr h.size e.size_pos d.size_pos, List.map_map, List.map_map]
  exact Prod.ext (List.map_congr_left fun r _ => h.observationAt r) rfl

theorem InUnit.resampledPairs (hl : left'.InUnit left k) (hr : right'.InUnit right k) (s : σ) :
    resampledPairs left' right' s =
      ((resampledPairs left right s).1.map (Prod.map (· * k) (· * k)),
        (resampledPairs left right s).2) := by
  unfold Distribution.resampledPairs
  rw [hl.size, hr.size, hl.drawn, hr.drawn, hl.observations, hr.observations]
  split
  · rw [List.zip_map]
  · rw [List.zip_map]

end Unit
end Distribution

namespace Comparison

variable {baseline candidate baseline' candidate' : Distribution} {config : ComparisonConfig}
  {k : Int64}

/-! ## Pairs -/

/-- The pairs that a comparison takes the differences of, and the state that is left: what is
resampled after the replicates. -/
def differencePairs (baseline candidate : Distribution) (iterations : ℕ) (s : σ) :
    List (Int64 × Int64) × σ :=
  Distribution.resampledPairs candidate baseline (replicates baseline candidate iterations [] s).2

/-- The share of the pairs whose left sample is the greater one, worked out from the others. -/
def slowerShare (pairs : List (Int64 × Int64)) : Float :=
  1 - Float.ofNat (pairs.countP fun p => decide (p.1 ≤ p.2)) / Float.ofNat pairs.length

/-- The differences that are not above zero are those of the pairs whose left sample is not the
greater one. -/
theorem countAtMost_zero_of_differences {difference : Distribution} {pairs : List (Int64 × Int64)}
    (h : difference.histogram.observations.Perm (pairs.map fun p => saturatingSub p.1 p.2)) :
    difference.countAtMost 0 = pairs.countP fun p => decide (p.1 ≤ p.2) := by
  rw [difference.countAtMost_eq, h.countP_eq, List.countP_map]
  -- a difference has the sign of the exact one, also at an end of the range
  refine List.countP_congr fun p _ => ?_
  rw [Function.comp_apply, decide_eq_true_eq, decide_eq_true_eq, ← Int64.not_lt, ← Int64.not_lt,
    saturatingSub_pos_iff]

/-- What is drawn for a comparison, what its figures are of these draws, and what is left. -/
theorem measure_draws (baseline candidate : Distribution) (hn : 0 < config.bootstrapIterations)
    (hlt : config.bootstrapIterations < iterationLimit) (s : σ) :
    let differences := differencePairs baseline candidate config.bootstrapIterations s
    let ratios := Distribution.resampledPairs candidate baseline differences.2
    ∃ (c : Comparison) (ratio : Distribution),
      measure baseline candidate config hn s = .ok (c, ratios.2) ∧
      c.probabilitySlowerSample = slowerShare differences.1 ∧
      c.relativeChange = relativeOf (ratio.percentile 50) ∧
      ratio.histogram.observations.Perm
        (ratios.1.map fun p => scaledQuotient p.1 ratioScale p.2) := by
  intro differences ratios
  obtain ⟨shifts, s₁, hshifts⟩ := bootstrap_ok hlt hn baseline candidate s
  obtain ⟨-, -, rfl⟩ := shifts_of_bootstrap hshifts
  obtain ⟨difference, hdifference, hdperm⟩ := Builder.resample_pairs Builder.isEmpty_new candidate
    baseline saturatingSub (replicates baseline candidate config.bootstrapIterations [] s).2
  obtain ⟨ratio, hratio, hrperm⟩ := Builder.resample_pairs difference.isEmpty_reset candidate
    baseline (scaledQuotient · ratioScale ·) differences.2
  obtain ⟨c, hok, hrelative, hslower⟩ := measure_of_parts hshifts hdifference hratio
  have hsize : difference.size = differences.1.length := by
    rw [← difference.length_observations, hdperm.length_eq, List.length_map]
    rfl
  rw [countAtMost_zero_of_differences hdperm, hsize] at hslower
  exact ⟨c, ratio, hok, hslower, hrelative, hrperm⟩

/-! ## Two units -/

section Unit

variable (hb : baseline'.InUnit baseline k) (hc : candidate'.InUnit candidate k)
include hb hc

theorem replicates_state (n : ℕ) (found found' : List Float) (s : σ) :
    (replicates baseline' candidate' n found' s).2 =
      (replicates baseline candidate n found s).2 := by
  have hmean : ∀ {e d : Distribution}, e.InUnit d k → ∀ s : σ,
      (resampledMean e s).2 = (resampledMean d s).2 := fun {e d} h s => by
    unfold resampledMean
    rw [drawnTotal_eq, drawnTotal_eq, h.size, h.drawn]
  induction n generalizing found found' s with
  | zero => rfl
  | succ n ih =>
    have hstate : (resampledMean baseline' (resampledMean candidate' s).2).2 =
        (resampledMean baseline (resampledMean candidate s).2).2 := by
      rw [hmean hc, hmean hb]
    rw [replicates, replicates]
    dsimp only
    rw [hstate]
    exact ih _ _ _

/-- The same pairs have their differences taken in either unit. -/
theorem differencePairs_inUnit (n : ℕ) (s : σ) :
    differencePairs baseline' candidate' n s =
      ((differencePairs baseline candidate n s).1.map (Prod.map (· * k) (· * k)),
        (differencePairs baseline candidate n s).2) := by
  unfold differencePairs
  rw [replicates_state hb hc n [] [], hc.resampledPairs hb]

theorem slowerShare_inUnit (s : σ) :
    slowerShare ((Distribution.resampledPairs candidate baseline s).1.map
        (Prod.map (· * k) (· * k))) =
      slowerShare (Distribution.resampledPairs candidate baseline s).1 := by
  have hcount : (Distribution.resampledPairs candidate baseline s).1.countP
        ((fun p : Int64 × Int64 => decide (p.1 ≤ p.2)) ∘ Prod.map (· * k) (· * k)) =
      (Distribution.resampledPairs candidate baseline s).1.countP
        fun p => decide (p.1 ≤ p.2) := by
    refine List.countP_congr fun p hp => ?_
    obtain ⟨hl, hr⟩ := Distribution.mem_of_mem_resampledPairs hp
    rw [Function.comp_apply, decide_eq_true_eq, decide_eq_true_eq]
    exact mul_le_mul_iff_of_fits hc.pos (hc.fit _ hl) (hb.fit _ hr)
  unfold slowerShare
  rw [List.countP_map, hcount, List.length_map]

theorem quotients_inUnit (s : σ) :
    ((Distribution.resampledPairs candidate baseline s).1.map
        (Prod.map (· * k) (· * k))).map (fun p => scaledQuotient p.1 ratioScale p.2) =
      (Distribution.resampledPairs candidate baseline s).1.map
        fun p => scaledQuotient p.1 ratioScale p.2 := by
  rw [List.map_map]
  refine List.map_congr_left fun p hp => ?_
  obtain ⟨hl, hr⟩ := Distribution.mem_of_mem_resampledPairs hp
  exact scaledQuotient_mul hc.pos (hc.fit _ hl) (hb.fit _ hr) ratioScale

/-- Comparisons in either unit are made together, and agree in what is relative. -/
theorem measure_inUnit (hn : 0 < config.bootstrapIterations)
    (hlt : config.bootstrapIterations < iterationLimit) (s : σ) :
    ∃ c c' s', measure baseline candidate config hn s = .ok (c, s') ∧
      measure baseline' candidate' config hn s = .ok (c', s') ∧
      c'.relativeChange = c.relativeChange ∧
      c'.probabilitySlowerSample = c.probabilitySlowerSample := by
  obtain ⟨c, ratio, hok, hslower, hrelative, hperm⟩ :=
    measure_draws baseline candidate hn hlt s
  obtain ⟨c', ratio', hok', hslower', hrelative', hperm'⟩ :=
    measure_draws baseline' candidate' hn hlt s
  rw [differencePairs_inUnit hb hc, hc.resampledPairs hb] at hok' hperm'
  rw [differencePairs_inUnit hb hc, differencePairs, slowerShare_inUnit hb hc] at hslower'
  rw [quotients_inUnit hb hc] at hperm'
  have halike : ratio'.Alike ratio := Distribution.alike_of_perm (hperm'.trans hperm.symm)
  refine ⟨c, c', _, hok, hok', ?_, ?_⟩
  · rw [hrelative', hrelative, halike.percentile]
  · rw [hslower', hslower, differencePairs]

end Unit

/-- **The unit of time does not matter to what is relative.** Where all observations of both sides
can be multiplied by a positive number, comparing the products comes to the same on every source:
the relative change and the share of slower samples are the same doubles, and the source is left in
the same state. Neither comparison is made where the replicates cannot be addressed. -/
theorem compare_scaled (config : ComparisonConfig) (hk : 0 < k) (hbaseline : 2 ≤ baseline.size)
    (hcandidate : 2 ≤ candidate.size) (h0 : 0 < config.confidenceLevel)
    (h1 : config.confidenceLevel < 1) (hn : 1 ≤ config.bootstrapIterations)
    (hbfit : baseline.Scalable k) (hcfit : candidate.Scalable k) {b₁ b₂ : Builder}
    (h₁ : b₁.isEmpty = true) (h₂ : b₂.isEmpty = true) (s : σ) :
    ∃ baseline' candidate',
      b₁.scale k baseline = .ok baseline' ∧ b₂.scale k candidate = .ok candidate' ∧
      (config.bootstrapIterations < 2 ^ 60 → ∃ c c' s',
        compare baseline candidate config s = .ok (.ok (c, s')) ∧
        compare baseline' candidate' config s = .ok (.ok (c', s')) ∧
        c'.relativeChange = c.relativeChange ∧
        c'.probabilitySlowerSample = c.probabilitySlowerSample) ∧
      (2 ^ 60 ≤ config.bootstrapIterations →
        compare baseline candidate config s = .error .allocationTooLarge ∧
        compare baseline' candidate' config s = .error .allocationTooLarge) := by
  obtain ⟨_, _, hbaseline', -⟩ := Builder.scale_ok h₁ hbfit
  obtain ⟨_, _, hcandidate', -⟩ := Builder.scale_ok h₂ hcfit
  have hb := Distribution.inUnit_of_scale hk hbaseline'
  have hc := Distribution.inUnit_of_scale hk hcandidate'
  have haccept := refusal_eq_none hbaseline hcandidate h0 h1 hn
  have haccept' := refusal_eq_none (hb.size ▸ hbaseline) (hc.size ▸ hcandidate) h0 h1 hn
  refine ⟨_, _, hbaseline', hcandidate', fun hlt => ?_, fun hle => ?_⟩
  · obtain ⟨c, c', s', hok, hok', hrelative, hslower⟩ := measure_inUnit hb hc hn hlt s
    exact ⟨c, c', s', compare_of_measure haccept hok, compare_of_measure haccept' hok', hrelative,
      hslower⟩
  · exact ⟨compare_faults haccept hle s, compare_faults haccept' hle s⟩

/-- Milliseconds are compared as microseconds, with samples on both sides of zero. -/
theorem compare_scaled_thousandfold :
    ∃ baseline candidate c c' s',
      Builder.secondHand.scale 1000 Builder.aroundZero = .ok baseline ∧
      Builder.new.scale 1000 oneAndTwo = .ok candidate ∧
      compare Builder.aroundZero oneAndTwo {} (WordStream.ofSeed 42) = .ok (.ok (c, s')) ∧
      compare baseline candidate {} (WordStream.ofSeed 42) = .ok (.ok (c', s')) ∧
      c'.relativeChange = c.relativeChange ∧
      c'.probabilitySlowerSample = c.probabilitySlowerSample := by
  have hsizes : 2 ≤ Builder.aroundZero.size ∧ 2 ≤ oneAndTwo.size := by decide +kernel
  have hlevel : (0 : Float) < 0.95 ∧ (0.95 : Float) < 1 := by decide +kernel
  have hbaseline : Builder.aroundZero.Scalable 1000 := by
    have hobs : Builder.aroundZero.histogram.observations = [-10, -10, 20, 30] := by
      decide +kernel
    simp [Distribution.Scalable, hobs, Overflows]
  have hcandidate : oneAndTwo.Scalable 1000 := by
    have hobs : oneAndTwo.histogram.observations = [1, 2] := by decide +kernel
    simp [Distribution.Scalable, hobs, Overflows]
  have hempty : Builder.secondHand.isEmpty = true := rfl
  obtain ⟨baseline, candidate, hb, hc, hmade, -⟩ := compare_scaled {} (by decide) hsizes.1
    hsizes.2 hlevel.1 hlevel.2 (by decide) hbaseline hcandidate hempty Builder.isEmpty_new
    (WordStream.ofSeed 42)
  obtain ⟨c, c', s', hok, hok', hrelative, hslower⟩ := hmade (by norm_num)
  exact ⟨baseline, candidate, c, c', s', hb, hc, hok, hok', hrelative, hslower⟩

end Comparison

end Draws
end TimingStats
