import TimingStats.Proofs.Comparison.Interval
import TimingStats.Proofs.Comparison.RelativeChange
import TimingStats.Proofs.Distribution.Scaling

/-! # Draws of a comparison

The ranks that are drawn are counted by a source that passes them on. Their number is a matter of
sizes alone: every replicate takes as many as both sides have observations, and the differences and
the ratios each as many as the shorter side has. A comparison that is refused draws none. Ratios are
worked out in the buffer of the differences, which leaves no trace in them. -/

namespace TimingStats

open TimingStats.Random

/-! ## Counting -/

namespace Random

/-- A source that counts the ranks which are drawn from another. -/
structure Counting (σ : Type) where
  source : σ
  drawn : ℕ

instance {σ : Type} [RankSource σ] : RankSource (Counting σ) where
  draw n h s := ((RankSource.draw n h s.source).1,
    ⟨(RankSource.draw n h s.source).2, s.drawn + 1⟩)

/-- What comes from a source, with a count beside what is left of it. -/
def counted {α σ : Type} (r : α × σ) (drawn : ℕ) : α × Counting σ := (r.1, ⟨r.2, drawn⟩)

end Random

section Counted

variable {σ : Type} [RankSource σ] {baseline candidate : Distribution} {config : ComparisonConfig}

theorem Distribution.choose_counting (d : Distribution) (s : σ) (k : ℕ) :
    d.choose (Counting.mk s k) = counted (d.choose s) (k + 1) := rfl

namespace Builder

theorem insertPaired_counting (d : Distribution) (combine : Int64 → Int64 → Int64) (b : Builder)
    (vs : List Int64) (s : σ) (k : ℕ) :
    insertPaired d combine b vs (Counting.mk s k) =
      counted (insertPaired d combine b vs s) (k + vs.length) := by
  induction vs generalizing b s k with
  | nil => rfl
  | cons v vs ih =>
    rw [insertPaired, d.choose_counting, List.length_cons, Nat.add_comm vs.length, ← Nat.add_assoc]
    exact ih _ _ _

/-- Resampling draws once for each observation of the shorter side. -/
theorem resample_counting (b : Builder) (left right : Distribution)
    (combine : Int64 → Int64 → Int64) (s : σ) (k : ℕ) :
    b.resample left right combine (Counting.mk s k) =
      (fun r => counted r (k + min left.size right.size)) <$>
        b.resample left right combine s := by
  unfold resample
  split
  · rfl
  split
  · rename_i hle
    simp only [insertPaired_counting, left.length_observations, min_eq_left hle]
    rfl
  · rename_i hgt
    simp only [insertPaired_counting, right.length_observations, min_eq_right (not_le.mp hgt).le]
    rfl

end Builder

namespace Comparison

theorem drawnTotal_counting (d : Distribution) (n : ℕ) (total : ℤ) (s : σ) (k : ℕ) :
    drawnTotal d n total (Counting.mk s k) = counted (drawnTotal d n total s) (k + n) := by
  induction n generalizing total s k with
  | zero => rfl
  | succ n ih =>
    have hsum : k + (n + 1) = k + 1 + n := by omega
    rw [hsum, drawnTotal, d.choose_counting]
    exact ih _ _ _

theorem resampledMean_counting (d : Distribution) (s : σ) (k : ℕ) :
    resampledMean d (Counting.mk s k) = counted (resampledMean d s) (k + d.size) := by
  unfold resampledMean
  rw [drawnTotal_counting]
  rfl

/-- Each replicate takes as many draws as both sides have observations. -/
theorem replicates_counting (baseline candidate : Distribution) (n : ℕ) (found : List Float)
    (s : σ) (k : ℕ) : replicates baseline candidate n found (Counting.mk s k) =
      counted (replicates baseline candidate n found s)
        (k + n * (candidate.size + baseline.size)) := by
  induction n generalizing found s k with
  | zero =>
    rw [Nat.zero_mul]
    rfl
  | succ n ih =>
    have hsum : k + (n + 1) * (candidate.size + baseline.size) =
        k + candidate.size + baseline.size + n * (candidate.size + baseline.size) := by ring
    rw [hsum, replicates]
    simp only [resampledMean_counting, counted]
    exact ih _ _ _

theorem bootstrap_counting (baseline candidate : Distribution) (iterations : ℕ)
    (h : 0 < iterations) (s : σ) (k : ℕ) :
    bootstrap baseline candidate iterations h (Counting.mk s k) =
      (fun r => counted r (k + iterations * (candidate.size + baseline.size))) <$>
        bootstrap baseline candidate iterations h s := by
  unfold bootstrap
  split
  · rfl
  · simp only [replicates_counting]
    rfl

def rankDraws (baseline candidate : Distribution) (iterations : ℕ) : ℕ :=
  iterations * (candidate.size + baseline.size) + 2 * min candidate.size baseline.size

theorem measure_counting (hn : 0 < config.bootstrapIterations) (s : σ) (k : ℕ) :
    measure baseline candidate config hn (Counting.mk s k) =
      (fun r => counted r (k + rankDraws baseline candidate config.bootstrapIterations)) <$>
        measure baseline candidate config hn s := by
  have hsum : k + rankDraws baseline candidate config.bootstrapIterations =
      k + config.bootstrapIterations * (candidate.size + baseline.size) +
        min candidate.size baseline.size + min candidate.size baseline.size := by
    unfold rankDraws
    ring
  unfold measure Builder.subtract Builder.scaledDiv
  rw [hsum, bootstrap_counting]
  -- the count goes through each step that draws, whatever the step gives
  simp only [map_bind, bind_map_left, map_pure]
  refine bind_congr fun b => bind_congr fun c => bind_congr fun shifts => ?_
  simp only [counted, Builder.resample_counting, bind_map_left]

end Comparison

end Counted

/-! ## Recycled buffers -/

namespace Distribution

variable {d e : Distribution}

/-- Two distributions that nothing tells apart but what is left over in their buffers. -/
structure Alike (d e : Distribution) : Prop where
  bins : d.bins = e.bins
  size : d.size = e.size
  endRanks : d.endRanks = e.endRanks
  valueAtRank : ∀ r, d.valueAtRank r = e.valueAtRank r
  countAtMost : ∀ v, d.countAtMost v = e.countAtMost v
  percentile : ∀ p, d.percentile p = e.percentile p

theorem valueAtRank_percentile (d : Distribution) (p : Float) :
    d.valueAtRank (Percentile.rankIndex p d.size) = .ok (d.percentile p) :=
  d.valueAtRank_of_lt ⟨_, Percentile.rankIndex_lt p d.size_pos⟩

/-- What a distribution answers depends on its observations alone, in whatever order. -/
theorem alike_of_perm (h : d.histogram.observations.Perm e.histogram.observations) :
    d.Alike e := by
  have hhistogram : d.histogram = e.histogram := Histogram.eq_of_perm h
  have hbins : d.bins = e.bins := congrArg Histogram.bins hhistogram
  have hsize : d.size = e.size := by rw [d.size_eq, e.size_eq, hhistogram]
  have hrank : ∀ r, d.valueAtRank r = e.valueAtRank r := fun r => by
    by_cases hr : r < d.size
    · have hlen : r < d.histogram.observations.length := d.length_observations.symm ▸ hr
      obtain ⟨v, hv⟩ : ∃ v, d.histogram.observations[r]? = some v :=
        ⟨_, List.getElem?_eq_getElem hlen⟩
      rw [d.valueAtRank_eq hv, e.valueAtRank_eq (hhistogram ▸ hv)]
    · rw [(d.valueAtRank_faults_iff r _).mpr ⟨not_lt.mp hr, rfl⟩,
        (e.valueAtRank_faults_iff r _).mpr ⟨hsize ▸ not_lt.mp hr, rfl⟩]
  refine ⟨hbins, hsize, endRanks_congr hbins, hrank, fun v => ?_, fun p => ?_⟩
  · rw [d.countAtMost_eq, e.countAtMost_eq, hhistogram]
  · have hd := d.valueAtRank_percentile p
    rw [hrank, hsize, e.valueAtRank_percentile] at hd
    exact (Except.ok.inj hd).symm

end Distribution

theorem Builder.resample_alike {σ : Type} [RankSource σ] {b b' : Builder}
    (h : b.isEmpty = true) (h' : b'.isEmpty = true) {left right d : Distribution}
    {combine : Int64 → Int64 → Int64} {s s' : σ}
    (hok : b.resample left right combine s = .ok (d, s')) :
    ∃ e, b'.resample left right combine s = .ok (e, s') ∧ e.Alike d := by
  obtain ⟨d', hd, hperm⟩ := resample_pairs h left right combine s
  obtain ⟨e, he, hperm'⟩ := resample_pairs h' left right combine s
  obtain ⟨rfl, rfl⟩ := Prod.mk.inj (Except.ok.inj (hok.symm.trans hd))
  exact ⟨e, he, Distribution.alike_of_perm (hperm'.trans hperm.symm)⟩

/-! ## Refusals -/

namespace Comparison

open Binary64

/-- A level is a number strictly between zero and one. -/
def ValidLevel (level : Float) : Prop :=
  isFinite level = true ∧ 0 < toRat level ∧ toRat level < 1

theorem validLevel_iff (level : Float) : ValidLevel level ↔ 0 < level ∧ level < 1 := by
  have hbounds : isFinite level = true →
      (0 < level ∧ level < 1 ↔ 0 < toRat level ∧ toRat level < 1) := fun hf => by
    rw [lt_iff zero_value.1 hf, lt_iff hf one_value.1, zero_value.2, one_value.2]
  constructor
  · rintro ⟨hf, hvalue⟩
    exact (hbounds hf).mpr hvalue
  · intro hlevel
    have hf := isFinite_of_between zero_value.1 one_value.1 (Binary64.le_of_lt hlevel.1)
      (Binary64.le_of_lt hlevel.2)
    exact ⟨hf, (hbounds hf).mp hlevel⟩

/-- Why a comparison is refused: the first of four requirements that is not met. -/
inductive Refused (baseline candidate : Distribution) (config : ComparisonConfig) :
    ComparisonError → Prop where
  | baseline (h : baseline.size < 2) :
    Refused baseline candidate config (.insufficientBaseline baseline.size)
  | candidate (hbaseline : 2 ≤ baseline.size) (h : candidate.size < 2) :
    Refused baseline candidate config (.insufficientCandidate candidate.size)
  | level (hbaseline : 2 ≤ baseline.size) (hcandidate : 2 ≤ candidate.size)
      (h : ¬ ValidLevel config.confidenceLevel) :
    Refused baseline candidate config (.invalidConfidenceLevel config.confidenceLevel)
  | iterations (hbaseline : 2 ≤ baseline.size) (hcandidate : 2 ≤ candidate.size)
      (hlevel : ValidLevel config.confidenceLevel) (h : config.bootstrapIterations = 0) :
    Refused baseline candidate config .noBootstrapIterations

variable {baseline candidate : Distribution} {config : ComparisonConfig}

theorem refusal_eq_some_iff (e : ComparisonError) :
    refusal baseline candidate config = some e ↔ Refused baseline candidate config e := by
  constructor
  · intro h
    by_cases hb : baseline.size < 2
    · rw [refusal, if_pos hb, Option.some_inj] at h
      exact h ▸ .baseline hb
    by_cases hc : candidate.size < 2
    · rw [refusal, if_neg hb, if_pos hc, Option.some_inj] at h
      exact h ▸ .candidate (not_lt.mp hb) hc
    rw [refusal_eq (not_lt.mp hb) (not_lt.mp hc)] at h
    by_cases hlevel : ValidLevel config.confidenceLevel
    · rw [if_neg (not_not_intro ((validLevel_iff _).mp hlevel))] at h
      obtain ⟨hn, he⟩ := (Option.ite_none_right_eq_some).mp h
      exact Option.some_inj.mp he ▸ .iterations (not_lt.mp hb) (not_lt.mp hc) hlevel hn
    · rw [if_pos (mt (validLevel_iff _).mpr hlevel), Option.some_inj] at h
      exact h ▸ .level (not_lt.mp hb) (not_lt.mp hc) hlevel
  · rintro (h | ⟨hb, h⟩ | ⟨hb, hc, h⟩ | ⟨hb, hc, hlevel, h⟩)
    · exact if_pos h
    · exact (if_neg (not_lt.mpr hb)).trans (if_pos h)
    · rw [refusal_eq hb hc, if_pos (mt (validLevel_iff _).mpr h)]
    · rw [refusal_eq hb hc, if_neg (not_not_intro ((validLevel_iff _).mp hlevel)), if_pos h]

theorem refusal_eq_none_iff :
    refusal baseline candidate config = none ↔ ∀ e, ¬ Refused baseline candidate config e := by
  simp only [← refusal_eq_some_iff, Option.eq_none_iff_forall_ne_some, ne_eq]

/-! ## Outcomes -/

variable {σ : Type} [RankSource σ]

/-- What is seen of a comparison that is made, and of the source that it leaves. -/
structure Made (baseline candidate : Distribution) (config : ComparisonConfig) (s : σ)
    (c : Comparison) (s' : σ) : Prop where
  /-- A source that counts passes on the same ranks and counts as many as sizes tell. -/
  draws : ∀ k, attempt baseline candidate config (Counting.mk s k) =
    .ok (.ok c, ⟨s', k + rankDraws baseline candidate config.bootstrapIterations⟩)
  /-- The ratios that the buffer of the differences is used for are those of any empty builder. -/
  ratios : ∃ difference t ratio,
    Builder.new.subtract candidate baseline
      (replicates baseline candidate config.bootstrapIterations [] s).2 = .ok (difference, t) ∧
    difference.reset.scaledDiv candidate ratioScale baseline t = .ok (ratio, s') ∧
    c.relativeChange = relativeOf (ratio.percentile 50) ∧
    ∀ b : Builder, b.isEmpty = true → ∃ fresh,
      b.scaledDiv candidate ratioScale baseline t = .ok (fresh, s') ∧ fresh.Alike ratio

theorem made_of_measure {hn : 0 < config.bootstrapIterations} {s s' : σ} {c : Comparison}
    (haccept : refusal baseline candidate config = none)
    (h : measure baseline candidate config hn s = .ok (c, s')) :
    Made baseline candidate config s c s' := by
  refine ⟨fun k => ?_, ?_⟩
  · rw [attempt_of_no_refusal haccept, measure_counting, h]
    rfl
  · obtain ⟨_, _, difference, s₂, ratio, hshifts, hdifference, hratio, -, -, -, hrelative, -⟩ :=
      measure_cases h
    obtain ⟨-, -, rfl⟩ := shifts_of_bootstrap hshifts
    exact ⟨difference, s₂, ratio, hdifference, hratio, hrelative, fun b hb =>
      Builder.resample_alike difference.isEmpty_reset hb hratio⟩

theorem attempt_faults (haccept : refusal baseline candidate config = none)
    (hle : iterationLimit ≤ config.bootstrapIterations) (s : σ) :
    attempt baseline candidate config s = .error .allocationTooLarge := by
  rw [attempt_of_no_refusal haccept, measure_faults _ hle]
  rfl

theorem attempt_makes (haccept : refusal baseline candidate config = none)
    (hlt : config.bootstrapIterations < iterationLimit) (s : σ) :
    ∃ c s', attempt baseline candidate config s = .ok (.ok c, s') ∧
      Made baseline candidate config s c s' := by
  obtain ⟨c, s', h⟩ := measure_ok (iterations_pos_of_refusal haccept) hlt s
  refine ⟨c, s', ?_, made_of_measure haccept h⟩
  rw [attempt_of_no_refusal haccept, h]
  rfl

/-- **Sizes and parameters alone decide what comes of a comparison.** It is refused for the first of
four requirements that is not met, before anything is drawn. Else it is made, unless there are too
many replicates to be addressed; what is drawn does not matter. The integers that are worked out
for it fit their words as long as the observations can be counted. -/
theorem attempt_exact (baseline candidate : Distribution) (config : ComparisonConfig) (s : σ) :
    (∀ e t, attempt baseline candidate config s = .ok (.error e, t) ↔
      Refused baseline candidate config e ∧ t = s) ∧
    (∀ f, attempt baseline candidate config s = .error f ↔
      (∀ e, ¬ Refused baseline candidate config e) ∧ 2 ^ 60 ≤ config.bootstrapIterations ∧
        f = .allocationTooLarge) ∧
    ((∃ c t, attempt baseline candidate config s = .ok (.ok c, t)) ↔
      (∀ e, ¬ Refused baseline candidate config e) ∧ config.bootstrapIterations < 2 ^ 60) ∧
    (∀ c t, attempt baseline candidate config s = .ok (.ok c, t) →
      Made baseline candidate config s c t) ∧
    (baseline.size < UInt64.size → candidate.size < UInt64.size →
      baseline.Fits ∧ candidate.Fits ∧ ResamplesFit baseline candidate ∧
        ∀ v : Int64, (v.toInt * ratioScale.toInt).natAbs < 2 ^ 127) := by
  have hfits (hb : baseline.size < UInt64.size) (hc : candidate.size < UInt64.size) :
      baseline.Fits ∧ candidate.Fits ∧ ResamplesFit baseline candidate ∧
        ∀ v : Int64, (v.toInt * ratioScale.toInt).natAbs < 2 ^ 127 :=
    ⟨Distribution.fits_of_size hb, Distribution.fits_of_size hc, resamplesFit_of_size hb candidate,
      fun v => natAbs_product_lt v ratioScale⟩
  -- the outcome is one of three, each of which excludes the others
  cases hrefusal : refusal baseline candidate config with
  | some e =>
    have hrefused := (refusal_eq_some_iff e).mp hrefusal
    have hnot : ¬ ∀ e, ¬ Refused baseline candidate config e := fun hall => hall e hrefused
    rw [attempt_of_refusal hrefusal]
    refine ⟨fun e' t => ?_, fun f => ?_, ?_, fun c t h => (nomatch h), hfits⟩
    · rw [← refusal_eq_some_iff, hrefusal, Except.ok.injEq, Prod.mk.injEq, Except.error.injEq,
        Option.some_inj, eq_comm (a := s)]
    · exact iff_of_false (fun h => nomatch h) fun h => hnot h.1
    · exact iff_of_false (fun ⟨_, _, h⟩ => nomatch h) fun h => hnot h.1
  | none =>
    have hall := refusal_eq_none_iff.mp hrefusal
    rcases Nat.lt_or_ge config.bootstrapIterations iterationLimit with hlt | hle
    · obtain ⟨c, s', hok, hmade⟩ := attempt_makes hrefusal hlt s
      rw [hok]
      refine ⟨fun e t => ?_, fun f => ?_, ?_, fun c' t h => ?_, hfits⟩
      · exact iff_of_false (fun h => nomatch h) fun h => hall e h.1
      · exact iff_of_false (fun h => nomatch h) fun h => Nat.not_lt.mpr h.2.1 hlt
      · exact iff_of_true ⟨c, s', rfl⟩ ⟨hall, hlt⟩
      · cases h
        exact hmade
    · rw [attempt_faults hrefusal hle]
      refine ⟨fun e t => ?_, fun f => ?_, ?_, fun c t h => (nomatch h), hfits⟩
      · exact iff_of_false (fun h => nomatch h) fun h => hall e h.1
      · rw [Except.error.injEq, eq_comm]
        exact ⟨fun h => ⟨hall, hle, h⟩, fun h => h.2.2⟩
      · exact iff_of_false (fun ⟨_, _, h⟩ => nomatch h) fun h => Nat.not_lt.mpr hle h.2

/-- With a thousand replicates of two and two observations, four thousand and four ranks are drawn.
A level that is no number is refused before the number of replicates, and none is drawn. -/
theorem attempt_exact_default :
    (∃ c t, attempt twoOnes oneAndTwo {} (Counting.mk (WordStream.ofSeed 42) 0) =
      .ok (.ok c, ⟨t, 4004⟩)) ∧
    attempt twoOnes oneAndTwo ⟨0 / 0, 5, 0⟩ (Counting.mk (WordStream.ofSeed 42) 0) =
      .ok (.error (.invalidConfidenceLevel (0 / 0)), ⟨WordStream.ofSeed 42, 0⟩) := by
  have hsizes : 2 ≤ twoOnes.size ∧ 2 ≤ oneAndTwo.size := by decide +kernel
  have hlevel : (0 : Float) < 0.95 ∧ (0.95 : Float) < 1 := by decide +kernel
  have hdraws : 0 + rankDraws twoOnes oneAndTwo 1000 = 4004 := by decide +kernel
  have haccept : refusal twoOnes oneAndTwo {} = none :=
    refusal_eq_none hsizes.1 hsizes.2 hlevel.1 hlevel.2 (by norm_num)
  obtain ⟨-, -, hmakes, hmade, -⟩ :=
    attempt_exact twoOnes oneAndTwo {} (WordStream.ofSeed 42)
  obtain ⟨hrefused, -, -, -, -⟩ :=
    attempt_exact twoOnes oneAndTwo ⟨0 / 0, 5, 0⟩ (Counting.mk (WordStream.ofSeed 42) 0)
  obtain ⟨c, t, hok⟩ := hmakes.mpr ⟨refusal_eq_none_iff.mp haccept, by norm_num⟩
  refine ⟨⟨c, t, ?_⟩, (hrefused _ _).mpr ⟨.level hsizes.1 hsizes.2 ?_, rfl⟩⟩
  · rw [(hmade c t hok).draws 0, hdraws]
  · exact fun h => absurd h.1 (by decide +kernel)

/-- Nothing is wrong with this comparison, but that its replicates cannot be addressed. -/
theorem attempt_unaddressable :
    (∀ e, ¬ Refused twoOnes twoOnes ⟨0.95, 5, 2 ^ 60⟩ e) ∧
    attempt twoOnes twoOnes ⟨0.95, 5, 2 ^ 60⟩ (WordStream.ofList []) = .error .allocationTooLarge ∧
    compare twoOnes twoOnes ⟨0.95, 5, 2 ^ 60⟩ (WordStream.ofList []) =
      .error .allocationTooLarge := by
  have hlevel : (0 : Float) < 0.95 ∧ (0.95 : Float) < 1 := by decide +kernel
  have haccept : refusal twoOnes twoOnes ⟨0.95, 5, 2 ^ 60⟩ = none :=
    refusal_eq_none (by decide +kernel) (by decide +kernel) hlevel.1 hlevel.2 (by norm_num)
  exact ⟨refusal_eq_none_iff.mp haccept, attempt_faults haccept le_rfl _,
    compare_faults haccept le_rfl _⟩

end Comparison
end TimingStats
