import TimingStats.Proofs.Comparison.Significance

/-! # Samples that overlap

Every rank is drawn by some word, so a stream can be written down that draws one observation of each
side again and again. The interval then shrinks to the difference of the two, and what is drawn
afterwards is still open. So the samples of both sides must lie apart for a significant change to
have the direction of its interval: where they overlap, each relative change that occurs at all
occurs with an interval above zero, and with one below. -/

namespace TimingStats

open TimingStats.Random Binary64

/-! ## Words for ranks -/

namespace Random.RankSource

variable {n : ℕ}

/-- The least word that a rank is drawn by. -/
def wordOf (r : Fin n) : UInt64 := UInt64.ofNat ((r * 2 ^ 64 + (n - 1)) / n)

/-- The multiple of the word is the first one that reaches the rank. -/
theorem wordOf_mul (hn : n ≤ 2 ^ 64) (r : Fin n) :
    r * 2 ^ 64 ≤ (wordOf r).toNat * n ∧ (wordOf r).toNat * n < r * 2 ^ 64 + n := by
  have hpos : 0 < n := r.pos
  have hr := r.isLt
  have hdiv := Nat.div_add_mod' (r * 2 ^ 64 + (n - 1)) n
  have hmod := Nat.mod_lt (r * 2 ^ 64 + (n - 1)) hpos
  have hlt : (r * 2 ^ 64 + (n - 1)) / n < 2 ^ 64 := by
    rw [Nat.div_lt_iff_lt_mul hpos]
    omega
  rw [wordOf, UInt64.toNat_ofNat_of_lt' hlt]
  omega

theorem rankOf_wordOf (hn : n ≤ 2 ^ 64) (r : Fin n) : rankOf n r.pos (wordOf r) = r := by
  obtain ⟨hlow, hhigh⟩ := wordOf_mul hn r
  have hsize : UInt64.size = 2 ^ 64 := rfl
  apply Fin.ext
  rw [rankOf]
  dsimp only
  rw [hsize, Nat.div_eq_iff (by norm_num)]
  omega

theorem accepts_wordOf (hn : n ≤ 2 ^ 64) (r : Fin n) : accepts n (wordOf r) = true := by
  obtain ⟨hlow, hhigh⟩ := wordOf_mul hn r
  have hzone : n ≤ n <<< (63 - n.log2) := by
    rw [Nat.shiftLeft_eq]
    exact Nat.le_mul_of_pos_right n (Nat.two_pow_pos _)
  have hsize : UInt64.size = 2 ^ 64 := rfl
  rw [accepts, decide_eq_true_eq, zone, hsize]
  omega

/-- A stream that goes on with the word of a rank draws that rank, and one word is used up. -/
theorem draw_wordOf (hn : n ≤ 2 ^ 64) (r : Fin n) (ws : List UInt64) (last : UInt64) :
    draw n r.pos (WordStream.listed (wordOf r :: ws) last) = (r, .listed ws last) := by
  have hwithin : ∀ k, drawWithin k n r.pos (.listed (wordOf r :: ws) last) =
      (r, .listed ws last) := fun k => by
    cases k with
    | zero =>
      rw [drawWithin, WordStream.next]
      dsimp only
      rw [rankOf_wordOf hn]
    | succ k =>
      rw [drawWithin, WordStream.next]
      dsimp only
      rw [accepts_wordOf hn, if_pos rfl, rankOf_wordOf hn]
  exact hwithin attempts

end Random.RankSource

namespace Comparison

/-! ## Draws of one observation -/

variable {d baseline candidate : Distribution} {v b c : Int64} {w x y : UInt64}
  {config : ComparisonConfig}

/-- A word draws an observation, whatever words come after it. -/
def Draws (d : Distribution) (w : UInt64) (v : Int64) : Prop :=
  ∀ (ws : List UInt64) (last : UInt64),
    d.choose (WordStream.listed (w :: ws) last) = (v, .listed ws last)

theorem exists_draws (hd : d.size ≤ 2 ^ 64) (hv : v ∈ d.histogram.observations) :
    ∃ w, Draws d w v := by
  obtain ⟨r, hr, rfl⟩ := List.mem_iff_getElem.mp hv
  rw [d.length_observations] at hr
  refine ⟨RankSource.wordOf ⟨r, hr⟩, fun ws last => ?_⟩
  rw [d.choose_eq, RankSource.draw_wordOf hd]
  rfl

theorem drawnTotal_of_draws (h : Draws d w v) (n : ℕ) (total : ℤ) (ws : List UInt64)
    (last : UInt64) : drawnTotal d n total (WordStream.listed (List.replicate n w ++ ws) last) =
      (total + n * v.toInt, .listed ws last) := by
  induction n generalizing total with
  | zero =>
    rw [drawnTotal, Nat.cast_zero, zero_mul, add_zero]
    rfl
  | succ n ih =>
    rw [List.replicate_succ, List.cons_append, drawnTotal, h]
    dsimp only
    rw [ih]
    push_cast
    congr 1
    ring

/-- The mean of draws of one observation only. -/
def meanOf (d : Distribution) (v : Int64) : Float :=
  Float.ofInt (d.size * v.toInt) / Float.ofNat d.size

theorem resampledMean_of_draws (h : Draws d w v) (ws : List UInt64) (last : UInt64) :
    resampledMean d (WordStream.listed (List.replicate d.size w ++ ws) last) =
      (meanOf d v, .listed ws last) := by
  rw [resampledMean, drawnTotal_of_draws h, zero_add]
  rfl

/-- A double holds the total of as many times any observation as there are observations. -/
def ExactTotals (d : Distribution) : Prop :=
  ∀ v ∈ d.histogram.observations, d.size * v.toInt ≤ 2 ^ 53

theorem meanOf_value (hpos : Positive d) (hexact : ExactTotals d)
    (hv : v ∈ d.histogram.observations) :
    isFinite (meanOf d v) = true ∧ toRat (meanOf d v) = v.toInt := by
  have hv0 := toInt_pos (hpos v hv)
  obtain ⟨p, hp⟩ := Int.eq_ofNat_of_zero_le hv0.le
  have hp0 : 0 < p := by omega
  have htotal : d.size * p ≤ 2 ^ 53 := by
    have hle := hexact v hv
    rw [hp] at hle
    exact_mod_cast hle
  have hsize := size_lt_of_exact hp0 htotal
  obtain ⟨w, hw⟩ := exists_draws hsize.le hv
  obtain ⟨hf, -, hval⟩ := resampledMean_value hsize
    (WordStream.listed (List.replicate d.size w ++ []) 0)
  rw [resampledMean_of_draws hw] at hf hval
  rw [drawnTotal_of_draws hw, zero_add, hp] at hval
  refine ⟨hf, hval.trans ?_⟩
  rw [hp]
  exact_mod_cast rounded_mean_exact d.size_pos hp0 htotal

/-! ## Replicates that are all the same -/

/-- The words that draw one candidate and one baseline in all of some replicates. -/
def replicateWords (baseline candidate : Distribution) (x y : UInt64) : ℕ → List UInt64
  | 0 => []
  | n + 1 => List.replicate candidate.size x ++ (List.replicate baseline.size y ++
      replicateWords baseline candidate x y n)

theorem replicates_replicateWords (hc : Draws candidate x c) (hb : Draws baseline y b) (n : ℕ)
    (found : List Float) (ws : List UInt64) (last : UInt64) :
    replicates baseline candidate n found
        (WordStream.listed (replicateWords baseline candidate x y n ++ ws) last) =
      (List.replicate n (meanOf candidate c - meanOf baseline b) ++ found,
        WordStream.listed ws last) := by
  induction n generalizing found with
  | zero => rfl
  | succ n ih =>
    have hwords : replicateWords baseline candidate x y (n + 1) ++ ws =
        List.replicate candidate.size x ++ (List.replicate baseline.size y ++
          (replicateWords baseline candidate x y n ++ ws)) := by
      simp only [replicateWords, List.append_assoc]
    rw [hwords, replicates, resampledMean_of_draws hc]
    dsimp only
    rw [resampledMean_of_draws hb]
    dsimp only
    rw [ih, List.replicate_succ', List.append_assoc, List.singleton_append]

/-- The difference of two means of one observation each is on the side of the greater one. -/
theorem meanOf_sub_value (hc : Positive candidate ∧ ExactTotals candidate)
    (hb : Positive baseline ∧ ExactTotals baseline) (hmc : c ∈ candidate.histogram.observations)
    (hmb : b ∈ baseline.histogram.observations) :
    isFinite (meanOf candidate c - meanOf baseline b) = true ∧
      toRat (meanOf candidate c - meanOf baseline b) = rounded (c.toInt - b.toInt) := by
  obtain ⟨hcf, hcv⟩ := meanOf_value hc.1 hc.2 hmc
  obtain ⟨hbf, hbv⟩ := meanOf_value hb.1 hb.2 hmb
  have hsub := sub_rounds hcf hbf
  rw [hcv, hbv] at hsub
  have hrange : |(c.toInt : ℚ) - b.toInt| ≤ 2 ^ 64 := by
    have hcast : |c.toInt - b.toInt| ≤ 2 ^ 64 := abs_le.mpr
      ⟨by have := c.le_toInt; have := b.toInt_lt; omega,
        by have := c.toInt_lt; have := b.le_toInt; omega⟩
    exact_mod_cast hcast
  exact hsub.finite_of_le hrange (by norm_num)

theorem ExactTotals.size_lt (hexact : ExactTotals d) (hpos : Positive d) :
    d.size < UInt64.size := by
  have hmem := d.observationAt_mem ⟨0, d.size_pos⟩
  have hone := toInt_pos (hpos _ hmem)
  have hle : (d.size : ℤ) ≤ 2 ^ 53 :=
    (le_mul_of_one_le_right (Int.natCast_nonneg _) (by omega)).trans (hexact _ hmem)
  unfold UInt64.size
  omega

/-! ## Overlap -/

section Overlapping

variable (hb : Positive baseline ∧ ExactTotals baseline)
  (hc : Positive candidate ∧ ExactTotals candidate) (hbsize : 2 ≤ baseline.size)
  (hcsize : 2 ≤ candidate.size) (h0 : 0 < config.confidenceLevel)
  (h1 : config.confidenceLevel < 1) (hn : 0 < config.bootstrapIterations)
  (hlt : config.bootstrapIterations < 2 ^ 60) (ws : List UInt64) (last : UInt64)

include hb hc hbsize hcsize h0 h1 hlt

/-- One candidate and one baseline can be drawn in all replicates. Their difference is then both
ends of the interval, and the words that are left for differences and ratios are any. -/
theorem run_of_observations (hmb : b ∈ baseline.histogram.observations)
    (hmc : c ∈ candidate.histogram.observations) :
    ∃ words u s, measure baseline candidate config hn (WordStream.listed (words ++ ws) last) =
        .ok (u, s) ∧
      compare baseline candidate config (WordStream.listed (words ++ ws) last) =
        .ok (.ok (u, s)) ∧
      (replicates baseline candidate config.bootstrapIterations []
        (WordStream.listed (words ++ ws) last)).2 = WordStream.listed ws last ∧
      isFinite u.intervalLower = true ∧
      toRat u.intervalLower = rounded (c.toInt - b.toInt) ∧
      u.intervalUpper = u.intervalLower := by
  have hblt := hb.2.size_lt hb.1
  have hclt := hc.2.size_lt hc.1
  obtain ⟨y, hy⟩ := exists_draws hblt.le hmb
  obtain ⟨x, hx⟩ := exists_draws hclt.le hmc
  have hreplicates := replicates_replicateWords hx hy config.bootstrapIterations [] ws last
  obtain ⟨u, s, hmeasure, hcompare, hlower, hupper, -⟩ := run_of_constant baseline candidate
    config _ (meanOf candidate c - meanOf baseline b) ⟨hbsize, hblt⟩ ⟨hcsize, hclt⟩ ⟨h0, h1⟩ hn
    hlt (fun z hz => by
      rw [hreplicates, List.append_nil] at hz
      exact List.eq_of_mem_replicate hz)
  obtain ⟨hf, hv⟩ := meanOf_sub_value hc hb hmc hmb
  exact ⟨_, u, s, hmeasure, hcompare, by rw [hreplicates], hlower ▸ hf, hlower ▸ hv,
    hupper.trans hlower.symm⟩

include hn

/-- **Where samples overlap, the interval does not decide the direction.** If some candidate is
above some baseline and some candidate below some baseline, then whatever is drawn for differences
and ratios, there are draws before it that put the interval above zero, and others that put it
below, while the relative change is the same. -/
theorem overlap_opposed
    (hover : ∃ b ∈ baseline.histogram.observations, ∃ c ∈ candidate.histogram.observations, b < c)
    (hunder : ∃ b ∈ baseline.histogram.observations,
      ∃ c ∈ candidate.histogram.observations, c < b) :
    ∃ above below u s e t,
      compare baseline candidate config (WordStream.listed (above ++ ws) last) =
        .ok (.ok (u, s)) ∧
      compare baseline candidate config (WordStream.listed (below ++ ws) last) =
        .ok (.ok (e, t)) ∧
      0 < u.intervalLower ∧ e.intervalUpper < 0 ∧ u.relativeChange = e.relativeChange ∧
      (config.significanceThreshold ≤ u.relativeChange.abs →
        u.isSignificant = true ∧ e.isSignificant = true) := by
  obtain ⟨b, hmb, c, hmc, hbc⟩ := hover
  obtain ⟨b', hmb', c', hmc', hcb⟩ := hunder
  obtain ⟨above, u, s, humeasure, hucompare, hustate, huf, huv, -⟩ :=
    run_of_observations hb hc hbsize hcsize h0 h1 hn hlt ws last hmb hmc
  obtain ⟨below, e, t, hemeasure, hecompare, hestate, hef, hev, heupper⟩ :=
    run_of_observations hb hc hbsize hcsize h0 h1 hn hlt ws last hmb' hmc'
  have hrelative := relativeChange_congr humeasure hemeasure (hustate.trans hestate.symm)
  have hpos : 0 < u.intervalLower := by
    have hone : (b.toInt : ℚ) + 1 ≤ c.toInt := by exact_mod_cast Int64.lt_iff_toInt_lt.mp hbc
    rw [lt_iff zero_value.1 huf, zero_value.2, huv]
    exact one_pos.trans_le (representable_one.le_rounded (by linarith))
  have hneg : e.intervalUpper < 0 := by
    have hone : (c'.toInt : ℚ) + 1 ≤ b'.toInt := by exact_mod_cast Int64.lt_iff_toInt_lt.mp hcb
    rw [heupper, lt_iff hef zero_value.1, zero_value.2, hev]
    exact (representable_one.neg.rounded_le (by linarith)).trans_lt (by norm_num)
  exact ⟨above, below, u, s, e, t, hucompare, hecompare, hpos, hneg, hrelative, fun hle =>
    ⟨(isSignificant_iff humeasure).mpr ⟨.inl hpos, hle⟩,
      (isSignificant_iff hemeasure).mpr ⟨.inr hneg, hrelative ▸ hle⟩⟩⟩

end Overlapping

end Comparison
end TimingStats
