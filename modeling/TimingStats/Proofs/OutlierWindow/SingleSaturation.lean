import TimingStats.Proofs.OutlierWindow.Invariant

/-! # Where the bound saturates once

The margin of the bound is brought into range before it is added. In unbounded integers the greatest
unflagged sample and the margin are added first, and only their sum is brought into range. The two
agree exactly if that sample is not negative or the margin is in range by itself. Elsewhere the
bound is too low, and a window without a flag flags a sample that is within the margin of the
others. -/

namespace TimingStats.OutlierWindow

open Binary64

/-- The spread of two samples as a double, times the tolerance. -/
def scaledSpread (lo hi : Int64) (t : Float) : Float :=
  (UInt64.ofNat (hi.toInt - lo.toInt).natAbs).toFloat * t

/-- The margin above the greater of two samples. An infinite one counts as the greatest sample. -/
def margin (lo hi : Int64) (t : Float) : ℤ :=
  if isFinite (scaledSpread lo hi t) then ⌈toRat (scaledSpread lo hi t)⌉
  else Int64.maxValue.toInt

/-- The bound in unbounded integers, brought into range once. -/
def unboundedBound (lo hi : Int64) (t : Float) : ℤ :=
  Min.min Int64.maxValue.toInt (hi.toInt + margin lo hi t)

/-- A margin that is out of range is only ever added to a sample that is not negative. -/
def SaturatesOnce (lo hi : Int64) (t : Float) : Prop :=
  0 ≤ hi.toInt ∨ margin lo hi t ≤ Int64.maxValue.toInt

/-- Every sample is judged, and none within the margin of the unflagged ones is flagged. -/
def SparesMargin (w : OutlierWindow) : Prop :=
  ∀ x, ∃ w' v, w.apply x = .ok (w', v) ∧
    (v.isOutlier = true → w.maxNormal.toInt + margin w.min w.maxNormal w.tolerance < x.toInt)

variable {lo hi x : Int64} {t : Float} {w : OutlierWindow}

/-! ## The margin -/

theorem margin_eq_ite : margin lo hi t = if isFinite (scaledSpread lo hi t) then
    ceil (scaledSpread lo hi t) else Int64.maxValue.toInt := by
  rw [margin, ceil_eq]

theorem scaledSpread_rounds (h : lo ≤ hi) (ht : validTolerance t = true) :
    Rounds (scaledSpread lo hi t) (rounded ((hi.toInt - lo.toInt).toNat : ℚ) * toRat t) := by
  obtain ⟨hsf, hsv⟩ := toFloat_finite (UInt64.ofNat (hi.toInt - lo.toInt).natAbs)
  have hspread : (UInt64.ofNat (hi.toInt - lo.toInt).natAbs).toNat =
      (hi.toInt - lo.toInt).toNat := by
    have := toNat_spread h
    omega
  rw [← hspread, ← hsv]
  exact mul_rounds hsf (finite_of_validTolerance ht).1

/-- An infinite product stands for an exact one that is out of range. -/
theorem min_margin (h : lo ≤ hi) (ht : validTolerance t = true) :
    Min.min Int64.maxValue.toInt (margin lo hi t) = Min.min Int64.maxValue.toInt
      (exactMargin (hi.toInt - lo.toInt).toNat (toRat t)) := by
  have hround := scaledSpread_rounds h ht
  have hq : 0 ≤ rounded ((hi.toInt - lo.toInt).toNat : ℚ) * toRat t :=
    mul_nonneg (rounded_nonneg (Nat.cast_nonneg _)) (finite_of_validTolerance ht).2
  unfold exactMargin
  generalize rounded ((hi.toInt - lo.toInt).toNat : ℚ) * toRat t = q at hround hq ⊢
  have habs : |rounded q| = rounded q := abs_of_nonneg (rounded_nonneg hq)
  rcases lt_or_ge (rounded q) (2 ^ 1024) with hlt | hge
  · obtain ⟨hfin, hv⟩ := hround.finite (by rwa [habs])
    rw [margin, if_pos hfin, hv]
  · have hinf := hround.isFinite_eq_false (by rwa [habs])
    rw [margin, hinf, if_neg Bool.false_ne_true, min_self, min_eq_left (maxValue_le_ceil hge)]

/-! ## The bound -/

theorem toInt_toleranceBound_margin (h : lo ≤ hi) (ht : validTolerance t = true) :
    (toleranceBound lo hi t).toInt = Min.min Int64.maxValue.toInt
      (hi.toInt + Min.min Int64.maxValue.toInt (margin lo hi t)) := by
  rw [toInt_toleranceBound h ht, min_margin h ht]

theorem toInt_toleranceBound_eq_unbounded_iff (h : lo ≤ hi) (ht : validTolerance t = true) :
    (toleranceBound lo hi t).toInt = unboundedBound lo hi t ↔ SaturatesOnce lo hi t := by
  have hmax : Int64.maxValue.toInt = 9223372036854775807 := by decide
  rw [toInt_toleranceBound_margin h ht]
  unfold unboundedBound SaturatesOnce
  omega

theorem toleranceBound_lt_iff_margin (h : lo ≤ hi) (ht : validTolerance t = true) :
    toleranceBound lo hi t < x ↔
      hi.toInt + Min.min Int64.maxValue.toInt (margin lo hi t) < x.toInt := by
  have hx := x.toInt_le
  rw [Int64.lt_iff_toInt_lt, toInt_toleranceBound_margin h ht]
  omega

/-! ## The samples that are flagged -/

/-- A sample is judged by the bound of all samples, flagged or not. -/
theorem apply_isOutlier (h : Sound w) (x : Int64) :
    ∃ w' v, w.apply x = .ok (w', v) ∧
      (v.isOutlier = true ↔ toleranceBound w.min w.max w.tolerance < x) := by
  obtain ⟨w', hok, -⟩ := apply_spec h x
  exact ⟨w', _, hok, decide_eq_true_iff⟩

/-- The bound of all samples is not below that of the unflagged ones. -/
theorem Sound.bound_le (h : Sound w) :
    toleranceBound w.min w.maxNormal w.tolerance ≤ toleranceBound w.min w.max w.tolerance :=
  toleranceBound_mono (Int64.le_refl _) h.upToDate.min_le h.upToDate.maxNormal_le_max
    h.upToDate.tolerance

theorem Sound.sparesMargin (h : Sound w) (honce : SaturatesOnce w.min w.maxNormal w.tolerance) :
    SparesMargin w := by
  intro x
  obtain ⟨w', v, hok, hv⟩ := apply_isOutlier h x
  refine ⟨w', v, hok, fun hout => ?_⟩
  have hlt := Int64.lt_of_le_of_lt h.bound_le (hv.mp hout)
  rw [toleranceBound_lt_iff_margin h.upToDate.min_le h.upToDate.tolerance] at hlt
  have hx := x.toInt_le
  unfold SaturatesOnce at honce
  omega

/-- Without a flag the bound is that of the unflagged samples. Where it is too low, the sample just
above it is within the margin. -/
theorem Sound.saturatesOnce (h : Sound w) (hnone : w.flagged = none) (hspares : SparesMargin w) :
    SaturatesOnce w.min w.maxNormal w.tolerance := by
  by_contra hnot
  unfold SaturatesOnce at hnot
  have hmin : Int64.minValue.toInt = -9223372036854775808 := by decide
  have hmax : Int64.maxValue.toInt = 9223372036854775807 := by decide
  have hlow := w.maxNormal.minValue_le_toInt
  obtain ⟨x, hx⟩ : ∃ x : Int64, x.toInt = w.maxNormal.toInt + Int64.maxValue.toInt + 1 := by
    refine ⟨saturate (w.maxNormal.toInt + Int64.maxValue.toInt + 1), ?_⟩
    rw [toInt_saturate]
    omega
  have heq : w.max = w.maxNormal := by
    rw [h.upToDate.max]
    simp [outlier, hnone]
  obtain ⟨w', v, hok, hv⟩ := apply_isOutlier h x
  rw [heq, toleranceBound_lt_iff_margin h.upToDate.min_le h.upToDate.tolerance] at hv
  obtain ⟨w'', v', hok', hfar⟩ := hspares x
  obtain ⟨-, rfl⟩ := Prod.mk.inj (Except.ok.inj (hok.symm.trans hok'))
  have := hfar (hv.mpr (by omega))
  omega

/-! ## Every pair of samples and every run -/

/-- The bound is the unbounded one exactly where it saturates once. There every run of a window
spares the margin, and a window without a flag spares it nowhere else. -/
theorem saturatesOnce_exact (seed inputs : List Int64) (t : Float) (hmany : 3 ≤ seed.length)
    (ht : validTolerance t = true) :
    (∀ lo hi : Int64, lo ≤ hi →
      (toleranceBound lo hi t).toInt = Min.min Int64.maxValue.toInt
        (hi.toInt + Min.min Int64.maxValue.toInt (margin lo hi t)) ∧
      ((toleranceBound lo hi t).toInt = unboundedBound lo hi t ↔ SaturatesOnce lo hi t)) ∧
    ∃ w₀ w vs, ofSamples seed t = .ok w₀ ∧ w₀.applyEach inputs = .ok (vs, w) ∧
      w.upperTolerance = toleranceBound w.min w.maxNormal t ∧
      (SaturatesOnce w.min w.maxNormal t → SparesMargin w) ∧
      (w.flagged = none → SparesMargin w → SaturatesOnce w.min w.maxNormal t) := by
  refine ⟨fun lo hi h => ⟨toInt_toleranceBound_margin h ht,
    toInt_toleranceBound_eq_unbounded_iff h ht⟩, ?_⟩
  obtain ⟨w₀, hok₀, htracks₀⟩ := tracks_ofSamples (Nat.le_of_succ_le hmany) ht
  obtain ⟨w, vs, hok, htracks⟩ := htracks₀.applyEach inputs
  have hsound := htracks.sound
  have htol := htracks.tolerance
  subst htol
  exact ⟨w₀, w, vs, hok₀, hok, hsound.upToDate.upperTolerance, hsound.sparesMargin,
    hsound.saturatesOnce⟩

/-- Negative samples, whose spread is rounded up to a power of two. -/
theorem saturatesOnce_exact_negative :
    3 ≤ [-1, -4611686018427387904, -1].length ∧ validTolerance 1 = true ∧
      ∃ w₀ w vs, ofSamples [-1, -4611686018427387904, -1] 1 = .ok w₀ ∧
        w₀.applyEach [-3] = .ok (vs, w) ∧ w.upperTolerance = 4611686018427387903 ∧
        unboundedBound w.min w.maxNormal 1 = 4611686018427387903 ∧ SparesMargin w := by
  have ht : validTolerance 1 = true := by decide +kernel
  obtain ⟨-, w₀, w, vs, hok₀, hok, hbound, hspares, -⟩ :=
    saturatesOnce_exact [-1, -4611686018427387904, -1] [-3] 1 (by decide) ht
  have hends : ((ofSamples [-1, -4611686018427387904, -1] 1).toOption.bind fun w₀ =>
      (w₀.applyEach [-3]).toOption.map fun r => (r.2.min, r.2.maxNormal)) =
        some (-4611686018427387904, -1) := by decide +kernel
  rw [hok₀, Except.toOption, Option.bind_some, hok] at hends
  obtain ⟨hmin, hmax⟩ := Prod.mk.inj (Option.some.inj hends)
  dsimp only at hmin hmax
  have hmargin : margin (-4611686018427387904) (-1) 1 = 4611686018427387904 := by
    rw [margin_eq_ite]
    decide +kernel
  refine ⟨by decide, ht, w₀, w, vs, hok₀, hok, ?_, ?_, hspares ?_⟩
  · rw [hbound, hmin, hmax]
    decide +kernel
  · rw [hmin, hmax, unboundedBound, hmargin]
    decide
  · rw [hmin, hmax, SaturatesOnce, hmargin]
    decide

/-- Far below zero the bound is too low by one, and the greatest sample is flagged although it is
within the margin. At tolerance one the margin is out of range because its spread has been rounded
up; at tolerance two the exact margin is out of range as well. -/
theorem toleranceBound_below_unbounded :
    Int64.minValue ≤ -1 ∧ validTolerance 1 = true ∧
      (toleranceBound Int64.minValue (-1) 1).toInt = 9223372036854775806 ∧
      unboundedBound Int64.minValue (-1) 1 = 9223372036854775807 ∧
      ∃ w w' v, ofSamples [Int64.minValue, -1, -1] 1 = .ok w ∧
        w.apply Int64.maxValue = .ok (w', v) ∧ v.isOutlier = true ∧
        Int64.maxValue.toInt ≤ w.maxNormal.toInt + margin w.min w.maxNormal 1 ∧
      (toleranceBound Int64.minValue (-1) 2).toInt = 9223372036854775806 ∧
      unboundedBound Int64.minValue (-1) 2 = 9223372036854775807 ∧
      Min.min Int64.maxValue.toInt (-1 + 2 * (-1 - Int64.minValue.toInt)) =
        9223372036854775807 := by
  have ht : validTolerance 1 = true := by decide +kernel
  have hmargin : margin Int64.minValue (-1) 1 = 9223372036854775808 := by
    rw [margin_eq_ite]
    decide +kernel
  have hmargin₂ : margin Int64.minValue (-1) 2 = 18446744073709551616 := by
    rw [margin_eq_ite]
    decide +kernel
  have hmany : 2 ≤ [Int64.minValue, -1, -1].length := by decide
  obtain ⟨w, hok, htracks⟩ := tracks_ofSamples hmany ht
  obtain ⟨w', v, hok', hv⟩ := apply_isOutlier htracks.sound Int64.maxValue
  have hends : ((ofSamples [Int64.minValue, -1, -1] 1).toOption.map fun w =>
      (w.min, w.maxNormal, w.max)) = some (Int64.minValue, -1, -1) := by decide +kernel
  rw [hok] at hends
  obtain ⟨hmin, hrest⟩ := Prod.mk.inj (Option.some.inj hends)
  obtain ⟨hnormal, hmax⟩ := Prod.mk.inj hrest
  refine ⟨by decide, ht, by decide +kernel, ?_, w, w', v, hok, hok', ?_, ?_, by decide +kernel, ?_,
    by decide⟩
  · rw [unboundedBound, hmargin]
    decide
  · rw [hv, hmin, hmax, htracks.tolerance]
    decide +kernel
  · rw [hnormal, hmin, hmargin]
    decide
  · rw [unboundedBound, hmargin₂]
    decide

end TimingStats.OutlierWindow
