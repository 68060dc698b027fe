import TimingStats.Proofs.Binary64.NotFinite
import TimingStats.Proofs.Distribution.NearestRank

/-! # Percentiles in order

A greater percentile is never a lesser observation, whatever doubles are asked for. The product that
the rank comes from keeps order through each of its roundings. What might break the order is that a
number is rounded up unless it is near enough to a whole one: but if a number is near enough to the
whole one below it, so is every lesser number above that whole one, because the distance shrinks
faster than the tolerance does. -/

namespace TimingStats

namespace Binary64

variable {x : Float}

/-! ## Rounding up and to the nearest -/

theorem round_eq_of_nonneg (h : 0 ≤ toRat x) : round x = ⌊toRat x + 1 / 2⌋ := by
  rcases h.lt_or_eq with hpos | hzero
  · exact round_eq hpos
  · have hunits : units x = 0 := by
      rw [toRat_eq_units] at hzero
      exact_mod_cast (mul_eq_zero.mp hzero.symm).resolve_right (two_zpow_pos _).ne'
    have hmagnitude : magnitude x = 0 := by
      unfold units at hunits
      split at hunits <;> omega
    have hround : round x = 0 := by
      have hnone : (2 * 0 + one) / (2 * one) = 0 := by decide +kernel
      rw [round, hmagnitude, hnone]
      split <;> rfl
    rw [hround, ← hzero]
    norm_num

theorem round_le_ceil (h : 0 ≤ toRat x) : round x ≤ ⌈toRat x⌉ := by
  have hle := Int.le_ceil (toRat x)
  rw [round_eq_of_nonneg h, ← Int.lt_add_one_iff, Int.floor_lt]
  push_cast
  linarith

/-- A number that is not whole is less than 2^53. -/
theorem lt_of_floor_lt_ceil (h : ⌊toRat x⌋ < ⌈toRat x⌉) : toRat x < 2 ^ 53 := by
  by_contra hge
  obtain ⟨k, hk⟩ := (representable_toRat x).exists_even (a := 0) (by simpa using not_lt.mp hge)
  rw [zpow_zero, mul_one] at hk
  rw [hk, Int.floor_intCast, Int.ceil_intCast] at h
  exact lt_irrefl _ h

/-- What a number that is not whole has above the point is representable. -/
theorem representable_fract {k : ℤ} (hk : 0 < k) (hlt : k < 2 ^ 53) (hfloor : ⌊toRat x⌋ = k) :
    Representable (toRat x - k) := by
  lift k to ℕ using hk.le
  have hsub := (representable_toRat x).sub_word (w := k) (a := 0) (by exact_mod_cast hk)
    (by exact_mod_cast hlt) (by norm_num) (by rw [zpow_zero, div_one, hfloor])
  rwa [zpow_zero, mul_one] at hsub

end Binary64

namespace Percentile

open Binary64

variable {p q x y : Float} {n : ℕ}

/-! ## Ranks in doubles -/

/-- The rank of a percentile before it is made whole. -/
def scaledRank (p : Float) (n : ℕ) : Float := clamp p * Float.ofNat n / 100

/-- The whole number that a double is taken for. -/
def settled (x : Float) : ℤ := if snaps x (round x) then round x else ceil x

theorem rankIndex_eq_settled (h : isNaN (scaledRank p n) = false) : rankIndex p n =
    min (min (settled (scaledRank p n)).toNat (UInt64.size - 1) - 1) (n - 1) := by
  have hrank : nearestRank p n = min (settled (scaledRank p n)).toNat (UInt64.size - 1) :=
    if_neg (by rw [← scaledRank, h]; decide)
  rw [rankIndex, hrank]

theorem settled_le_ceil (h : 0 ≤ toRat x) : settled x ≤ ⌈toRat x⌉ := by
  unfold settled
  split
  · exact round_le_ceil h
  · exact (ceil_eq x).le

/-- If a number is near enough to the whole one below it, so is any lesser number above that. -/
theorem snaps_of_le (hx : isFinite x = true) (hy : isFinite y = true) {k : ℤ} (hk : 0 < k)
    (hlow : k < toRat x) (hle : toRat x ≤ toRat y) (hhigh : toRat y < 2 ^ 53)
    (hfloor : ⌊toRat y⌋ = k) (h : snaps y k = true) : snaps x k = true := by
  have hone : (1 : ℚ) ≤ k := by exact_mod_cast hk
  have hkhigh : k < 2 ^ 53 := by
    have : (k : ℚ) < 2 ^ 53 := by linarith
    exact_mod_cast this
  have hkabs : |k| ≤ 2 ^ 53 := (abs_of_pos hk).trans_le hkhigh.le
  have hfloorx : ⌊toRat x⌋ = k :=
    Int.floor_eq_iff.mpr ⟨hlow.le, hle.trans_lt (Int.floor_eq_iff.mp hfloor).2⟩
  rw [snaps_iff hy (by linarith) hhigh.le hkabs, abs_of_nonneg (by linarith),
    representable_fract hk hkhigh hfloor] at h
  rw [snaps_iff hx (by linarith) (by linarith) hkabs, abs_of_nonneg (by linarith),
    representable_fract hk hkhigh hfloorx]
  linarith

/-- **Numbers are taken for whole ones in their order.** -/
theorem settled_mono (hx : isFinite x = true) (hy : isFinite y = true) (hone : 1 < toRat x)
    (hle : toRat x ≤ toRat y) : settled x ≤ settled y := by
  have hceil : settled x ≤ ⌈toRat x⌉ := settled_le_ceil (by linarith)
  rcases le_or_gt ⌈toRat y⌉ (settled y) with hup | hdown
  · exact hceil.trans ((Int.ceil_le_ceil hle).trans hup)
  -- the greater number is near enough to a whole one below it
  obtain ⟨k, hk⟩ : ∃ k, round y = k := ⟨_, rfl⟩
  have hsnaps : snaps y k = true := by
    by_contra hnot
    rw [settled, hk, if_neg hnot, ceil_eq] at hdown
    exact lt_irrefl _ hdown
  have hsettled : settled y = k := by rw [settled, hk, if_pos hsnaps]
  rw [hsettled] at hdown ⊢
  rcases le_or_gt (toRat x) k with hbelow | habove
  · exact hceil.trans (Int.ceil_le.mpr hbelow)
  -- and the lesser number lies between the two
  have hround := round_eq_of_nonneg (x := y) (by linarith)
  rw [hk, eq_comm, Int.floor_eq_iff] at hround
  have hfloor : ⌊toRat y⌋ = k :=
    Int.floor_eq_iff.mpr ⟨(habove.trans_le hle).le, by linarith [hround.2]⟩
  have hpos : 0 < k := hfloor ▸ Int.floor_pos.mpr (by linarith)
  have hroundx : round x = k := by
    rw [round_eq_of_nonneg (by linarith), Int.floor_eq_iff]
    constructor <;> linarith [hround.2]
  have hhigh : toRat y < 2 ^ 53 := lt_of_floor_lt_ceil (hfloor ▸ hdown)
  rw [settled, hroundx, if_pos (snaps_of_le hx hy hpos habove hle hhigh hfloor hsnaps)]

/-! ## Percentiles in range -/

theorem clamp_of_isNaN (h : isNaN p = true) : clamp p = p := by
  rw [clamp, if_neg (not_lt_of_isNaN h).1, if_neg (not_lt_of_isNaN h).2]

theorem clamp_value (h : isFinite p = true) :
    isFinite (clamp p) = true ∧ toRat (clamp p) = max 0 (min 100 (toRat p)) := by
  have hneg : p < 0 ↔ toRat p < 0 := by rw [lt_iff h zero_value.1, zero_value.2]
  have hbig : 100 < p ↔ 100 < toRat p := by rw [lt_iff hundred_value.1 h, hundred_value.2]
  rcases lt_or_ge (toRat p) 0 with hlt | hge
  · rw [clamp, if_pos (hneg.mpr hlt), zero_value.2, min_eq_right (by linarith), max_eq_left hlt.le]
    exact ⟨zero_value.1, rfl⟩
  · rw [clamp, if_neg (mt hneg.mp hge.not_gt)]
    rcases lt_or_ge 100 (toRat p) with hgt | hle
    · rw [if_pos (hbig.mpr hgt), hundred_value.2, min_eq_left hgt.le, max_eq_right (by norm_num)]
      exact ⟨hundred_value.1, rfl⟩
    · rw [if_neg (mt hbig.mp hle.not_gt), min_eq_right hle, max_eq_right hge]
      exact ⟨h, rfl⟩

theorem clamp_infinity : clamp (signedInfinity true) = 0 ∧ clamp (signedInfinity false) = 100 := by
  decide +kernel

theorem clamp_bounds (h : isNaN p = false) :
    isFinite (clamp p) = true ∧ 0 ≤ toRat (clamp p) ∧ toRat (clamp p) ≤ 100 := by
  rcases finite_or_infinite h with hf | ⟨_ | _, rfl⟩
  · obtain ⟨hcf, hcv⟩ := clamp_value hf
    exact ⟨hcf, hcv ▸ le_max_left _ _, hcv ▸ max_le (by norm_num) (min_le_left _ _)⟩
  · rw [clamp_infinity.2, hundred_value.2]
    exact ⟨hundred_value.1, by norm_num, le_rfl⟩
  · rw [clamp_infinity.1, zero_value.2]
    exact ⟨zero_value.1, le_rfl, by norm_num⟩

/-- Percentiles out of range are brought into it in their order. -/
theorem clamp_mono (h : p ≤ q) : toRat (clamp p) ≤ toRat (clamp q) := by
  obtain ⟨hp, hq⟩ := isNaN_eq_false_of_le h
  by_cases hlow : p = signedInfinity true
  · rw [hlow, clamp_infinity.1, zero_value.2]
    exact (clamp_bounds hq).2.1
  · by_cases hhigh : q = signedInfinity false
    · rw [hhigh, clamp_infinity.2, hundred_value.2]
      exact (clamp_bounds hp).2.2
    · obtain ⟨hpf, hqf⟩ := finite_of_le h hlow hhigh
      rw [(clamp_value hpf).2, (clamp_value hqf).2]
      exact max_le_max_left 0 (min_le_min_left 100 ((le_iff hpf hqf).mp h))

/-! ## Ranks in order -/

/-- The rank of a percentile is rounded twice, after the number of observations is. -/
theorem scaledRank_value (h : isNaN p = false) (hn : n < UInt64.size) :
    isFinite (scaledRank p n) = true ∧
      toRat (scaledRank p n) = rounded (rounded (toRat (clamp p) * rounded n) / 100) := by
  obtain ⟨hcf, hc0, hc100⟩ := clamp_bounds h
  have hsize : (n : ℚ) ≤ 2 ^ 64 := by exact_mod_cast hn.le
  obtain ⟨hnf, hnv⟩ := ofNat_word_value hn
  have hn0 : 0 ≤ rounded (n : ℚ) := rounded_nonneg n.cast_nonneg
  have hn64 : rounded (n : ℚ) ≤ 2 ^ 64 := by
    have hle := abs_rounded_le_two_pow (k := 64) (q := n) (by rwa [abs_of_nonneg n.cast_nonneg])
    exact (le_abs_self _).trans hle
  have hmul := mul_rounds hcf hnf
  rw [hnv] at hmul
  have hprod0 : 0 ≤ toRat (clamp p) * rounded n := mul_nonneg hc0 hn0
  have hprod71 : toRat (clamp p) * rounded n ≤ 2 ^ 71 :=
    (mul_le_mul hc100 hn64 hn0 (by norm_num)).trans (by norm_num)
  obtain ⟨hmf, hmv⟩ := hmul.finite_of_nonneg (k := 71) hprod0 hprod71 (by norm_num)
  have hround71 : rounded (toRat (clamp p) * rounded n) ≤ 2 ^ 71 := by
    have hle := abs_rounded_le_two_pow (k := 71) (by rwa [abs_of_nonneg hprod0])
    exact (le_abs_self _).trans hle
  have hdiv := div_rounds hmf hundred_value.1 (by rw [hundred_value.2]; norm_num)
  rw [hmv, hundred_value.2] at hdiv
  have hround0 := rounded_nonneg hprod0
  exact hdiv.finite_of_nonneg (k := 71) (by positivity) (by linarith) (by norm_num)

theorem scaledRank_mono (h : p ≤ q) (hn : n < UInt64.size) :
    toRat (scaledRank p n) ≤ toRat (scaledRank q n) := by
  obtain ⟨hp, hq⟩ := isNaN_eq_false_of_le h
  have hn0 : 0 ≤ rounded (n : ℚ) := rounded_nonneg n.cast_nonneg
  rw [(scaledRank_value hp hn).2, (scaledRank_value hq hn).2]
  refine rounded_monotone (div_le_div_of_nonneg_right (rounded_monotone ?_) (by norm_num))
  exact mul_le_mul_of_nonneg_right (clamp_mono h) hn0

theorem scaledRank_nonneg (h : isNaN p = false) (hn : n < UInt64.size) :
    0 ≤ toRat (scaledRank p n) := by
  have hn0 : 0 ≤ rounded (n : ℚ) := rounded_nonneg n.cast_nonneg
  rw [(scaledRank_value h hn).2]
  exact rounded_nonneg (div_nonneg (rounded_nonneg (mul_nonneg (clamp_bounds h).2.1 hn0))
    (by norm_num))

theorem isNaN_scaledRank (h : isNaN p = false) (hn : n < UInt64.size) :
    isNaN (scaledRank p n) = false := by
  simp [isNaN, (isFinite_iff _).mp (scaledRank_value h hn).1]

/-- Ranks up to one are that of the first observation. -/
theorem rankIndex_eq_zero (h : isNaN p = false) (hn : n < UInt64.size)
    (hone : toRat (scaledRank p n) ≤ 1) : rankIndex p n = 0 := by
  have hceil : ⌈toRat (scaledRank p n)⌉ ≤ 1 := Int.ceil_le.mpr (by exact_mod_cast hone)
  have hsettled := (settled_le_ceil (scaledRank_nonneg h hn)).trans hceil
  rw [rankIndex_eq_settled (isNaN_scaledRank h hn)]
  omega

theorem rankIndex_of_isNaN (h : isNaN p = true) : rankIndex p n = 0 := by
  have hscaled : isNaN (scaledRank p n) = true := by
    rw [scaledRank, clamp_of_isNaN h]
    exact isNaN_div (isNaN_mul h _) _
  have hrank : nearestRank p n = 0 := if_pos hscaled
  rw [rankIndex, hrank, Nat.zero_sub, Nat.zero_min]

theorem rankIndex_of_nonpos (h : p ≤ 0) (hn : n < UInt64.size) : rankIndex p n = 0 := by
  obtain ⟨hp, -⟩ := isNaN_eq_false_of_le h
  have hclamp : toRat (clamp p) = 0 := by
    refine le_antisymm ((clamp_mono h).trans_eq ?_) (clamp_bounds hp).2.1
    rw [(clamp_value zero_value.1).2, zero_value.2]
    norm_num
  refine rankIndex_eq_zero hp hn ?_
  rw [(scaledRank_value hp hn).2, hclamp, zero_mul, rounded_zero, zero_div, rounded_zero]
  norm_num

/-- **The rank of a greater percentile is not lower.** -/
theorem rankIndex_mono (h : p ≤ q) (hn : n < UInt64.size) : rankIndex p n ≤ rankIndex q n := by
  obtain ⟨hp, hq⟩ := isNaN_eq_false_of_le h
  rcases le_or_gt (toRat (scaledRank p n)) 1 with hone | hone
  · rw [rankIndex_eq_zero hp hn hone]
    exact Nat.zero_le _
  · have hsettled := settled_mono (scaledRank_value hp hn).1 (scaledRank_value hq hn).1 hone
      (scaledRank_mono h hn)
    rw [rankIndex_eq_settled (isNaN_scaledRank hp hn),
      rankIndex_eq_settled (isNaN_scaledRank hq hn)]
    omega

end Percentile

namespace Distribution

open Percentile (rankIndex)

variable {d : Distribution} {p q : Float}

/-! ## Percentiles in order -/

theorem percentile_mono (h : p ≤ q) (hn : d.size < UInt64.size) :
    d.percentile p ≤ d.percentile q :=
  d.valueAt_mono (Percentile.rankIndex_mono h hn)

theorem percentile_eq_min (h : rankIndex p d.size = 0) : d.percentile p = d.min := by
  rw [← d.valueAt_first, percentile]
  exact congrArg d.valueAt (Fin.ext h)

def standard : List Float := [50, 75, 90, 95, 99, 99.9]

/-- The standard percentiles rise from the least observation to the greatest. -/
theorem percentiles_rising (h : d.size < UInt64.size) :
    [d.min, d.percentiles.p50, d.percentiles.p75, d.percentiles.p90, d.percentiles.p95,
      d.percentiles.p99, d.percentiles.p999, d.max].Pairwise (· ≤ ·) := by
  have hasked : standard.Pairwise (· ≤ ·) := by decide +kernel
  have hrising : (standard.map d.percentile).Pairwise (· ≤ ·) :=
    List.pairwise_map.mpr (hasked.imp fun hle => percentile_mono hle h)
  have hends : (standard.map d.percentile ++ [d.max]).Pairwise (· ≤ ·) := by
    refine List.pairwise_append.mpr ⟨hrising, List.pairwise_singleton _ _, fun v hv w hw => ?_⟩
    obtain ⟨p, -, rfl⟩ := List.mem_map.mp hv
    exact List.mem_singleton.mp hw ▸ d.valueAt_le_max _
  refine List.pairwise_cons.mpr ⟨fun v hv => ?_, hends⟩
  rcases List.mem_append.mp (show v ∈ standard.map d.percentile ++ [d.max] from hv) with hv | hv
  · obtain ⟨p, -, rfl⟩ := List.mem_map.mp hv
    exact d.min_le_valueAt _
  · exact List.mem_singleton.mp hv ▸ d.min_le_max

/-- **Percentiles keep order.** A greater percentile, infinite or not, is no lesser observation. One
that is no number, and one that is not above zero, is the least observation. Every percentile is an
observation, whose rank can be looked up. The standard percentiles and those of a summary are these,
so they rise. -/
theorem percentile_ordered (d : Distribution) (h : d.size < UInt64.size) :
    (∀ p q : Float, p ≤ q → d.percentile p ≤ d.percentile q) ∧
    (∀ p, Binary64.isNaN p = true ∨ p ≤ 0 → d.percentile p = d.min) ∧
    (∀ p, d.percentile p ∈ d.histogram.observations ∧
      d.valueAtRank (rankIndex p d.size) = .ok (d.percentile p)) ∧
    [d.percentiles.p50, d.percentiles.p75, d.percentiles.p90, d.percentiles.p95,
      d.percentiles.p99, d.percentiles.p999] = [50, 75, 90, 95, 99, 99.9].map d.percentile ∧
    [d.min, d.percentiles.p50, d.percentiles.p75, d.percentiles.p90, d.percentiles.p95,
      d.percentiles.p99, d.percentiles.p999, d.max].Pairwise (· ≤ ·) ∧
    ∃ s, d.summary = .ok s ∧ s.min = d.min ∧ s.max = d.max ∧
      [s.p50, s.p90, s.p95, s.p99, s.p999] = [50, 90, 95, 99, 99.9].map d.percentile ∧
      [s.min, s.p50, s.p90, s.p95, s.p99, s.p999, s.max].Pairwise (· ≤ ·) := by
  have hrising := percentiles_rising h
  obtain ⟨m, x, -, -, hs⟩ := d.summary_eq
  refine ⟨fun p q hle => percentile_mono hle h, fun p hp => percentile_eq_min ?_,
    fun p => ⟨d.percentile_mem p, dif_pos (Percentile.rankIndex_lt p d.size_pos)⟩, rfl, hrising,
    _, hs, rfl, rfl, rfl, ?_⟩
  · rcases hp with hnan | hle
    · exact Percentile.rankIndex_of_isNaN hnan
    · exact Percentile.rankIndex_of_nonpos hle h
  · exact hrising.sublist ((((List.Sublist.refl _).cons d.percentiles.p75).cons_cons _).cons_cons _)

def oneTwoThree : Distribution := (Builder.new.insertAll [3, 1, 2]).finish (by decide +kernel)

/-- A third of a hundred is taken for the first rank. A little more of it is not. -/
theorem percentile_ordered_oneTwoThree :
    oneTwoThree.size < UInt64.size ∧ oneTwoThree.percentile 33.333333333333336 = 1 ∧
      oneTwoThree.percentile 33.33333333333337 = 2 ∧
      (33.33333333333337 : Float) ≤ Binary64.signedInfinity false ∧
      oneTwoThree.percentile 33.33333333333337 ≤
        oneTwoThree.percentile (Binary64.signedInfinity false) ∧
      Binary64.isNaN (0 / 0) = true ∧ oneTwoThree.percentile (0 / 0) = oneTwoThree.min := by
  have hsize : oneTwoThree.size < UInt64.size := by decide +kernel
  have hle : (33.33333333333337 : Float) ≤ Binary64.signedInfinity false := by decide +kernel
  have hnan : Binary64.isNaN (0 / 0) = true := by decide +kernel
  obtain ⟨hmono, hleast, -⟩ := percentile_ordered oneTwoThree hsize
  exact ⟨hsize, by decide +kernel, by decide +kernel, hle, hmono _ _ hle, hnan,
    hleast _ (.inl hnan)⟩

end Distribution
end TimingStats
