import Mathlib.Data.Rat.Floor
import TimingStats.Distribution.Derived
import TimingStats.Proofs.Distribution.Ranks

/-! # Resampling

Each observation of the shorter side is combined once with an observation of the longer side, whose
rank is drawn. What an empty builder is given is the list of these combinations, so the result is
their distribution, whatever source the ranks come from. Differences and quotients are those of
whole and rational numbers, brought into range at the end. -/

namespace TimingStats

open TimingStats.Random

/-! ## Exact combinations -/

/-- The nearest number in the range of samples. -/
def clamped (n : ℤ) : ℤ := max (-2 ^ 63) (min n (2 ^ 63 - 1))

theorem toInt_saturate_eq_clamped (n : ℤ) : (saturate n).toInt = clamped n := toInt_saturate n

/-- The next whole number on the side of zero. -/
def towardZero (q : ℚ) : ℤ := if 0 ≤ q then ⌊q⌋ else ⌈q⌉

theorem towardZero_neg (q : ℚ) : towardZero (-q) = -towardZero q := by
  unfold towardZero
  rcases lt_trichotomy q 0 with h | rfl | h
  · rw [if_pos (neg_nonneg.mpr h.le), if_neg h.not_ge, Int.floor_neg]
  · simp
  · rw [if_neg (neg_lt_zero.mpr h).not_ge, if_pos h.le, Int.ceil_neg]

theorem towardZero_div_natCast (a : ℤ) (n : ℕ) : towardZero (a / n) = a.tdiv n := by
  have hnonneg : ∀ m : ℕ, towardZero ((m : ℤ) / n) = (m : ℤ).tdiv n := fun m => by
    have hle : (0 : ℚ) ≤ ((m : ℤ) : ℚ) / n := div_nonneg (by exact_mod_cast m.zero_le) n.cast_nonneg
    rw [towardZero, if_pos hle, Rat.floor_intCast_div_natCast,
      Int.tdiv_eq_ediv_of_nonneg (Int.natCast_nonneg m)]
  obtain ⟨m, rfl | rfl⟩ := a.eq_nat_or_neg
  · exact hnonneg m
  · rw [Int.neg_tdiv, ← hnonneg, ← towardZero_neg, Int.cast_neg, neg_div]

theorem towardZero_div (a b : ℤ) : towardZero (a / b) = a.tdiv b := by
  obtain ⟨n, rfl | rfl⟩ := b.eq_nat_or_neg
  · exact_mod_cast towardZero_div_natCast a n
  · rw [Int.tdiv_neg, ← towardZero_div_natCast, ← towardZero_neg, Int.cast_neg, div_neg]
    rfl

def exactDifference (l r : ℤ) : ℤ := clamped (l - r)

/-- The quotient of a scaled sample by another, truncated and brought into range. Where the other
is zero it is the end of the range on the side of the scaled sample. -/
def exactQuotient (factor l r : ℤ) : ℤ :=
  if r = 0 then
    if 0 < l * factor then 2 ^ 63 - 1 else if l * factor < 0 then -2 ^ 63 else 0
  else clamped (towardZero ((l * factor : ℤ) / r))

theorem toInt_saturatingSub (l r : Int64) :
    (saturatingSub l r).toInt = exactDifference l.toInt r.toInt :=
  toInt_saturate_eq_clamped _

theorem toInt_scaledQuotient (l factor r : Int64) :
    (scaledQuotient l factor r).toInt = exactQuotient factor.toInt l.toInt r.toInt := by
  have hzero : r = 0 ↔ r.toInt = 0 := Int64.toInt_inj.symm
  unfold scaledQuotient exactQuotient
  simp only [hzero]
  by_cases hr : r.toInt = 0
  · rw [if_pos hr, if_pos hr]
    by_cases hpos : 0 < l.toInt * factor.toInt
    · rw [if_pos hpos, if_pos hpos]
      rfl
    · rw [if_neg hpos, if_neg hpos]
      by_cases hneg : l.toInt * factor.toInt < 0
      · rw [if_pos hneg, if_pos hneg]
        rfl
      · rw [if_neg hneg, if_neg hneg]
        rfl
  · rw [if_neg hr, if_neg hr, toInt_saturate_eq_clamped, towardZero_div]

/-- A difference is positive exactly if the left sample is the greater one. -/
theorem saturatingSub_pos_iff (l r : Int64) : 0 < saturatingSub l r ↔ r < l := by
  rw [Int64.lt_iff_toInt_lt, Int64.lt_iff_toInt_lt, toInt_saturatingSub, exactDifference, clamped,
    Int64.toInt_zero]
  omega

theorem natAbs_toInt_le (v : Int64) : v.toInt.natAbs ≤ 2 ^ 63 := by
  have hlow := v.le_toInt
  have hhigh := v.toInt_lt
  omega

/-- The products of two samples are far from the range of one hundred and twenty-eight bits. -/
theorem natAbs_product_lt (l factor : Int64) : (l.toInt * factor.toInt).natAbs < 2 ^ 127 := by
  rw [Int.natAbs_mul]
  exact (Nat.mul_le_mul (natAbs_toInt_le l) (natAbs_toInt_le factor)).trans_lt (by norm_num)

theorem natAbs_mul_count_lt (v : Int64) {c : ℕ} (hc : c < UInt64.size) :
    (v.toInt * c).natAbs < 2 ^ 127 := by
  have hsize : UInt64.size = 2 ^ 64 := rfl
  rw [Int.natAbs_mul, Int.natAbs_natCast]
  calc v.toInt.natAbs * c ≤ 2 ^ 63 * c := Nat.mul_le_mul_right c (natAbs_toInt_le v)
    _ < 2 ^ 127 := by omega

/-! ## Draws -/

section Draws

variable {σ : Type} [RankSource σ]

/-- Ranks drawn one after the other, and the state that is left. -/
def drawRanks (n : ℕ) (h : 0 < n) : ℕ → σ → List (Fin n) × σ
  | 0, s => ([], s)
  | m + 1, s =>
    let (rank, s) := RankSource.draw n h s
    let (ranks, s) := drawRanks n h m s
    (rank :: ranks, s)

theorem length_drawRanks (n : ℕ) (h : 0 < n) (m : ℕ) (s : σ) :
    (drawRanks n h m s).1.length = m := by
  induction m generalizing s with
  | zero => rfl
  | succ m ih => exact congrArg (· + 1) (ih _)

namespace Distribution

def drawn (d : Distribution) (m : ℕ) (s : σ) : List Int64 × σ :=
  ((drawRanks d.size d.size_pos m s).1.map d.observationAt, (drawRanks d.size d.size_pos m s).2)

theorem length_drawn (d : Distribution) (m : ℕ) (s : σ) : (d.drawn m s).1.length = m := by
  rw [drawn, List.length_map, length_drawRanks]

/-- The pairs of a left and a right observation that resampling combines: those of the shorter
side in increasing order, the left one on a tie, with as many that are drawn from the longer. -/
def resampledPairs (left right : Distribution) (s : σ) : List (Int64 × Int64) × σ :=
  if left.size ≤ right.size then
    (left.histogram.observations.zip (right.drawn left.size s).1, (right.drawn left.size s).2)
  else
    ((left.drawn right.size s).1.zip right.histogram.observations, (left.drawn right.size s).2)

theorem length_resampledPairs (left right : Distribution) (s : σ) :
    (resampledPairs left right s).1.length = Nat.min left.size right.size := by
  unfold resampledPairs
  split
  · rename_i hle
    rw [List.length_zip, length_drawn, length_observations, Nat.min_self]
    exact (Nat.min_eq_left hle).symm
  · rename_i hgt
    rw [List.length_zip, length_drawn, length_observations, Nat.min_self]
    exact (Nat.min_eq_right (Nat.le_of_not_le hgt)).symm

theorem mem_of_mem_drawn {d : Distribution} {m : ℕ} {s : σ} {v : Int64}
    (h : v ∈ (d.drawn m s).1) : v ∈ d.histogram.observations := by
  obtain ⟨r, -, rfl⟩ := List.mem_map.mp h
  exact d.observationAt_mem r

theorem mem_of_mem_resampledPairs {left right : Distribution} {s : σ} {p : Int64 × Int64}
    (h : p ∈ (resampledPairs left right s).1) :
    p.1 ∈ left.histogram.observations ∧ p.2 ∈ right.histogram.observations := by
  unfold resampledPairs at h
  split at h
  · obtain ⟨hl, hr⟩ := List.of_mem_zip h
    exact ⟨hl, mem_of_mem_drawn hr⟩
  · obtain ⟨hl, hr⟩ := List.of_mem_zip h
    exact ⟨mem_of_mem_drawn hl, hr⟩

end Distribution

namespace Builder

/-- Pairing values with draws is inserting what they combine to with observations drawn before. -/
theorem insertPaired_drawn (d : Distribution) (combine : Int64 → Int64 → Int64) (b : Builder)
    (vs : List Int64) (s : σ) :
    insertPaired d combine b vs s =
      (b.insertAll (List.zipWith combine vs (d.drawn vs.length s).1),
        (d.drawn vs.length s).2) := by
  induction vs generalizing b s with
  | nil => rfl
  | cons v vs ih =>
    rw [insertPaired, d.choose_eq]
    exact ih _ _

/-- What an empty builder holds once the observations of one side are paired with draws. -/
theorem insertPaired_observations {b : Builder} (h : b.isEmpty = true) (d paired : Distribution)
    (combine : Int64 → Int64 → Int64) (s : σ) :
    (insertPaired d combine b paired.histogram.observations s).1.histogram.observations.Perm
        (List.zipWith combine paired.histogram.observations (d.drawn paired.size s).1) ∧
      (insertPaired d combine b paired.histogram.observations s).2 = (d.drawn paired.size s).2 := by
  rw [insertPaired_drawn, paired.length_observations]
  exact ⟨observations_insertAll_of_isEmpty h _, rfl⟩

/-- **Resampling gives the distribution of the combined pairs**, and takes one draw for each. -/
theorem resample_pairs {b : Builder} (h : b.isEmpty = true) (left right : Distribution)
    (combine : Int64 → Int64 → Int64) (s : σ) :
    ∃ d, b.resample left right combine s =
        .ok (d, (Distribution.resampledPairs left right s).2) ∧
      d.histogram.observations.Perm
        ((Distribution.resampledPairs left right s).1.map fun p => combine p.1 p.2) := by
  unfold resample Distribution.resampledPairs
  rw [h, if_neg (by decide)]
  split
  · obtain ⟨hperm, hstate⟩ := insertPaired_observations h right left combine s
    refine ⟨_, congrArg Except.ok (Prod.ext rfl hstate), ?_⟩
    rw [observations_finish]
    exact hperm.trans (.of_eq List.map_uncurry_zip_eq_zipWith.symm)
  · obtain ⟨hperm, hstate⟩ := insertPaired_observations h left right (fun v w => combine w v) s
    refine ⟨_, congrArg Except.ok (Prod.ext rfl hstate), ?_⟩
    rw [observations_finish]
    rw [List.zipWith_comm] at hperm
    exact hperm.trans (.of_eq List.map_uncurry_zip_eq_zipWith.symm)

theorem resample_not_isEmpty {b : Builder} (h : b.isEmpty = false) (left right : Distribution)
    (combine : Int64 → Int64 → Int64) (s : σ) :
    b.resample left right combine s = .error .builderNotEmpty := by
  unfold resample
  rw [h]
  rfl

/-- **Differences and quotients are resampled exactly.** A builder that is not empty is refused.
From an empty one, whatever its buffer holds, there is always a result, one draw is made for each
observation of the shorter side, and the result has the exact differences or quotients of the
pairs as its observations, which the words have room for. Among the differences as many are
positive as there are pairs whose left sample is the greater one. -/
theorem resampling_exact (b : Builder) (left right : Distribution) (factor : Int64) (s : σ) :
    (b.isEmpty = false →
      b.subtract left right s = .error .builderNotEmpty ∧
      b.scaledDiv left factor right s = .error .builderNotEmpty) ∧
    (b.isEmpty = true → ∃ difference quotient,
      b.subtract left right s = .ok (difference, (Distribution.resampledPairs left right s).2) ∧
      b.scaledDiv left factor right s =
        .ok (quotient, (Distribution.resampledPairs left right s).2) ∧
      (difference.histogram.observations.map Int64.toInt).Perm
        ((Distribution.resampledPairs left right s).1.map fun p =>
          exactDifference p.1.toInt p.2.toInt) ∧
      (quotient.histogram.observations.map Int64.toInt).Perm
        ((Distribution.resampledPairs left right s).1.map fun p =>
          exactQuotient factor.toInt p.1.toInt p.2.toInt) ∧
      difference.histogram.observations.countP (fun v => decide (0 < v)) =
        (Distribution.resampledPairs left right s).1.countP (fun p => decide (p.2 < p.1)) ∧
      difference.size = Nat.min left.size right.size ∧
      quotient.size = Nat.min left.size right.size) ∧
    (∀ p ∈ (Distribution.resampledPairs left right s).1,
      (p.1.toInt * factor.toInt).natAbs < 2 ^ 127) := by
  refine ⟨fun h => ?_, fun h => ?_, fun p _ => natAbs_product_lt p.1 factor⟩
  · exact ⟨resample_not_isEmpty h _ _ _ _, resample_not_isEmpty h _ _ _ _⟩
  · obtain ⟨difference, hdifference, hdperm⟩ := resample_pairs h left right saturatingSub s
    obtain ⟨quotient, hquotient, hqperm⟩ :=
      resample_pairs h left right (scaledQuotient · factor ·) s
    have hdlen := hdperm.length_eq
    have hqlen := hqperm.length_eq
    rw [List.length_map, Distribution.length_observations,
      Distribution.length_resampledPairs] at hdlen hqlen
    refine ⟨difference, quotient, hdifference, hquotient, ?_, ?_, ?_, hdlen, hqlen⟩
    · have hmap := hdperm.map Int64.toInt
      rw [List.map_map] at hmap
      exact hmap.trans (.of_eq (List.map_congr_left fun p _ => toInt_saturatingSub p.1 p.2))
    · have hmap := hqperm.map Int64.toInt
      rw [List.map_map] at hmap
      exact hmap.trans (.of_eq (List.map_congr_left fun p _ => toInt_scaledQuotient p.1 factor p.2))
    · rw [hdperm.countP_eq, List.countP_map]
      exact List.countP_congr fun p _ => by
        simp only [Function.comp_apply, decide_eq_true_eq]
        exact saturatingSub_pos_iff p.1 p.2

end Builder
end Draws
end TimingStats
