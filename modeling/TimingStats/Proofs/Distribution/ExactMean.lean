import TimingStats.Proofs.Accumulator.Conversion
import TimingStats.Proofs.Binary64.Quotients
import TimingStats.Proofs.Distribution.Resampling
import TimingStats.Proofs.Distribution.Summaries

/-! # The total behind a mean

A value of sixty-four bits times a count of sixty-four bits has a product of a hundred and
twenty-eight. It is taken apart by masks and by shifts that keep the sign, so the lower parts are
never negative and the highest has the sign of the product. Each part is a double without rounding,
and they add up to the product. So the total of a distribution is the integer sum of its
observations, and the mean is rounded from that sum and the number of observations alone. -/

namespace TimingStats

open Binary64

/-! ## Products in 128 bits -/

/-- The product of a value and a count in 128 bits. -/
def wideProduct (v : Int64) (c : UInt64) : BitVec 128 :=
  v.toBitVec.signExtend 128 * c.toBitVec.setWidth 128

def maskLimb (p : BitVec 128) : BitVec 128 := p &&& (2 ^ 48 - 1)

/-- The parts of a number in 128 bits, by masks and by shifts that keep the sign. -/
def maskedLimbs (p : BitVec 128) : List Float :=
  [Float.ofInt (maskLimb p).toInt,
    Float.ofInt (maskLimb (p.sshiftRight 48)).toInt * powerOfTwo 48,
    Float.ofInt (p.sshiftRight 96).toInt * powerOfTwo 96]

theorem toInt_maskLimb (p : BitVec 128) : (maskLimb p).toInt = p.toInt % 2 ^ 48 := by
  have hnat : (maskLimb p).toNat = p.toNat % 2 ^ 48 := by
    rw [maskLimb, BitVec.toNat_and]
    exact Nat.and_two_pow_sub_one_eq_mod p.toNat 48
  have hlt := Nat.mod_lt p.toNat (Nat.two_pow_pos 48)
  rw [BitVec.toInt_eq_toNat_of_lt (by omega), hnat, BitVec.toInt_eq_toNat_cond p]
  split <;> omega

theorem toInt_shift (p : BitVec 128) (k : ℕ) : (p.sshiftRight k).toInt = p.toInt / 2 ^ k := by
  rw [BitVec.toInt_sshiftRight, Int.shiftRight_eq_div_pow]
  norm_cast

theorem toInt_wideProduct (v : Int64) (c : UInt64) :
    (wideProduct v c).toInt = v.toInt * c.toNat := by
  have hlt := natAbs_mul_count_lt v c.toNat_lt
  have hc := c.toNat_lt
  have hcount : (c.toBitVec.setWidth 128).toInt = c.toNat := by
    rw [BitVec.toInt_setWidth, UInt64.toNat_toBitVec]
    exact Int.bmod_eq_of_le (by omega) (by omega)
  rw [wideProduct, BitVec.toInt_mul, BitVec.toInt_signExtend_of_le (by norm_num),
    Int64.toInt_toBitVec, hcount]
  exact Int.bmod_eq_of_le (by omega) (by omega)

namespace Distribution

/-- Masks and shifts take a number apart as remainders and quotients do. -/
theorem limbs_toInt (p : BitVec 128) : limbs p.toInt = maskedLimbs p := by
  have hhigh : p.toInt / 2 ^ 96 = p.toInt / limbBase / limbBase := by
    unfold limbBase
    omega
  rw [maskedLimbs, toInt_maskLimb, toInt_maskLimb, toInt_shift, toInt_shift, hhigh]
  rfl

/-! ## The parts of an integer -/

/-- What the parts of an integer stand for. -/
def limbParts (n : ℤ) : List ℤ :=
  [n % limbBase, n / limbBase % limbBase * 2 ^ 48, n / limbBase / limbBase * 2 ^ 96]

theorem sum_limbParts (n : ℤ) : (limbParts n).sum = n := by
  simp only [limbParts, List.sum_cons, List.sum_nil]
  unfold limbBase
  omega

/-- The two places above the lowest. -/
theorem powerOfTwo_value : ∀ k ∈ [48, 96],
    isFinite (powerOfTwo (k : ℕ)) = true ∧ toRat (powerOfTwo (k : ℕ)) = 2 ^ k := by
  have hunits : ∀ k ∈ [48, 96], isFinite (powerOfTwo (k : ℕ)) = true ∧
      units (powerOfTwo (k : ℕ)) = 2 ^ k * 2 ^ 1074 := by decide +kernel
  intro k hk
  obtain ⟨hf, hu⟩ := hunits k hk
  refine ⟨hf, ?_⟩
  rw [toRat_eq_units, hu, Int.cast_mul, mul_assoc, zpow_neg, Int.cast_pow, Int.cast_pow,
    Int.cast_ofNat]
  norm_num

/-- A part that is moved to its place is not rounded. -/
theorem placed_value {m : ℤ} (hm : |m| ≤ 2 ^ 53) {k : ℕ} (hk : k ∈ [48, 96]) :
    isFinite (Float.ofInt m * powerOfTwo k) = true ∧
      toRat (Float.ofInt m * powerOfTwo k) = (m * 2 ^ k : ℤ) := by
  obtain ⟨hmf, hmv⟩ := ofInt_value hm
  obtain ⟨hpf, hpv⟩ := powerOfTwo_value k hk
  have hmul := mul_rounds hmf hpf
  rw [hmv, hpv] at hmul
  have hrep : Representable ((m : ℚ) * 2 ^ k) := by
    exact_mod_cast representable_mul_zpow hm (e := k) (by omega)
  have hle : |(m : ℚ) * 2 ^ k| ≤ 2 ^ 149 := by
    have hmq : |(m : ℚ)| ≤ 2 ^ 53 := by exact_mod_cast hm
    have hk96 : k ≤ 96 := (by decide : ∀ k ∈ [48, 96], k ≤ 96) k hk
    rw [abs_mul, abs_of_pos (show (0 : ℚ) < 2 ^ k by positivity)]
    calc |(m : ℚ)| * 2 ^ k ≤ 2 ^ 53 * 2 ^ 96 :=
          mul_le_mul hmq (pow_le_pow_right₀ one_le_two hk96) (by positivity) (by positivity)
      _ = 2 ^ 149 := by norm_num
  obtain ⟨hf, hval⟩ := hmul.finite_of_le hle (by norm_num)
  exact ⟨hf, by rw [hval, hrep]; push_cast; rfl⟩

/-- The parts of an integer that 128 bits hold are doubles without rounding. -/
theorem limbs_value {n : ℤ} (hn : n.natAbs < 2 ^ 127) :
    (∀ x ∈ limbs n, isFinite x = true) ∧ (limbs n).map toRat = (limbParts n).map Int.cast := by
  have hlow : |n % limbBase| ≤ 2 ^ 53 := abs_le.mpr (by unfold limbBase; omega)
  have hmid : |n / limbBase % limbBase| ≤ 2 ^ 53 := abs_le.mpr (by unfold limbBase; omega)
  have hhigh : |n / limbBase / limbBase| ≤ 2 ^ 53 := abs_le.mpr (by unfold limbBase; omega)
  obtain ⟨hf0, hv0⟩ := ofInt_value hlow
  obtain ⟨hf1, hv1⟩ := placed_value hmid (k := 48) (by decide)
  obtain ⟨hf2, hv2⟩ := placed_value hhigh (k := 96) (by decide)
  constructor
  · simp only [limbs, List.forall_mem_cons, List.not_mem_nil, false_imp_iff, implies_true, and_true]
    exact ⟨hf0, hf1, hf2⟩
  · simp only [limbs, limbParts, List.map_cons, List.map_nil]
    rw [hv0]
    exact congrArg₂ _ rfl (congrArg₂ _ hv1 (congrArg₂ _ hv2 rfl))

theorem total_limbs {n : ℤ} (hn : n.natAbs < 2 ^ 127) : Accumulator.total (limbs n) = n := by
  rw [Accumulator.total, (limbs_value hn).2, ← Int.cast_list_sum, sum_limbParts]

/-- What holds of the three doubles that a value and its count add to a total. -/
structure ExactLimbs (v : Int64) (c : UInt64) : Prop where
  product : (wideProduct v c).toInt = v.toInt * c.toNat
  masked : limbs (v.toInt * c.toNat) = maskedLimbs (wideProduct v c)
  finite : ∀ x ∈ limbs (v.toInt * c.toNat), isFinite x = true
  exact : (limbs (v.toInt * c.toNat)).map toRat = (limbParts (v.toInt * c.toNat)).map Int.cast
  sum : Accumulator.total (limbs (v.toInt * c.toNat)) = (v.toInt * c.toNat : ℤ)

theorem exactLimbs (v : Int64) (c : UInt64) : ExactLimbs v c := by
  have hproduct := toInt_wideProduct v c
  have hlt := natAbs_mul_count_lt v c.toNat_lt
  obtain ⟨hfinite, hexact⟩ := limbs_value hlt
  exact ⟨hproduct, by rw [← hproduct, limbs_toInt], hfinite, hexact, total_limbs hlt⟩

/-! ## The total of a distribution -/

/-- The integer sum of all observations, bin by bin. -/
def sum (d : Distribution) : ℤ := (d.bins.map fun b => b.value.toInt * (b.count : ℤ)).sum

theorem sum_observations (d : Distribution) :
    (d.histogram.observations.map Int64.toInt).sum = d.sum := by
  change ((Histogram.observed d.bins).map Int64.toInt).sum = _
  unfold Histogram.observed sum
  induction d.bins with
  | nil => rfl
  | cons b bs ih =>
    rw [List.flatMap_cons, List.map_append, List.sum_append, ih, List.map_replicate,
      List.sum_replicate, List.map_cons, List.sum_cons, nsmul_eq_mul, mul_comm]

theorem total_flatMap_limbs {bs : List Bin} (hcount : ∀ b ∈ bs, b.count < UInt64.size) :
    Accumulator.total (bs.flatMap fun b => limbs (b.value.toInt * b.count)) =
      ((bs.map fun b => b.value.toInt * (b.count : ℤ)).sum : ℤ) := by
  induction bs with
  | nil => rfl
  | cons b bs ih =>
    obtain ⟨hb, hbs⟩ := List.forall_mem_cons.mp hcount
    rw [List.flatMap_cons, Accumulator.total_append, total_limbs (natAbs_mul_count_lt b.value hb),
      ih hbs, List.map_cons, List.sum_cons, Int.cast_add]

/-- The accumulator that the bins are added to ends in the canonical state of the sum. -/
theorem total_canonical (d : Distribution) (h : d.size < UInt64.size) :
    ∃ a, d.total = .ok a ∧ a.Canonical ∧ (d.sum : ℚ) = a.value * 2 ^ (-1074 : ℤ) := by
  obtain ⟨a, ha⟩ := d.total_ok
  refine ⟨a, ha, ?_⟩
  rw [total, foldlM_addAll] at ha
  obtain ⟨hcanonical, hvalue⟩ := Accumulator.zero_canonical.addAll_of_ok _ ha
  refine ⟨hcanonical, ?_⟩
  rw [hvalue, Accumulator.zero_value, zero_add, ← Accumulator.total_eq, total_flatMap_limbs, sum]
  exact fun b hb => Nat.lt_of_le_of_lt (d.count_le_size hb) h

theorem mean_eq {d : Distribution} {a : Accumulator} (ha : d.total = .ok a) :
    d.mean = .ok (a.toFloat / Float.ofNat d.size) := by
  rw [mean, ha]
  rfl

/-- **The mean is formed from an exact total**, whatever the values and counts are. -/
theorem mean_exact (d : Distribution) (h : d.size < UInt64.size) :
    (∀ v c, ExactLimbs v c) ∧ (∀ b ∈ d.bins, b.count < UInt64.size) ∧
    (d.histogram.observations.map Int64.toInt).sum = d.sum ∧
    ∃ a, d.total = .ok a ∧ a.Holds d.sum ∧ d.mean = .ok (a.toFloat / Float.ofNat d.size) ∧
      ∀ e : Distribution, e.size = d.size → e.sum = d.sum → e.mean = d.mean := by
  obtain ⟨a, ha, hcanonical, hsum⟩ := total_canonical d h
  refine ⟨exactLimbs, fun b hb => Nat.lt_of_le_of_lt (d.count_le_size hb) h, sum_observations d,
    a, ha, hcanonical.holds hsum, mean_eq ha, fun e hsize heq => ?_⟩
  obtain ⟨b, hb, hcanonical', hsum'⟩ := total_canonical e (hsize ▸ h)
  have hvalue : b.value = a.value := by
    rw [heq, hsum] at hsum'
    exact_mod_cast (mul_right_cancel₀ Accumulator.scale_pos.ne' hsum').symm
  rw [mean_eq ha, mean_eq hb, hsize, hcanonical'.eq_of_value_eq hcanonical hvalue]

/-- The least sample three times and the greatest once. -/
def bothEnds : Distribution :=
  (Builder.new.insertAll [Int64.minValue, Int64.maxValue, Int64.minValue, Int64.minValue]).finish
    (by decide +kernel)

/-- The product of the least sample is negative and leaves positive parts; the greatest product of
all is taken apart besides. -/
theorem mean_exact_bothEnds :
    bothEnds.size < UInt64.size ∧ ExactLimbs Int64.minValue 3 ∧
      ExactLimbs Int64.minValue 18446744073709551615 ∧
      ∃ a, bothEnds.total = .ok a ∧ a.Holds (-18446744073709551617) ∧
        bothEnds.mean = .ok (a.toFloat / Float.ofNat 4) ∧
        bothEnds.mean = .ok (-4611686018427387904) := by
  have hsize : bothEnds.size = 4 := by decide +kernel
  have hlt : bothEnds.size < UInt64.size := by
    rw [hsize]
    decide
  have hsum : bothEnds.sum = -18446744073709551617 := by decide +kernel
  obtain ⟨hlimbs, -, -, a, ha, hholds, hmean, -⟩ := mean_exact bothEnds hlt
  rw [hsum] at hholds
  rw [hsize] at hmean
  have hvalue : bothEnds.mean.toOption = some (-4611686018427387904) := by decide +kernel
  rw [hmean] at hvalue
  exact ⟨hlt, hlimbs _ _, hlimbs _ _, a, ha, by exact_mod_cast hholds, hmean,
    hmean.trans (congrArg Except.ok (Option.some.inj hvalue))⟩

end Distribution
end TimingStats
