import TimingStats.Proofs.Binary64.Order
import TimingStats.Proofs.Binary64.RelativeError
import TimingStats.Proofs.Distribution.ExactMean
import TimingStats.Proofs.Distribution.Queries

/-! # Figures and the data

The total of a distribution is exact, but it is rounded to a double before it is divided, and so is
the number of observations. The mean is as near to the exact one as three roundings allow. If the
number of observations is a double, and the total is one too or the totals at both ends are, then
the mean lies within the data. Otherwise it may leave them, and equal observations seem to vary. The
median always lies within the data. -/

namespace TimingStats

open Binary64

namespace Binary64

/-! ## The middle of two integers -/

/-- Half of a rounded distance of integers is not rounded again, and is no longer than the distance
itself. -/
theorem half_distance {q : ℤ} (h : 0 ≤ q) : Representable (rounded q / 2) ∧
    0 ≤ rounded q / 2 ∧ rounded q / 2 ≤ q := by
  rcases h.eq_or_lt with rfl | hpos
  · rw [Int.cast_zero, rounded_zero, zero_div]
    exact ⟨representable_zero, le_rfl, le_rfl⟩
  · have hone : (1 : ℚ) ≤ q := by exact_mod_cast hpos
    have hrone := representable_one.le_rounded hone
    have hplace : -52 ≤ lastPlace |rounded q| :=
      le_lastPlace (k := 0) (by rwa [abs_of_nonneg (by linarith), zpow_zero])
    have hhalf := (representable_rounded q).mul_two_zpow (j := -1) (by omega)
    rw [zpow_neg_one, ← div_eq_mul_inv] at hhalf
    have herror := abs_rounded_sub_le (q := q)
      ((zpow_le_one_of_nonpos₀ one_le_two (by norm_num)).trans hone)
    exact ⟨hhalf, by linarith, by linarith [(abs_le.mp herror).2]⟩

/-- The point halfway from an integer to a greater one lies between them. -/
theorem midpoint_between {l h : ℤ} (hl : |l| ≤ 2 ^ 53) (hh : |h| ≤ 2 ^ 53) (hle : l ≤ h) :
    isFinite (Float.ofInt l + (Float.ofInt h - Float.ofInt l) / 2) = true ∧
      l ≤ toRat (Float.ofInt l + (Float.ofInt h - Float.ofInt l) / 2) ∧
      toRat (Float.ofInt l + (Float.ofInt h - Float.ofInt l) / 2) ≤ h := by
  obtain ⟨hlf, hlv⟩ := ofInt_value hl
  obtain ⟨hhf, hhv⟩ := ofInt_value hh
  obtain ⟨hhalf, hhalf0, hhalfle⟩ := half_distance (sub_nonneg.mpr hle)
  rw [Int.cast_sub] at hhalf hhalf0 hhalfle
  obtain ⟨hl1, hl2⟩ := abs_le.mp (show |(l : ℚ)| ≤ 2 ^ 53 by exact_mod_cast hl)
  obtain ⟨hh1, hh2⟩ := abs_le.mp (show |(h : ℚ)| ≤ 2 ^ 53 by exact_mod_cast hh)
  have hsub := sub_rounds hhf hlf
  rw [hhv, hlv] at hsub
  obtain ⟨hsf, hsv⟩ := hsub.finite_of_le (k := 54) (abs_le.mpr ⟨by linarith, by linarith⟩)
    (by norm_num)
  have hdiv := div_rounds hsf two_value.1 (by rw [two_value.2]; norm_num)
  rw [hsv, two_value.2] at hdiv
  obtain ⟨hdf, hdv⟩ := hdiv.finite_of_nonneg (k := 54) hhalf0 (by linarith) (by norm_num)
  have hadd := add_rounds hlf hdf
  rw [hlv, hdv, hhalf] at hadd
  obtain ⟨hf, hv⟩ := hadd.finite_of_le (k := 54) (abs_le.mpr ⟨by linarith, by linarith⟩)
    (by norm_num)
  rw [hv]
  exact ⟨hf, (representable_intCast hl).le_rounded (by linarith),
    (representable_intCast hh).rounded_le (by linarith)⟩

end Binary64

namespace Distribution

variable {d : Distribution} {x : Float} {v : Int64}

/-- A figure lies between the least observation and the greatest, read as doubles. -/
structure Encloses (d : Distribution) (x : Float) : Prop where
  finite : isFinite x = true
  low : Float.ofInt d.min.toInt ≤ x
  high : x ≤ Float.ofInt d.max.toInt

/-- The number of observations is a double, and so is their total, or what it would be if all
observations were equal to the least and what it would be if they were equal to the greatest. -/
structure RoundsWithin (d : Distribution) : Prop where
  size : Representable d.size
  total : Representable d.sum ∨
    Representable (d.size * d.min.toInt) ∧ Representable (d.size * d.max.toInt)

def Constant (d : Distribution) (v : Int64) : Prop := ∀ w ∈ d.histogram.observations, w = v

/-- What is assumed of the observations: a double holds any integer between them. -/
def Holdable (d : Distribution) : Prop := ∀ v ∈ d.histogram.observations, |v.toInt| ≤ 2 ^ 53

theorem encloses_of_value (hd : d.Holdable) (hx : isFinite x = true)
    (hlow : (d.min.toInt : ℚ) ≤ toRat x) (hhigh : toRat x ≤ d.max.toInt) : d.Encloses x := by
  obtain ⟨hmin, hmax, -⟩ := d.observations_between
  obtain ⟨hlf, hlv⟩ := ofInt_value (hd _ hmin)
  obtain ⟨hhf, hhv⟩ := ofInt_value (hd _ hmax)
  exact ⟨hx, by rwa [le_iff hlf hx, hlv], by rwa [le_iff hx hhf, hhv]⟩

/-! ## The median -/

theorem Holdable.valueAt (hd : d.Holdable) (r : Fin d.size) : |(d.valueAt r).toInt| ≤ 2 ^ 53 :=
  hd _ (by
    rw [valueAt_eq]
    exact d.observationAt_mem r)

theorem toInt_valueAt_between (d : Distribution) (r : Fin d.size) :
    (d.min.toInt : ℚ) ≤ (d.valueAt r).toInt ∧ ((d.valueAt r).toInt : ℚ) ≤ d.max.toInt :=
  ⟨by exact_mod_cast Int64.le_iff_toInt_le.mp (d.min_le_valueAt r),
    by exact_mod_cast Int64.le_iff_toInt_le.mp (d.valueAt_le_max r)⟩

theorem valueAt_encloses (hd : d.Holdable) (r : Fin d.size) :
    d.Encloses (Float.ofInt (d.valueAt r).toInt) := by
  obtain ⟨hlow, hhigh⟩ := d.toInt_valueAt_between r
  obtain ⟨hf, hv⟩ := ofInt_value (hd.valueAt r)
  exact encloses_of_value hd hf (hv ▸ hlow) (hv ▸ hhigh)

theorem halfway_encloses (hd : d.Holdable) {r s : Fin d.size} (hle : r ≤ s) :
    d.Encloses (Float.ofInt (d.valueAt r).toInt +
      (Float.ofInt (d.valueAt s).toInt - Float.ofInt (d.valueAt r).toInt) / 2) := by
  obtain ⟨hf, hlow, hhigh⟩ := midpoint_between (hd.valueAt r) (hd.valueAt s)
    (Int64.le_iff_toInt_le.mp (d.valueAt_mono hle))
  exact encloses_of_value hd hf ((d.toInt_valueAt_between r).1.trans hlow)
    (hhigh.trans (d.toInt_valueAt_between s).2)

theorem median_encloses (hd : d.Holdable) : d.Encloses d.median := by
  unfold median
  dsimp only
  split
  · exact halfway_encloses hd (Fin.le_def.mpr (Nat.sub_le _ _))
  · exact valueAt_encloses hd _

/-! ## The mean -/

/-- The total lies between those of as many observations at either end. -/
theorem sum_between (d : Distribution) : (d.size * d.min.toInt : ℚ) ≤ d.sum ∧
    (d.sum : ℚ) ≤ d.size * d.max.toInt := by
  obtain ⟨-, -, hall⟩ := d.observations_between
  have hlen : (d.histogram.observations.map Int64.toInt).length = d.size := by
    rw [List.length_map, length_observations]
  have hlow := List.card_nsmul_le_sum (d.histogram.observations.map Int64.toInt) d.min.toInt
    fun _ hmem => by
      obtain ⟨v, hv, rfl⟩ := List.mem_map.mp hmem
      exact Int64.le_iff_toInt_le.mp (hall v hv).1
  have hhigh := List.sum_le_card_nsmul (d.histogram.observations.map Int64.toInt) d.max.toInt
    fun _ hmem => by
      obtain ⟨v, hv, rfl⟩ := List.mem_map.mp hmem
      exact Int64.le_iff_toInt_le.mp (hall v hv).2
  rw [hlen, sum_observations, nsmul_eq_mul] at hlow hhigh
  exact ⟨by exact_mod_cast hlow, by exact_mod_cast hhigh⟩

theorem abs_sum_le (d : Distribution) (h : d.size < UInt64.size) : |(d.sum : ℚ)| ≤ 2 ^ 127 := by
  obtain ⟨hlow, hhigh⟩ := d.sum_between
  have hn : (d.size : ℚ) ≤ 2 ^ 64 := by exact_mod_cast h.le
  have hmin : -(2 ^ 63 : ℚ) ≤ d.min.toInt := by exact_mod_cast d.min.le_toInt
  have hmax : (d.max.toInt : ℚ) ≤ 2 ^ 63 := by exact_mod_cast d.max.toInt_lt.le
  have hn0 : (0 : ℚ) ≤ d.size := Nat.cast_nonneg _
  have hspan : (d.size : ℚ) * 2 ^ 63 ≤ 2 ^ 127 :=
    (mul_le_mul_of_nonneg_right hn (by positivity)).trans_eq (by norm_num)
  have hleast := mul_le_mul_of_nonneg_left hmin hn0
  have hgreatest := mul_le_mul_of_nonneg_left hmax hn0
  exact abs_le.mpr ⟨by linarith, by linarith⟩

theorem one_le_rounded_size (d : Distribution) : 1 ≤ rounded d.size :=
  representable_one.le_rounded (by exact_mod_cast d.size_pos)

/-- The mean is a faithful result for the total, divided by the rounded number of observations. -/
theorem mean_value (h : d.size < UInt64.size) : ∃ m t, d.mean = .ok m ∧ Faithful t d.sum ∧
    isFinite m = true ∧ toRat m = rounded (t / rounded d.size) := by
  obtain ⟨a, ha, hcanonical, hsum⟩ := d.total_canonical h
  obtain ⟨t, ht, hrounds⟩ := hcanonical.exists_faithful
  rw [← hsum] at ht
  have hpow : Representable (2 ^ 127) := by
    exact_mod_cast representable_two_zpow (e := 127) (by norm_num)
  obtain ⟨hslow, hshigh⟩ := abs_le.mp (d.abs_sum_le h)
  have htle : |t| ≤ 2 ^ 127 :=
    abs_le.mpr ⟨ht.below _ hpow.neg hslow, ht.above _ hpow hshigh⟩
  obtain ⟨haf, hav⟩ := ht.finite hrounds
    (htle.trans_lt (pow_lt_pow_right₀ one_lt_two (by norm_num)))
  obtain ⟨hnf, hnv⟩ := ofNat_word_value h
  have hone := d.one_le_rounded_size
  have hpos : 0 < rounded d.size := one_pos.trans_le hone
  have hdiv := div_rounds haf hnf (by rw [hnv]; exact hpos.ne')
  rw [hav, hnv] at hdiv
  have hquotient : |t / rounded d.size| ≤ 2 ^ 127 := by
    rw [abs_div, abs_of_pos hpos, div_le_iff₀ hpos]
    exact htle.trans (le_mul_of_one_le_right (by positivity) hone)
  obtain ⟨hf, hv⟩ := hdiv.finite_of_le hquotient (by norm_num)
  exact ⟨_, t, mean_eq ha, ht, hf, hv⟩

/-- The mean is off by no more than three roundings. -/
theorem abs_mean_sub_le (h : d.size < UInt64.size) {t : ℚ} (ht : Faithful t d.sum) :
    |rounded (t / rounded d.size) - d.sum / d.size| ≤ |(d.sum : ℚ) / d.size| / 2 ^ 50 := by
  have hone : (1 : ℚ) ≤ d.size := by exact_mod_cast d.size_pos
  have hn64 : (d.size : ℚ) ≤ 2 ^ 64 := by exact_mod_cast h.le
  have hsmall : (2 : ℚ) ^ (-1021 : ℤ) ≤ 2 ^ (-66 : ℤ) :=
    zpow_le_zpow_right₀ one_le_two (by norm_num)
  rcases eq_or_ne d.sum 0 with hzero | hne
  · rw [hzero, Int.cast_zero] at ht ⊢
    rw [ht.eq_of_representable representable_zero, zero_div, zero_div, rounded_zero, sub_zero,
      abs_zero, zero_div]
  have hsum : (1 : ℚ) ≤ |(d.sum : ℚ)| := by exact_mod_cast Int.one_le_abs hne
  have hs := ht.abs_sub_le (hsmall.trans (le_trans (by norm_num) hsum))
  have hr := abs_rounded_sub_le (q := d.size) (hsmall.trans (le_trans (by norm_num) hone))
  refine abs_sub_div_le (by linarith) hs hr ((faithful_rounded _).abs_sub_le ?_)
  -- half an observation among 2^65 of them
  have hrone := d.one_le_rounded_size
  have hrhigh : rounded d.size ≤ 2 ^ 65 := by linarith [(abs_le.mp hr).2]
  have htlow : 1 / 2 ≤ |t| := by
    have hback := abs_sub_abs_le_abs_sub (d.sum : ℚ) t
    rw [abs_sub_comm] at hback
    linarith
  rw [abs_div, abs_of_pos (one_pos.trans_le hrone), le_div_iff₀ (one_pos.trans_le hrone)]
  calc (2 : ℚ) ^ (-1021 : ℤ) * rounded d.size ≤ 2 ^ (-66 : ℤ) * 2 ^ 65 :=
        mul_le_mul hsmall hrhigh (by linarith) (by positivity)
    _ = 1 / 2 := by norm_num
    _ ≤ |t| := htlow

/-- Where rounding keeps the total within those at the ends, the mean is within the data. -/
theorem RoundsWithin.mean_between (hd : d.Holdable) (hw : d.RoundsWithin) {t : ℚ}
    (ht : Faithful t d.sum) : (d.min.toInt : ℚ) ≤ rounded (t / rounded d.size) ∧
      rounded (t / rounded d.size) ≤ d.max.toInt := by
  obtain ⟨hmin, hmax, -⟩ := d.observations_between
  obtain ⟨hlow, hhigh⟩ := d.sum_between
  have hpos : (0 : ℚ) < d.size := by exact_mod_cast d.size_pos
  obtain ⟨htlow, hthigh⟩ : (d.size * d.min.toInt : ℚ) ≤ t ∧ t ≤ d.size * d.max.toInt := by
    rcases hw.total with hsum | ⟨hrlow, hrhigh⟩
    · rw [ht.eq_of_representable hsum]
      exact ⟨hlow, hhigh⟩
    · exact ⟨ht.below _ hrlow hlow, ht.above _ hrhigh hhigh⟩
  rw [hw.size]
  refine ⟨(representable_intCast (hd _ hmin)).le_rounded ?_,
    (representable_intCast (hd _ hmax)).rounded_le ?_⟩
  · rwa [le_div_iff₀ hpos, mul_comm]
  · rwa [div_le_iff₀ hpos, mul_comm]

/-! ## Equal observations -/

theorem Constant.ends (hc : d.Constant v) : d.min = v ∧ d.max = v := by
  obtain ⟨hmin, hmax, -⟩ := d.observations_between
  exact ⟨hc _ hmin, hc _ hmax⟩

theorem Constant.value_of_encloses (hd : d.Holdable) (hc : d.Constant v) (hx : d.Encloses x) :
    toRat x = v.toInt := by
  obtain ⟨hmin, hmax⟩ := hc.ends
  obtain ⟨hvf, hvv⟩ := ofInt_value (hd _ (hmin ▸ d.observations_between.1))
  have hlow := hx.low
  have hhigh := hx.high
  rw [hmin, le_iff hvf hx.finite, hvv] at hlow
  rw [hmax, le_iff hx.finite hvf, hvv] at hhigh
  exact le_antisymm hhigh hlow

/-- Around their own value, the squared distances of equal observations are zero. -/
theorem Constant.squaredDistances_eq (hd : d.Holdable) (h : d.size < UInt64.size)
    (hc : d.Constant v) {m : Float} (hm : isFinite m = true) (hmv : toRat m = v.toInt) :
    ∀ x ∈ d.squaredDistances m, toRat x = 0 := by
  intro x hx
  obtain ⟨b, hb, rfl⟩ := List.mem_map.mp hx
  have hmem := d.mem_observations.mpr ⟨b, hb, rfl⟩
  obtain ⟨hvf, hvv⟩ := ofInt_value (hd _ hmem)
  have hdistance := sub_rounds hvf hm
  rw [hvv, hmv, hc _ hmem, sub_self] at hdistance
  obtain ⟨hdf, hdv⟩ := hdistance.value_zero
  have hsquare := mul_rounds hdf hdf
  rw [hdv, mul_zero] at hsquare
  obtain ⟨hsf, hsv⟩ := hsquare.value_zero
  obtain ⟨hcf, -⟩ := ofNat_word_value (Nat.lt_of_le_of_lt (d.count_le_size hb) h)
  have hproduct := mul_rounds hcf hsf
  rw [hsv, mul_zero] at hproduct
  exact (hc _ hmem) ▸ hproduct.value_zero.2

/-- Around their own value, equal observations do not deviate. -/
theorem Constant.deviation_eq (hd : d.Holdable) (h : d.size < UInt64.size) (hc : d.Constant v)
    {m : Float} (hm : isFinite m = true) (hmv : toRat m = v.toInt) : d.deviation m = .ok 0 := by
  unfold deviation
  split
  · rfl
  rename_i hmany
  have hlen : (d.squaredDistances m).length ≤ 2 ^ 77 := by
    rw [squaredDistances, List.length_map]
    exact (length_le_of_increasing d.sorted.increasing).trans (by decide)
  obtain ⟨hnf, hnv⟩ := ofNat_word_value (n := d.size - 1) (by omega)
  have hpos : 0 < toRat (Float.ofNat (d.size - 1)) := by
    rw [hnv]
    refine one_pos.trans_le (representable_one.le_rounded ?_)
    exact_mod_cast (by omega : 1 ≤ d.size - 1)
  have hsqrt : Float.sqrt 0 = 0 := by decide +kernel
  rw [Accumulator.exactSum_zeros hlen (hc.squaredDistances_eq hd h hm hmv)]
  change Except.ok ((0 : Float) / Float.ofNat (d.size - 1)).sqrt = _
  rw [zero_div_of_pos hnf hpos, hsqrt]

end Distribution

/-- Without a deviation there is no variation, whatever the mean is. -/
theorem Summary.coefficientOfVariation_eq_zero {s : Summary} (hmean : isFinite s.mean = true)
    (hdev : s.stdDev = 0) : s.coefficientOfVariation = 0 := by
  unfold coefficientOfVariation
  split
  · rfl
  · rename_i hne
    rw [beq_iff hmean zero_value.1, zero_value.2] at hne
    obtain ⟨haf, hav⟩ := abs_value hmean
    have hnone : (0 : Float) * 100 = 0 := by decide +kernel
    rw [hdev, zero_div_of_pos haf (hav ▸ abs_pos.mpr hne), hnone]

namespace Distribution

variable {d : Distribution}

/-- **What a summary says of the data**, if doubles hold the observations. The median lies within
them. The mean is off by no more than three roundings, and by one only if the total and the number
of observations are doubles. It lies within the data where rounding keeps the total there; equal
observations whose mean is their value do not vary. -/
theorem summary_within (d : Distribution) (h : d.size < UInt64.size) (hd : d.Holdable) :
    ∃ s, d.summary = .ok s ∧ s.min = d.min ∧ s.max = d.max ∧ d.Encloses s.median ∧
      isFinite s.mean = true ∧
      |toRat s.mean - d.sum / d.size| ≤ |(d.sum : ℚ) / d.size| / 2 ^ 50 ∧
      (Representable d.size → Representable d.sum → toRat s.mean = rounded (d.sum / d.size)) ∧
      (d.RoundsWithin → d.Encloses s.mean) ∧
      ∀ v, d.Constant v → toRat s.median = v.toInt ∧
        (d.RoundsWithin → toRat s.mean = v.toInt) ∧
        (toRat s.mean = v.toInt → s.stdDev = 0 ∧ s.coefficientOfVariation = 0) := by
  obtain ⟨m, x, hm, hx, hs⟩ := d.summary_eq
  obtain ⟨m', t, hm', ht, hf, hv⟩ := mean_value h
  obtain rfl := Except.ok.inj (hm.symm.trans hm')
  have hmedian := median_encloses hd
  have hwithin : d.RoundsWithin → d.Encloses m := fun hw => by
    obtain ⟨hlow, hhigh⟩ := hw.mean_between hd ht
    exact encloses_of_value hd hf (hv ▸ hlow) (hv ▸ hhigh)
  refine ⟨_, hs, rfl, rfl, hmedian, hf, hv ▸ abs_mean_sub_le h ht, fun hsize hsum => ?_, hwithin,
    fun v hc => ⟨hc.value_of_encloses hd hmedian,
      fun hw => hc.value_of_encloses hd (hwithin hw), fun hmv => ?_⟩⟩
  · rw [hv, ht.eq_of_representable hsum, hsize]
  · obtain rfl := Except.ok.inj (hx.symm.trans (hc.deviation_eq hd h hf hmv))
    exact ⟨rfl, Summary.coefficientOfVariation_eq_zero hf rfl⟩

theorem holdable_of_largest (hc : d.Constant 9007199254740991) : d.Holdable := fun v hv => by
  have hvalue : (9007199254740991 : Int64).toInt = 9007199254740991 := by decide
  rw [hc v hv, hvalue]
  norm_num

/-- The greatest integer of fifty-three bits, four times. -/
def fourLarge : Distribution :=
  (Builder.new.insertAll (List.replicate 4 9007199254740991)).finish (by decide +kernel)

/-- The total of four is a double. -/
theorem summary_within_fourLarge :
    fourLarge.size < UInt64.size ∧ fourLarge.Holdable ∧ fourLarge.RoundsWithin ∧
      ∃ s, fourLarge.summary = .ok s ∧ toRat s.median = 9007199254740991 ∧
        toRat s.mean = 9007199254740991 ∧ s.stdDev = 0 ∧ s.coefficientOfVariation = 0 := by
  have hsize : fourLarge.size = 4 := by decide +kernel
  have hlt : fourLarge.size < UInt64.size := by rw [hsize]; decide
  have hobserved : fourLarge.histogram.observations = List.replicate 4 9007199254740991 := by
    decide +kernel
  have hconstant : fourLarge.Constant 9007199254740991 := fun w hw =>
    List.eq_of_mem_replicate (hobserved ▸ hw)
  have hholdable := holdable_of_largest hconstant
  have hsum : fourLarge.sum = 9007199254740991 * 4 := by decide +kernel
  have hwithin : fourLarge.RoundsWithin := by
    refine ⟨?_, .inl ?_⟩
    · rw [hsize]
      exact representable_natCast (by norm_num)
    · have htotal : ((9007199254740991 * 4 : ℤ) : ℚ) = (9007199254740991 : ℤ) * 2 ^ (2 : ℤ) := by
        norm_num
      rw [hsum, htotal]
      exact representable_mul_zpow (by norm_num) (by norm_num)
  obtain ⟨s, hs, -, -, -, -, -, -, -, hequal⟩ := summary_within fourLarge hlt hholdable
  obtain ⟨hmedian, hmean, hnone⟩ := hequal _ hconstant
  exact ⟨hlt, hholdable, hwithin, s, hs, hmedian, hmean hwithin, hnone (hmean hwithin)⟩

/-- The same integer five times. -/
def fiveLarge : Distribution :=
  (Builder.new.insertAll (List.replicate 5 9007199254740991)).finish (by decide +kernel)

/-- The total of five is rounded down before it is divided. The mean falls below all observations,
which seem to vary. -/
theorem mean_below_equal_observations :
    fiveLarge.size < UInt64.size ∧ fiveLarge.Holdable ∧ fiveLarge.Constant 9007199254740991 ∧
      ∃ s, fiveLarge.summary = .ok s ∧ s.mean < Float.ofInt s.min.toInt ∧
        0 < s.stdDev ∧ 0 < s.coefficientOfVariation := by
  have hobserved : fiveLarge.histogram.observations = List.replicate 5 9007199254740991 := by
    decide +kernel
  have hconstant : fiveLarge.Constant 9007199254740991 := fun w hw =>
    List.eq_of_mem_replicate (hobserved ▸ hw)
  have hfigures : (fiveLarge.summary.toOption.map fun s => decide
      (s.mean < Float.ofInt s.min.toInt ∧ 0 < s.stdDev ∧ 0 < s.coefficientOfVariation)) =
        some true := by decide +kernel
  obtain ⟨s, hs, -⟩ := fiveLarge.summary_ok
  rw [hs] at hfigures
  exact ⟨by decide +kernel, holdable_of_largest hconstant, hconstant, s, hs,
    of_decide_eq_true (Option.some.inj hfigures)⟩

end Distribution
end TimingStats
