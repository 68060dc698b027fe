import TimingStats.Proofs.Binary64.Order
import TimingStats.Proofs.Binary64.Quotients
import TimingStats.Proofs.Comparison.Faults

/-! # Replicates

A replicate is the difference of two means of draws. Whatever is drawn it is finite, so replicates
are sorted by value. A mean of draws stays on the side of a number that the observations lie on, if
a double holds the total of as many draws of that number. -/

namespace TimingStats

open TimingStats.Random

namespace Binary64

variable {x y : Float}

/-! ## Sorting by bits -/

/-- The bits of a double without its sign. -/
theorem magnitudeBits_eq (x : Float) :
    (x.toBits &&& 0x7fffffffffffffff).toNat = exponentField x * 2 ^ 52 + fractionField x := by
  have hmask := Nat.and_two_pow_sub_one_eq_mod x.toBits.toNat 63
  have hbits : (x.toBits &&& 0x7fffffffffffffff).toNat = x.toBits.toNat % 2 ^ 63 := by
    rw [UInt64.toNat_and]
    exact hmask
  rw [hbits, exponentField_eq, fractionField_eq]
  omega

theorem magnitude_mono (h : (x.toBits &&& 0x7fffffffffffffff).toNat ≤
    (y.toBits &&& 0x7fffffffffffffff).toNat) : magnitude x ≤ magnitude y := by
  have hfx := fractionField_eq x
  have hfy := fractionField_eq y
  rw [magnitudeBits_eq, magnitudeBits_eq] at h
  unfold magnitude
  rw [Nat.shiftLeft_eq, Nat.shiftLeft_eq]
  have hfield : exponentField x ≤ exponentField y := by omega
  have hshift : shift x ≤ shift y := by
    unfold shift
    omega
  rcases Nat.lt_or_eq_of_le hshift with hlt | heq
  · -- a significand with one bit less than the other, at a lower place
    have hx := significand_lt x
    have hy : hiddenBit ≤ significand y := by
      unfold significand
      split
      · unfold shift at hlt
        omega
      · exact Nat.le_add_left _ _
    calc significand x * 2 ^ shift x ≤ 2 * hiddenBit * 2 ^ shift x :=
          Nat.mul_le_mul_right _ hx.le
      _ = hiddenBit * 2 ^ (shift x + 1) := by rw [Nat.pow_succ]; ring
      _ ≤ significand y * 2 ^ shift y :=
          Nat.mul_le_mul hy (Nat.pow_le_pow_right (by decide) hlt)
  · rw [heq]
    refine Nat.mul_le_mul_right _ ?_
    unfold significand hiddenBit
    unfold shift at heq
    split <;> split <;> omega

theorem orderKey_mono (h : Comparison.orderKey x ≤ Comparison.orderKey y) : toRat x ≤ toRat y := by
  rw [toRat_eq_units, toRat_eq_units]
  refine mul_le_mul_of_nonneg_right (Int.cast_le.mpr ?_) (two_zpow_pos _).le
  unfold Comparison.orderKey at h
  unfold units
  dsimp only at h
  cases hx : negative x <;> cases hy : negative y <;>
    simp only [hx, hy, Bool.false_eq_true, if_false, if_true] at h ⊢
  · exact_mod_cast magnitude_mono (by omega)
  · omega
  · omega
  · have := magnitude_mono (x := y) (y := x) (by omega)
    omega

end Binary64

namespace Comparison

open Binary64

theorem sorted_pairwise (xs : List Float) :
    (sorted xs).Pairwise fun x y => toRat x ≤ toRat y := by
  have htrans : ∀ x y z : Float, decide (orderKey x ≤ orderKey y) = true →
      decide (orderKey y ≤ orderKey z) = true → decide (orderKey x ≤ orderKey z) = true := by
    intro x y z hxy hyz
    exact decide_eq_true ((of_decide_eq_true hxy).trans (of_decide_eq_true hyz))
  have htotal : ∀ x y : Float,
      (decide (orderKey x ≤ orderKey y) || decide (orderKey y ≤ orderKey x)) = true := by
    intro x y
    simp only [Bool.or_eq_true, decide_eq_true_eq]
    exact le_total _ _
  exact (List.pairwise_mergeSort htrans htotal xs).imp fun hxy =>
    orderKey_mono (of_decide_eq_true hxy)

theorem sorted_perm (xs : List Float) : (sorted xs).Perm xs := List.mergeSort_perm xs _

/-! ## Means of draws -/

section Replicates

variable {σ : Type} [RankSource σ] {d baseline candidate : Distribution}

/-- A total of draws is the sum of the observations that are drawn. -/
theorem drawnTotal_eq (d : Distribution) (n : ℕ) (total : ℤ) (s : σ) :
    drawnTotal d n total s =
      (total + ((d.drawn n s).1.map Int64.toInt).sum, (d.drawn n s).2) := by
  induction n generalizing total s with
  | zero => exact Prod.ext (add_zero total).symm rfl
  | succ n ih =>
    rw [drawnTotal, d.choose_eq]
    refine (ih _ _).trans (Prod.ext (add_assoc _ _ _) rfl)

theorem drawnTotal_le {p : ℤ} (h : ∀ v ∈ d.histogram.observations, v.toInt ≤ p) (n : ℕ) (s : σ) :
    (drawnTotal d n 0 s).1 ≤ n * p := by
  rw [drawnTotal_eq, zero_add]
  refine (List.sum_le_card_nsmul _ p ?_).trans_eq ?_
  · rintro _ hmem
    obtain ⟨v, hv, rfl⟩ := List.mem_map.mp hmem
    exact h v (Distribution.mem_of_mem_drawn hv)
  · rw [List.length_map, Distribution.length_drawn, nsmul_eq_mul]

theorem le_drawnTotal {p : ℤ} (h : ∀ v ∈ d.histogram.observations, p ≤ v.toInt) (n : ℕ) (s : σ) :
    n * p ≤ (drawnTotal d n 0 s).1 := by
  rw [drawnTotal_eq, zero_add]
  refine Eq.trans_le ?_ (List.card_nsmul_le_sum _ p ?_)
  · rw [List.length_map, Distribution.length_drawn, nsmul_eq_mul]
  · rintro _ hmem
    obtain ⟨v, hv, rfl⟩ := List.mem_map.mp hmem
    exact h v (Distribution.mem_of_mem_drawn hv)

/-- The number of observations as a double is at least one. -/
theorem size_value (d : Distribution) (h : d.size < UInt64.size) :
    isFinite (Float.ofNat d.size) = true ∧ toRat (Float.ofNat d.size) = rounded d.size ∧
      1 ≤ rounded d.size := by
  obtain ⟨hf, hv⟩ := ofNat_word_value h
  exact ⟨hf, hv, representable_one.le_rounded (by exact_mod_cast d.size_pos)⟩

theorem resampledMean_value (h : d.size < UInt64.size) (s : σ) :
    isFinite (resampledMean d s).1 = true ∧ |toRat (resampledMean d s).1| ≤ 2 ^ 127 ∧
      toRat (resampledMean d s).1 =
        rounded (rounded ((drawnTotal d d.size 0 s).1 : ℚ) / rounded d.size) := by
  obtain ⟨hnf, hnv, hn1⟩ := size_value d h
  have htotal : |((drawnTotal d d.size 0 s).1 : ℚ)| ≤ 2 ^ 127 := by
    have hdraws := (Distribution.fits_of_size h).draws d.size s le_rfl
    have hcast : |(drawnTotal d d.size 0 s).1| ≤ 2 ^ 127 := abs_le.mpr ⟨by omega, by omega⟩
    exact_mod_cast hcast
  obtain ⟨htf, htv⟩ := (ofInt_rounds (drawnTotal d d.size 0 s).1).finite_of_le (k := 127) htotal
    (by norm_num)
  have hpos : 0 < rounded d.size := lt_of_lt_of_le one_pos hn1
  have hquotient : |rounded ((drawnTotal d d.size 0 s).1 : ℚ) / rounded d.size| ≤ 2 ^ 127 := by
    rw [abs_div, abs_of_pos hpos, div_le_iff₀ hpos]
    exact (abs_rounded_le_two_pow htotal).trans (le_mul_of_one_le_right (by positivity) hn1)
  have hdiv := div_rounds htf hnf (by rw [hnv]; exact hpos.ne')
  rw [htv, hnv] at hdiv
  obtain ⟨hf, hv⟩ := hdiv.finite_of_le (k := 127) hquotient (by norm_num)
  have hbound := abs_rounded_le_two_pow hquotient
  rw [← hv] at hbound
  exact ⟨hf, hbound, hv⟩

/-- The mean of as many equal draws is exact, if a double holds their total. Rounding does not carry
other means past it. -/
theorem rounded_mean_exact {n p : ℕ} (hn : 0 < n) (hp : 0 < p) (h : n * p ≤ 2 ^ 53) :
    rounded (rounded ((n * p : ℕ) : ℚ) / rounded n) = p := by
  have hnp : n ≤ n * p := Nat.le_mul_of_pos_right n hp
  have hpn : p ≤ n * p := Nat.le_mul_of_pos_left p hn
  have hpos : (0 : ℚ) < n := by exact_mod_cast hn
  rw [representable_natCast h, representable_natCast (hnp.trans h), Nat.cast_mul,
    mul_div_cancel_left₀ _ hpos.ne']
  exact representable_natCast (hpn.trans h)

theorem size_lt_of_exact {p : ℕ} (hp : 0 < p) (h : d.size * p ≤ 2 ^ 53) :
    d.size < UInt64.size :=
  ((Nat.le_mul_of_pos_right d.size hp).trans h).trans_lt (by unfold UInt64.size; norm_num)

theorem resampledMean_le {p : ℕ} (hp : 0 < p) (hexact : d.size * p ≤ 2 ^ 53)
    (h : ∀ v ∈ d.histogram.observations, v.toInt ≤ p) (s : σ) :
    toRat (resampledMean d s).1 ≤ p := by
  obtain ⟨-, -, hv⟩ := resampledMean_value (size_lt_of_exact hp hexact) s
  rw [hv, ← rounded_mean_exact d.size_pos hp hexact]
  exact rounded_monotone (div_le_div_of_nonneg_right
    (rounded_monotone (by exact_mod_cast drawnTotal_le h d.size s))
    (rounded_nonneg (Nat.cast_nonneg _)))

theorem le_resampledMean {p : ℕ} (hp : 0 < p) (hexact : d.size * p ≤ 2 ^ 53)
    (h : ∀ v ∈ d.histogram.observations, p ≤ v.toInt) (s : σ) :
    p ≤ toRat (resampledMean d s).1 := by
  obtain ⟨-, -, hv⟩ := resampledMean_value (size_lt_of_exact hp hexact) s
  rw [hv, ← rounded_mean_exact d.size_pos hp hexact]
  exact rounded_monotone (div_le_div_of_nonneg_right
    (rounded_monotone (by exact_mod_cast le_drawnTotal h d.size s))
    (rounded_nonneg (Nat.cast_nonneg _)))

/-- A replicate is the rounded difference of a candidate's and a baseline's mean. -/
theorem replicate_value (hb : baseline.size < UInt64.size) (hc : candidate.size < UInt64.size)
    (s s' : σ) : isFinite ((resampledMean candidate s).1 - (resampledMean baseline s').1) = true ∧
      toRat ((resampledMean candidate s).1 - (resampledMean baseline s').1) =
        rounded (toRat (resampledMean candidate s).1 - toRat (resampledMean baseline s').1) := by
  obtain ⟨hcf, hcb, -⟩ := resampledMean_value hc s
  obtain ⟨hbf, hbb, -⟩ := resampledMean_value hb s'
  refine (sub_rounds hcf hbf).finite_of_le (k := 128) ((abs_sub _ _).trans ?_) (by norm_num)
  linarith

/-- What holds of the difference of any two means holds of every replicate. -/
theorem forall_mem_replicates {p : Float → Prop}
    (hp : ∀ s s' : σ, p ((resampledMean candidate s).1 - (resampledMean baseline s').1)) (n : ℕ)
    {found : List Float} (hfound : ∀ x ∈ found, p x) (s : σ) :
    ∀ x ∈ (replicates baseline candidate n found s).1, p x := by
  induction n generalizing found s with
  | zero => exact hfound
  | succ n ih => exact ih (List.forall_mem_cons.mpr ⟨hp s _, hfound⟩) _

/-- **No replicate is infinite or no number.** -/
theorem replicates_finite (hb : baseline.size < UInt64.size) (hc : candidate.size < UInt64.size)
    (n : ℕ) (s : σ) : ∀ x ∈ (replicates baseline candidate n [] s).1, isFinite x = true :=
  forall_mem_replicates (fun s s' => (replicate_value hb hc s s').1) n (by simp) s

end Replicates

end Comparison
end TimingStats
