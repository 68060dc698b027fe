import TimingStats.Proofs.Binary64.Sums

/-! # Quotients and whole numbers

The quotient of two finite doubles, and the double nearest to a whole number of any size, are the
rounded exact results. A quotient is divided out far enough below its last place; the remainder
decides on which side of a half it lies. -/

namespace TimingStats.Binary64

open Float.Model Float.Model.UnpackedFloat

/-! ## Quotients -/

/-- The whole quotient with the comparison of the remainder says where the exact quotient lies. -/
theorem holds_div (m : ℕ) {n : ℕ} (hn : 0 < n) :
    Holds (.ofMantissaAndAccuracy (m / n) (accuracyOfFraction (m % n) n)) ((m : ℚ) / n) := by
  have hpos : (0 : ℚ) < n := by exact_mod_cast hn
  have hsplit : (m : ℚ) / n = (m / n : ℕ) + (m % n : ℕ) / n := by
    rw [div_eq_iff hpos.ne', add_mul, div_mul_cancel₀ _ hpos.ne']
    exact_mod_cast (Nat.div_add_mod' m n).symm
  have hlt : ((m % n : ℕ) : ℚ) / n < 1 := by
    rw [div_lt_one hpos]
    exact_mod_cast Nat.mod_lt m hn
  have hnonneg : (0 : ℚ) ≤ ((m % n : ℕ) : ℚ) / n := div_nonneg (Nat.cast_nonneg _) hpos.le
  unfold accuracyOfFraction
  by_cases hzero : m % n = 0
  · rw [if_pos hzero, hsplit, hzero, Nat.cast_zero, zero_div, add_zero]
    exact holds_exact _
  · have hrem : (0 : ℚ) < ((m % n : ℕ) : ℚ) / n :=
      div_pos (by exact_mod_cast Nat.pos_of_ne_zero hzero) hpos
    rw [if_neg hzero, hsplit]
    generalize hf : ((m % n : ℕ) : ℚ) / n = f at hlt hnonneg hrem
    have hfm : ((m % n : ℕ) : ℚ) = f * n := by rw [← hf, div_mul_cancel₀ _ hpos.ne']
    rcases lt_trichotomy (2 * (m % n)) n with hless | heq | hmore
    · have hhalf : f < 1 / 2 := by
        have hcast : (2 : ℚ) * (m % n : ℕ) < n := by exact_mod_cast hless
        rw [hfm] at hcast
        nlinarith
      rw [compare_lt_iff_lt.mpr hless]
      constructor <;> simp only [ExtendedMantissa.ofMantissaAndAccuracy, half] <;> grind
    · have hhalf : f = 1 / 2 := by
        have hcast : (2 : ℚ) * (m % n : ℕ) = n := by exact_mod_cast heq
        rw [hfm] at hcast
        have : n * (2 * f - 1) = 0 := by linarith
        rcases mul_eq_zero.mp this with h | h <;> linarith
      rw [compare_eq_iff_eq.mpr heq]
      constructor <;> simp only [ExtendedMantissa.ofMantissaAndAccuracy, half] <;> grind
    · have hhalf : 1 / 2 < f := by
        have hcast : (n : ℚ) < 2 * (m % n : ℕ) := by exact_mod_cast hmore
        rw [hfm] at hcast
        nlinarith
      rw [compare_gt_iff_gt.mpr hmore]
      constructor <;> simp only [ExtendedMantissa.ofMantissaAndAccuracy, half] <;> grind

/-- A quotient has its leading bit no lower than those of its parts let expect. -/
theorem le_log_div {m n : ℕ} (hm : 0 < m) (hn : 0 < n) (e f : ℤ) :
    totalExponent m e - totalExponent n f - 1 ≤ Int.log 2 ((m : ℚ) * 2 ^ e / (n * 2 ^ f)) := by
  have hmpos : (0 : ℚ) < m * 2 ^ e := mul_pos (by exact_mod_cast hm) (two_zpow_pos e)
  have hnpos : (0 : ℚ) < n * 2 ^ f := mul_pos (by exact_mod_cast hn) (two_zpow_pos f)
  have hlow := Int.zpow_log_le_self (b := 2) (by norm_num) hmpos
  have hhigh := Int.lt_zpow_succ_log_self (b := 2) (by norm_num) ((n : ℚ) * 2 ^ f)
  rw [log_mul_zpow hm] at hlow
  rw [log_mul_zpow hn] at hhigh
  apply (Int.zpow_le_iff_le_log (b := 2) (by norm_num) (div_pos hmpos hnpos)).mp
  rw [le_div_iff₀ hnpos]
  have hsplit : totalExponent m e - totalExponent n f - 1 =
      (m.log2 + e) - (n.log2 + f + 1) := by
    unfold totalExponent
    ring
  rw [hsplit, zpow_sub₀ (by norm_num), div_mul_eq_mul_div, div_le_iff₀ (zpow_pos (by norm_num) _)]
  exact mul_le_mul hlow hhigh.le hnpos.le hmpos.le

theorem factor_div (s t : Sign) : factor (s / t) = factor s / factor t := by
  cases s <;> cases t
  · exact (by norm_num : (1 : ℚ) = -1 / -1)
  · exact (by norm_num : (-1 : ℚ) = -1 / 1)
  · exact (by norm_num : (-1 : ℚ) = 1 / -1)
  · exact (by norm_num : (1 : ℚ) = 1 / 1)

theorem div_rounds {x y : Float} (hx : isFinite x = true) (hy : isFinite y = true)
    (h0 : toRat y ≠ 0) : Rounds (x / y) (toRat x / toRat y) := by
  have hdiv : x / y = .ofModel (.pack
      (UnpackedFloat.div Format.binary64 x.toModel.unpack y.toModel.unpack)) := rfl
  obtain ⟨n, f, hn, hyu, hyv, -⟩ := unpack_finite hy h0
  by_cases hx0 : toRat x = 0
  · obtain ⟨s, hs⟩ := unpack_zero hx hx0
    rw [hx0, zero_div, hdiv, hs, hyu]
    exact rounds_of_unpack_zero (unpack_pack_zero _)
  · obtain ⟨m, e, hm, hxu, hxv, -⟩ := unpack_finite hx hx0
    have hmpos : (0 : ℚ) < m * 2 ^ e := mul_pos (by exact_mod_cast hm) (two_zpow_pos e)
    have hnpos : (0 : ℚ) < n * 2 ^ f := mul_pos (by exact_mod_cast hn) (two_zpow_pos f)
    have hval : toRat x / toRat y =
        factor (sign x / sign y) * (m * 2 ^ e / (n * 2 ^ f)) := by
      rw [hxv, hyv, factor_div, mul_div_mul_comm]
    have hlog := le_log_div hm hn e f
    rw [hval, hdiv, hxu, hyu]
    unfold UnpackedFloat.div divCore
    dsimp only
    generalize htarget : min (e - f)
      (Format.binary64.targetExponent (totalExponent m e - totalExponent n f)) = t
    have hle : t ≤ lastPlace ((m : ℚ) * 2 ^ e / (n * 2 ^ f)) := by
      have hmin : Format.binary64.minExponent = -1074 := rfl
      have hbits : Format.binary64.mantissaBits = 53 := rfl
      rw [← htarget]
      unfold Format.targetExponent lastPlace
      rw [hmin, hbits]
      omega
    have hshift : ((e - f - t).toNat : ℤ) = e - f - t := Int.toNat_of_nonneg (by omega)
    have hquotient : (m : ℚ) * 2 ^ e / (n * 2 ^ f) / 2 ^ t =
        ((m <<< (e - f - t).toNat : ℕ) : ℚ) / n := by
      have hscale : (2 : ℚ) ^ e / 2 ^ f / 2 ^ t = 2 ^ (e - f - t).toNat := by
        rw [← zpow_natCast, hshift, zpow_sub₀ (by norm_num), zpow_sub₀ (by norm_num)]
      rw [Nat.shiftLeft_eq, Nat.cast_mul, Nat.cast_pow, Nat.cast_ofNat, ← hscale, mul_div_mul_comm,
        mul_div_assoc, div_mul_eq_mul_div]
    exact rounds_pack _ (div_pos hmpos hnpos) (hquotient ▸ holds_div _ hn) hle

/-! ## Whole numbers of any size -/

/-- The double one, which a conversion multiplies by. -/
theorem unit_value : isFinite (Float.ofBits 0x3ff0000000000000) = true ∧
    toRat (Float.ofBits 0x3ff0000000000000) = 1 := by
  have hunits : units (Float.ofBits 0x3ff0000000000000) = one := by decide +kernel
  have hone : ((one : ℤ) : ℚ) ≠ 0 := by
    have : (one : ℤ) ≠ 0 := by decide +kernel
    exact_mod_cast this
  exact ⟨by decide +kernel, by rw [toRat_eq_div, hunits, div_self hone]⟩

/-- The double of a natural number is the nearest one. Numbers that a double may not hold go by way
of a product of unpacked numbers. -/
theorem ofNat_rounds (n : ℕ) : Rounds (Float.ofNat n) n := by
  change Rounds (Float.ofScientific n false 0) n
  unfold Float.ofScientific
  split
  · rename_i h
    have hword : n.toUInt64.toNat = n := by
      rw [Nat.toUInt64, UInt64.toNat_ofNat_of_lt']
      exact h.1.trans (by decide)
    have hexact : Representable n := representable_natCast h.1.le
    obtain ⟨hf, hv⟩ := (toFloat_rounds n.toUInt64).finite_of_le (k := 53)
      (by rw [hword, abs_of_nonneg n.cast_nonneg]; exact_mod_cast h.1.le) (by norm_num)
    have hmul := mul_rounds hf unit_value.1
    rw [hv, hword, unit_value.2, mul_one, hexact] at hmul
    exact hmul
  · rename_i h
    have hlong : 2 ^ 53 ≤ n := not_lt.mp fun hlt => h ⟨hlt, by norm_num⟩
    have hpos : 0 < n := lt_of_lt_of_le (by norm_num) hlong
    have hproduct : UnpackedFloat.ofScientific Format.binary64 n 0 = roundWithAccuracy
        Format.binary64 .positive (n <<< 53 * 1) (-53 + 0) .exact := by
      have hbound : (0 : ℤ) < 2 ^ Format.binary64.exponentBits := by positivity
      unfold UnpackedFloat.ofScientific
      rw [dif_neg hpos.ne', if_neg (by norm_num), if_neg (by omega), if_pos le_rfl]
      rfl
    have hscaled : ((n <<< 53 * 1 : ℕ) : ℚ) = (n : ℚ) / 2 ^ (-53 + 0 : ℤ) := by
      rw [Nat.shiftLeft_eq, mul_one, Nat.cast_mul, eq_div_iff (two_zpow_pos _).ne', mul_assoc]
      norm_num
    have hplace : -52 ≤ lastPlace (n : ℚ) := by
      have hone : (2 : ℚ) ^ (0 : ℤ) ≤ n := by exact_mod_cast hpos
      have := le_lastPlace hone
      omega
    have hround := rounds_pack .positive (m := n <<< 53 * 1) (e := -53 + 0) (q := n)
      (by exact_mod_cast hpos) (hscaled ▸ holds_exact _) (by omega)
    rw [← hproduct, factor, Sign.apply, Int.cast_one, one_mul] at hround
    exact hround

theorem ofInt_rounds (n : ℤ) : Rounds (Float.ofInt n) n := by
  cases n with
  | ofNat n => exact ofNat_rounds n
  | negSucc n =>
    have hneg := (ofNat_rounds (n + 1)).neg
    rw [Int.cast_negSucc]
    exact hneg

theorem ofNat_value {n : ℕ} (h : n ≤ 2 ^ 53) :
    isFinite (Float.ofNat n) = true ∧ toRat (Float.ofNat n) = n := by
  obtain ⟨hf, hv⟩ := (ofNat_rounds n).finite_of_le (k := 53)
    (by rw [abs_of_nonneg n.cast_nonneg]; exact_mod_cast h) (by norm_num)
  exact ⟨hf, hv.trans (representable_natCast h)⟩

/-- A natural number of sixty-four bits is far from the range of doubles. -/
theorem ofNat_word_value {n : ℕ} (h : n < UInt64.size) :
    isFinite (Float.ofNat n) = true ∧ toRat (Float.ofNat n) = rounded n :=
  (ofNat_rounds n).finite_of_nonneg (k := 64) n.cast_nonneg (by exact_mod_cast h.le) (by norm_num)

theorem ofInt_value {n : ℤ} (h : |n| ≤ 2 ^ 53) :
    isFinite (Float.ofInt n) = true ∧ toRat (Float.ofInt n) = n := by
  obtain ⟨hf, hv⟩ := (ofInt_rounds n).finite_of_le (k := 53) (by exact_mod_cast h) (by norm_num)
  exact ⟨hf, hv.trans (representable_intCast h)⟩

theorem zero_value : isFinite (0 : Float) = true ∧ toRat (0 : Float) = 0 := by
  exact_mod_cast ofNat_value (n := 0) (by norm_num)

theorem zero_div_of_pos {x : Float} (h : isFinite x = true) (hpos : 0 < toRat x) :
    (0 : Float) / x = 0 := by
  have hdiv : (0 : Float) / x = .ofModel (.pack
      (UnpackedFloat.div Format.binary64 (0 : Float).toModel.unpack x.toModel.unpack)) := rfl
  obtain ⟨m, e, hm, hu, hv, -⟩ := unpack_finite h hpos.ne'
  have hsign : sign x = .positive := by
    rw [← sign_factor_mul (sign x) (mul_pos (Nat.cast_pos.mpr hm) (two_zpow_pos e)), ← hv,
      if_neg hpos.not_gt]
  rw [hdiv, hu, hsign, unpack_zeroLiteral]
  rfl

theorem one_value : isFinite (1 : Float) = true ∧ toRat (1 : Float) = 1 := by
  exact_mod_cast ofNat_value (n := 1) (by norm_num)

theorem two_value : isFinite (2 : Float) = true ∧ toRat (2 : Float) = 2 := by
  exact_mod_cast ofNat_value (n := 2) (by norm_num)

end TimingStats.Binary64
