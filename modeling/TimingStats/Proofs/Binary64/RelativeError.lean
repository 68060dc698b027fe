import TimingStats.Proofs.Binary64.Faithful

/-! # Relative errors

A rounded number is less than a unit in its last place away from the exact one. Above the subnormal
numbers that is little in proportion to it. A power of two as a factor does not round at all. -/

namespace TimingStats.Binary64

variable {q : ℚ}

theorem faithful_rounded (q : ℚ) : Faithful (rounded q) q where
  representable := representable_rounded q
  below _ hr hle := hr.le_rounded hle
  above _ hr hle := hr.rounded_le hle

/-- Above the subnormal numbers a faithful result is off by little in proportion. -/
theorem Faithful.abs_sub_le {t : ℚ} (h : Faithful t q) (hq : 2 ^ (-1021 : ℤ) ≤ |q|) :
    |t - q| ≤ |q| / 2 ^ 52 := by
  have hpos : 0 < |q| := (two_zpow_pos _).trans_le hq
  have hplace := le_lastPlace hq
  have hfull := lastPlace_le hpos (by omega)
  have herror := h.abs_sub_lt
  rw [ulp] at herror
  rw [zpow_add₀ (by norm_num)] at hfull
  have hpow : (2 : ℚ) ^ (52 : ℤ) = 2 ^ 52 := by norm_num
  rw [hpow] at hfull
  exact herror.le.trans ((le_div_iff₀ (by norm_num)).mpr hfull)

theorem abs_rounded_sub_le (h : 2 ^ (-1021 : ℤ) ≤ q) : |rounded q - q| ≤ q / 2 ^ 52 := by
  have habs : |q| = q := abs_of_pos ((two_zpow_pos _).trans_le h)
  have herror := (faithful_rounded q).abs_sub_le (by rwa [habs])
  rwa [habs] at herror

/-- What three roundings do to a quotient. -/
theorem abs_sub_div_le {s n t r m : ℚ} (hn : 0 < n) (hs : |t - s| ≤ |s| / 2 ^ 52)
    (hr : |r - n| ≤ n / 2 ^ 52) (hm : |m - t / r| ≤ |t / r| / 2 ^ 52) :
    |m - s / n| ≤ |s / n| / 2 ^ 50 := by
  have hlow : n * (1 - 1 / 2 ^ 52) ≤ r := by linarith [(abs_le.mp hr).1]
  have hrpos : 0 < r := lt_of_lt_of_le (mul_pos hn (by norm_num)) hlow
  have hsn : |s / n| = |s| / n := by rw [abs_div, abs_of_pos hn]
  have hquotient : |s| / r * (1 - 1 / 2 ^ 52) ≤ |s| / n := by
    rw [div_mul_eq_mul_div, div_le_div_iff₀ hrpos hn, mul_assoc, mul_comm _ n]
    exact mul_le_mul_of_nonneg_left hlow (abs_nonneg s)
  have hmiddle : |t / r - s / n| ≤ 2 / 2 ^ 52 * (|s| / r) := by
    have hsplit : t / r - s / n = ((t - s) + s / n * (n - r)) / r := by
      field_simp
      ring
    have hsecond : |s / n * (n - r)| ≤ |s| / 2 ^ 52 := by
      rw [abs_mul, hsn, abs_sub_comm]
      calc |s| / n * |r - n| ≤ |s| / n * (n / 2 ^ 52) :=
            mul_le_mul_of_nonneg_left hr (by positivity)
        _ = |s| / 2 ^ 52 := by field_simp
    rw [hsplit, abs_div, abs_of_pos hrpos, ← mul_div_assoc]
    refine div_le_div_of_nonneg_right ((abs_add_le _ _).trans ?_) hrpos.le
    linarith
  have habs : |t / r| ≤ |s / n| + |t / r - s / n| := by
    have := abs_add_le (s / n) (t / r - s / n)
    rwa [add_sub_cancel] at this
  have htriangle := abs_sub_le m (t / r) (s / n)
  have hnonneg : 0 ≤ |s| / r := by positivity
  rw [hsn] at habs ⊢
  linarith

/-- A representable number at another place is representable, if its last bit stays in range. -/
theorem Representable.mul_two_zpow (h : Representable q) {j : ℤ} (hj : -1074 ≤ lastPlace |q| + j) :
    Representable (q * 2 ^ j) := by
  obtain ⟨m, hm, hq⟩ := exists_rounded_eq q
  have hmul : q * 2 ^ j = m * 2 ^ (lastPlace |q| + j) := by
    rw [zpow_add₀ (by norm_num), ← mul_assoc, ← hq, h]
  rw [hmul]
  exact representable_mul_zpow hm hj

end TimingStats.Binary64
