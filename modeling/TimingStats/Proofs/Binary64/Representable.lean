import TimingStats.Proofs.Binary64.Arithmetic

/-! # The numbers that doubles hold

A number is representable if rounding leaves it alone. Every finite double holds such a number, and
no two of them hold the same one, zeros apart. Rounding never carries a number past a representable
one, which is all that most bounds on rounded results need. -/

namespace TimingStats.Binary64

open Float.Model Float.Model.UnpackedFloat

/-! ## Rounding on both sides of zero -/

theorem rounded_monotone : Monotone rounded := by
  have hneg : ∀ {q r : ℚ}, r ≤ 0 → q ≤ r → rounded q ≤ rounded r := fun {q r} hr h => by
    have := rounded_mono (neg_nonneg.mpr hr) (neg_le_neg h)
    rwa [rounded_neg, rounded_neg, neg_le_neg_iff] at this
  intro q r h
  rcases le_total 0 q with hq | hq
  · exact rounded_mono hq h
  · rcases le_total 0 r with hr | hr
    · calc rounded q ≤ rounded 0 := hneg le_rfl hq
        _ ≤ rounded r := rounded_mono le_rfl hr
    · exact hneg hr h

theorem abs_rounded (q : ℚ) : |rounded q| = rounded |q| := by
  rcases le_total 0 q with h | h
  · rw [abs_of_nonneg h, abs_of_nonneg (rounded_nonneg h)]
  · have := rounded_nonneg (neg_nonneg.mpr h)
    rw [abs_of_nonpos h, rounded_neg, abs_of_nonpos (by rwa [rounded_neg, neg_nonneg] at this)]

/-! ## Representable numbers -/

/-- Rounding leaves the number alone. -/
def Representable (q : ℚ) : Prop := rounded q = q

variable {q r : ℚ}

theorem Representable.neg (h : Representable q) : Representable (-q) := by
  rw [Representable, rounded_neg, h]

theorem representable_zero : Representable 0 := rounded_zero

/-- The last place of a number that fits into fifty-three bits is not above its exponent. -/
theorem lastPlace_mul_zpow_le {m : ℕ} (hm : 0 < m) (hlt : m < 2 ^ 53) {e : ℤ} (he : -1074 ≤ e) :
    lastPlace (m * 2 ^ e) ≤ e := by
  have hlog : m.log2 < 53 := (Nat.log2_lt hm.ne').mpr hlt
  unfold lastPlace
  rw [log_mul_zpow hm]
  omega

theorem representable_of_lastPlace_le (hq : 0 ≤ q) {m e : ℤ} (h : q = m * 2 ^ e)
    (hle : lastPlace q ≤ e) : Representable q := by
  obtain ⟨k, hk⟩ := Int.eq_ofNat_of_zero_le (sub_nonneg.mpr hle)
  have hsplit : (2 : ℚ) ^ e = 2 ^ k * 2 ^ lastPlace q := by
    rw [← zpow_natCast, ← zpow_add₀ (by norm_num)]
    congr 1
    omega
  have hmul : q = ((m * 2 ^ k : ℤ) : ℚ) * 2 ^ lastPlace q := by
    rw [Int.cast_mul, mul_assoc]
    push_cast
    rw [← hsplit, ← h]
  have hdiv : q / 2 ^ lastPlace q = ((m * 2 ^ k : ℤ) : ℚ) :=
    (div_eq_iff (two_zpow_pos _).ne').mpr hmul
  rw [Representable, rounded_of_nonneg hq, hdiv, nearestEven_intCast, ← hmul]

/-- A whole number of at most fifty-three bits may stand at any place from the lowest up. -/
theorem representable_mul_zpow {m e : ℤ} (hm : |m| ≤ 2 ^ 53) (he : -1074 ≤ e) :
    Representable (m * 2 ^ e) := by
  have hshort : ∀ n : ℕ, n < 2 ^ 53 → ∀ e : ℤ, -1074 ≤ e → Representable (n * 2 ^ e) := by
    intro n hn e he
    rcases Nat.eq_zero_or_pos n with rfl | hpos
    · rw [Nat.cast_zero, zero_mul]
      exact representable_zero
    · exact representable_of_lastPlace_le (mul_nonneg (Nat.cast_nonneg n) (two_zpow_pos e).le)
        (m := n) (by norm_cast) (lastPlace_mul_zpow_le hpos hn he)
  have hnat : ∀ n : ℕ, n ≤ 2 ^ 53 → Representable (n * 2 ^ e) := by
    intro n hn
    rcases hn.lt_or_eq with hlt | rfl
    · exact hshort n hlt e he
    · have hhalf := hshort (2 ^ 52) (by norm_num) (e + 1) (by omega)
      have hval : ((2 ^ 53 : ℕ) : ℚ) * 2 ^ e = (2 ^ 52 : ℕ) * 2 ^ (e + 1) := by
        rw [zpow_add₀ (by norm_num)]
        push_cast
        ring
      rwa [hval]
  obtain ⟨n, rfl | rfl⟩ := m.eq_nat_or_neg
  · rw [Nat.abs_cast] at hm
    exact_mod_cast hnat n (by exact_mod_cast hm)
  · rw [abs_neg, Nat.abs_cast] at hm
    rw [Int.cast_neg, neg_mul]
    exact_mod_cast (hnat n (by exact_mod_cast hm)).neg

theorem representable_intCast {n : ℤ} (h : |n| ≤ 2 ^ 53) : Representable n := by
  simpa using representable_mul_zpow h (e := 0) (by norm_num)

theorem representable_natCast {n : ℕ} (h : n ≤ 2 ^ 53) : Representable n := by
  exact_mod_cast representable_intCast (n := n) (by rw [abs_of_nonneg] <;> omega)

theorem representable_two_zpow {e : ℤ} (he : -1074 ≤ e) : Representable (2 ^ e) := by
  simpa using representable_mul_zpow (m := 1) (by norm_num) he

theorem representable_one : Representable 1 := by
  exact_mod_cast representable_two_zpow (e := 0) (by norm_num)

theorem representable_half : Representable (1 / 2) := by
  have hrep := representable_two_zpow (e := -1) (by norm_num)
  rwa [zpow_neg_one, inv_eq_one_div] at hrep

theorem exists_rounded_eq (q : ℚ) :
    ∃ m : ℤ, |m| ≤ 2 ^ 53 ∧ rounded q = m * 2 ^ lastPlace |q| := by
  have hlow : 0 ≤ nearestEven (|q| / 2 ^ lastPlace |q|) :=
    (Int.floor_nonneg.mpr (div_nonneg (abs_nonneg q) (two_zpow_pos _).le)).trans
      (floor_le_nearestEven _)
  have hup := nearestEven_le |q|
  unfold rounded
  dsimp only
  split
  · exact ⟨-nearestEven (|q| / 2 ^ lastPlace |q|), by rwa [abs_neg, abs_of_nonneg hlow], by
      push_cast
      ring⟩
  · exact ⟨_, by rwa [abs_of_nonneg hlow], rfl⟩

theorem representable_rounded (q : ℚ) : Representable (rounded q) := by
  obtain ⟨m, hm, hq⟩ := exists_rounded_eq q
  rw [hq]
  exact representable_mul_zpow hm (le_max_right _ _)

/-- A representable number is a whole number of every place from its last down. -/
theorem Representable.exists_mul_zpow (h : Representable q) {p : ℤ} (hp : p ≤ lastPlace |q|) :
    ∃ m : ℤ, q = m * 2 ^ p := by
  obtain ⟨m, -, hq⟩ := exists_rounded_eq q
  obtain ⟨k, hk⟩ := Int.eq_ofNat_of_zero_le (sub_nonneg.mpr hp)
  refine ⟨m * 2 ^ k, ?_⟩
  have hsplit : (2 : ℚ) ^ lastPlace |q| = 2 ^ k * 2 ^ p := by
    rw [← zpow_natCast, ← zpow_add₀ (by norm_num)]
    congr 1
    omega
  rw [← h, hq, hsplit]
  push_cast
  ring

/-- Rounding does not carry a number past a representable one. -/
theorem Representable.le_rounded (h : Representable r) (hle : r ≤ q) : r ≤ rounded q :=
  h.symm.le.trans (rounded_monotone hle)

theorem Representable.rounded_le (h : Representable r) (hle : q ≤ r) : rounded q ≤ r :=
  (rounded_monotone hle).trans h.le

theorem abs_rounded_le_two_pow {k : ℕ} (h : |q| ≤ 2 ^ k) : |rounded q| ≤ 2 ^ k := by
  rw [abs_rounded]
  have hpow : Representable (2 ^ k) := by
    exact_mod_cast representable_two_zpow (e := k) (by omega)
  exact hpow.rounded_le h

/-- A result that is far from the range of doubles is the rounded exact one. -/
theorem Rounds.finite_of_le {x : Float} (hx : Rounds x q) {k : ℕ} (h : |q| ≤ 2 ^ k)
    (hk : k < 1024) : isFinite x = true ∧ toRat x = rounded q :=
  hx.finite ((abs_rounded_le_two_pow h).trans_lt (pow_lt_pow_right₀ (by norm_num) hk))

theorem Rounds.finite_of_nonneg {x : Float} (hx : Rounds x q) {k : ℕ} (hq : 0 ≤ q) (h : q ≤ 2 ^ k)
    (hk : k < 1024) : isFinite x = true ∧ toRat x = rounded q :=
  hx.finite_of_le ((abs_of_nonneg hq).trans_le h) hk

theorem Rounds.value_zero {x : Float} (hx : Rounds x 0) : isFinite x = true ∧ toRat x = 0 := by
  obtain ⟨hf, hv⟩ := hx.finite_of_le (k := 0) (by norm_num) (by norm_num)
  exact ⟨hf, hv.trans rounded_zero⟩

/-! ## Finite doubles -/

variable {x y : Float}

theorem representable_toRat (x : Float) : Representable (toRat x) := by
  have hsig : (significand x : ℤ) ≤ 2 ^ 53 := by
    have := significand_lt x
    unfold hiddenBit at this
    omega
  have hrep : Representable ((significand x : ℤ) * 2 ^ ((shift x : ℤ) - 1074)) :=
    representable_mul_zpow (by rwa [abs_of_nonneg (Int.natCast_nonneg _)]) (by omega)
  have hval : toRat x =
      (if negative x then -1 else 1) * ((significand x : ℤ) * 2 ^ ((shift x : ℤ) - 1074)) := by
    rw [toRat_eq_units, units_eq, mul_assoc, mul_assoc, sub_eq_add_neg, zpow_add₀ (by norm_num),
      zpow_natCast]
    norm_cast
  rw [hval]
  split
  · rw [neg_one_mul]
    exact hrep.neg
  · rwa [one_mul]

theorem abs_toRat_lt (hx : isFinite x = true) : |toRat x| < 2 ^ 1024 := by
  by_cases h0 : toRat x = 0
  · rw [h0, abs_zero]
    positivity
  · obtain ⟨m, e, hm, hu, hv, hc⟩ := unpack_finite hx h0
    rw [hv, abs_factor_mul, abs_of_pos (mul_pos (by exact_mod_cast hm) (two_zpow_pos e))]
    exact hc.lt_iff.mpr (exponent_le hx hu)

/-- The canonical magnitude with the higher exponent is the greater one: it fills its bits. -/
theorem Canonical.lt_of_exponent_lt {m n : ℕ} {e f : ℤ} (hm : Canonical m e) (hn : Canonical n f)
    (h : e < f) : (m : ℚ) * 2 ^ e < n * 2 ^ f := by
  have hfull : (2 : ℚ) ^ 52 ≤ n := by
    exact_mod_cast hn.full.resolve_right (by have := hm.le; omega)
  have hm53 : (m : ℚ) < 2 ^ 53 := by exact_mod_cast hm.lt
  have hstep : (2 : ℚ) ^ (e + 1) ≤ 2 ^ f := zpow_le_zpow_right₀ (by norm_num) (by omega)
  calc (m : ℚ) * 2 ^ e < 2 ^ 53 * 2 ^ e := mul_lt_mul_of_pos_right hm53 (two_zpow_pos e)
    _ = 2 ^ 52 * 2 ^ (e + 1) := by
        rw [zpow_add₀ (by norm_num)]
        ring
    _ ≤ n * 2 ^ f := mul_le_mul hfull hstep (two_zpow_pos _).le (Nat.cast_nonneg n)

theorem Canonical.eq_of_mul_eq {m n : ℕ} {e f : ℤ} (hm : Canonical m e) (hn : Canonical n f)
    (h : (m : ℚ) * 2 ^ e = n * 2 ^ f) : m = n ∧ e = f := by
  have hef : e = f := by
    rcases lt_trichotomy e f with hlt | heq | hgt
    · exact absurd h (hm.lt_of_exponent_lt hn hlt).ne
    · exact heq
    · exact absurd h (hn.lt_of_exponent_lt hm hgt).ne'
  refine ⟨?_, hef⟩
  rw [hef, mul_left_inj' (two_zpow_pos f).ne'] at h
  exact_mod_cast h

theorem eq_of_fields (hs : negative x = negative y) (he : exponentField x = exponentField y)
    (hf : fractionField x = fractionField y) : x = y := by
  have hsign : 2 ^ 63 ≤ x.toBits.toNat ↔ 2 ^ 63 ≤ y.toBits.toNat := by
    rw [← negative_iff, ← negative_iff, hs]
  have hx := x.toBits.toNat_lt
  have hy := y.toBits.toNat_lt
  rw [exponentField_eq, exponentField_eq] at he
  rw [fractionField_eq, fractionField_eq] at hf
  have hbits : x.toModel.toBits = y.toModel.toBits := by
    change x.toBits = y.toBits
    rw [← UInt64.toNat_inj]
    omega
  obtain ⟨⟨bx, vx⟩⟩ := x
  obtain ⟨⟨by', vy⟩⟩ := y
  cases hbits
  rfl

/-- The significand and its place determine the stored fields. -/
theorem fields_eq_of_significand_eq (hm : significand x = significand y)
    (hd : shift x = shift y) :
    exponentField x = exponentField y ∧ fractionField x = fractionField y := by
  have hfx := fractionField_eq x
  have hfy := fractionField_eq y
  unfold significand hiddenBit at hm
  unfold shift at hd
  split at hm <;> split at hm <;> omega

/-- Finite doubles of one value are the same, zeros apart. -/
theorem eq_of_toRat_eq (hx : isFinite x = true) (hy : isFinite y = true)
    (h : toRat x = toRat y) (h0 : toRat x ≠ 0) : x = y := by
  obtain ⟨m, e, hm, hxu, hxv, hxc⟩ := unpack_finite hx h0
  obtain ⟨n, f, hn, hyu, hyv, hyc⟩ := unpack_finite hy (h ▸ h0)
  have hmpos : (0 : ℚ) < m * 2 ^ e := mul_pos (by exact_mod_cast hm) (two_zpow_pos e)
  have hnpos : (0 : ℚ) < n * 2 ^ f := mul_pos (by exact_mod_cast hn) (two_zpow_pos f)
  have hmagnitude : (m : ℚ) * 2 ^ e = n * 2 ^ f := by
    have habs : |toRat x| = |toRat y| := by rw [h]
    rwa [hxv, hyv, abs_factor_mul, abs_factor_mul, abs_of_pos hmpos, abs_of_pos hnpos] at habs
  have hsign : sign x = sign y := by
    rw [← sign_factor_mul (sign x) hmpos, ← sign_factor_mul (sign y) hnpos, ← hxv, ← hyv, h]
  obtain ⟨rfl, rfl⟩ := hxc.eq_of_mul_eq hyc hmagnitude
  have hxf := unpack_eq x
  have hyf := unpack_eq y
  rw [hxu, if_neg ((isFinite_iff x).mp hx)] at hxf
  rw [hyu, if_neg ((isFinite_iff y).mp hy)] at hyf
  split at hxf
  · cases hxf
  · split at hyf
    · cases hyf
    · injection hxf with _ hxm hxd
      injection hyf with _ hym hyd
      obtain ⟨hexp, hfrac⟩ := fields_eq_of_significand_eq (x := x) (y := y)
        (hxm.symm.trans hym) (by omega)
      refine eq_of_fields ?_ hexp hfrac
      unfold sign at hsign
      by_cases hnx : negative x = true <;> by_cases hny : negative y = true <;>
        simp_all

end TimingStats.Binary64
