import TimingStats.Proofs.Binary64.Rounding

/-! # Products and conversions

The product of two doubles, and the double nearest to a whole number, are the rounded exact
results; out of range they are infinite. -/

namespace TimingStats.Binary64

open Float.Model Float.Model.UnpackedFloat

/-! ## Packing -/

theorem unpack_pack_zero (s : Sign) : (Float.Model.pack (.zero s)).unpack = .zero s := by
  cases s <;> rfl

theorem unpack_zeroLiteral : (0 : Float).toModel.unpack = .zero .positive := by
  rfl

theorem unpack_packedInfinity (s : Sign) :
    UnpackedFloat.unpack Format.binary64 (packedInfinity Format.binary64 s) = .infinity s := by
  cases s <;> rfl

theorem ofNat_ne {k n c : ℕ} (hn : n < 2 ^ k) (hc : c < 2 ^ k) (h : n ≠ c) :
    BitVec.ofNat k n ≠ BitVec.ofNat k c := by
  intro he
  have := congrArg BitVec.toNat he
  rw [BitVec.toNat_ofNat, BitVec.toNat_ofNat, Nat.mod_eq_of_lt hn, Nat.mod_eq_of_lt hc] at this
  exact h this

/-- The fields of a number in range are read back. -/
theorem unpack_packComponents_normal {s : Sign} {r b : ℕ} (hr : 2 ^ 52 ≤ r) (hlt : r < 2 ^ 53)
    (hb : 0 < b) (hbt : b < 2047) :
    UnpackedFloat.unpack Format.binary64
      (packComponents Format.binary64 s (BitVec.ofNat 11 b) (BitVec.ofNat 52 r)) =
      .finite s r (b - 1075) (by omega) := by
  have hne : BitVec.ofNat 11 b ≠ -1#11 := ofNat_ne (c := 2047) (by omega) (by omega) (by omega)
  have hz : BitVec.ofNat 11 b ≠ 0#11 := ofNat_ne (by omega) (by omega) (by omega)
  have he : (BitVec.ofNat 11 b).toNat = b := by
    rw [BitVec.toNat_ofNat, Nat.mod_eq_of_lt (by omega)]
  have hm : (1#1 ++ BitVec.ofNat 52 r).toNat = r := by
    rw [toNat_hidden, BitVec.toNat_ofNat]
    unfold hiddenBit
    omega
  unfold UnpackedFloat.unpack
  simp only [unpackMantissa_packComponents, unpackExponent_packComponents,
    unpackSign_packComponents, Sign.ofBitVec_toBitVec, if_neg hne, if_neg hz, hm, he]
  congr 1

theorem unpack_packComponents_subnormal {s : Sign} {r : ℕ} (h : 0 < r) (hr : r < 2 ^ 52) :
    UnpackedFloat.unpack Format.binary64
      (packComponents Format.binary64 s 0#11 (BitVec.ofNat 52 r)) = .finite s r (-1074) h := by
  have hz : BitVec.ofNat 52 r ≠ 0#52 := ofNat_ne (by omega) (by omega) (by omega)
  have hm : (BitVec.ofNat 52 r).toNat = r := by
    rw [BitVec.toNat_ofNat, Nat.mod_eq_of_lt hr]
  have hne : (0#11 : BitVec 11) ≠ -1#11 := by decide
  unfold UnpackedFloat.unpack
  simp only [unpackMantissa_packComponents, unpackExponent_packComponents,
    unpackSign_packComponents, Sign.ofBitVec_toBitVec, if_neg hne, if_true, dif_neg hz, hm]
  congr 1

/-- A canonical number is packed without loss unless its exponent is too high. -/
theorem unpack_pack {s : Sign} {r : ℕ} {t : ℤ} (h : 0 < r) (hc : Canonical r t) :
    (Float.Model.pack (.finite s r t h)).unpack =
      if t ≤ 971 then .finite s r t h else .infinity s := by
  obtain ⟨hlt, hle, hfull⟩ := hc
  have hbias : (t + (Format.binary64.exponentBias : ℤ) +
      (Format.binary64.mantissaBitsWithoutImplicit : ℤ)).toNat = (t + 1075).toNat := by
    have hb : (Format.binary64.exponentBias : ℤ) = 1023 := rfl
    rw [hb]
    congr 1
    push_cast
    ring
  have hbits : Format.binary64.mantissaBits = 53 := rfl
  have hlog := (Nat.log2_lt h.ne').mpr hlt
  unfold Float.Model.unpack Float.Model.pack
  simp only [UnpackedFloat.pack, hbias, hbits]
  by_cases ht : t ≤ 971
  · rw [if_neg (by norm_num; omega), if_pos ht]
    by_cases hr : 2 ^ 52 ≤ r
    · have hl := (Nat.le_log2 h.ne').mpr hr
      have hb : ((t + 1075).toNat : ℤ) - 1075 = t := by omega
      rw [if_pos (by omega)]
      exact (unpack_packComponents_normal hr hlt (by omega) (by omega)).trans (by simp only [hb])
    · have hs := (Nat.log2_lt h.ne').mpr (not_le.mp hr)
      have ht : t = -1074 := hfull.resolve_left hr
      subst ht
      rw [if_neg (by omega)]
      exact unpack_packComponents_subnormal h (not_le.mp hr)
  · rw [if_pos (by norm_num; omega), if_neg ht]
    exact unpack_packedInfinity s

/-! ## Rounded results -/

/-- A double is the rounded value of an exact result, or an infinity of its sign. -/
structure Rounds (x : Float) (q : ℚ) : Prop where
  finite : |rounded q| < 2 ^ 1024 → isFinite x = true ∧ toRat x = rounded q
  overflow : 2 ^ 1024 ≤ |rounded q| →
    x.toModel.unpack = .infinity (if q < 0 then .negative else .positive)

theorem rounded_neg (q : ℚ) : rounded (-q) = -rounded q := by
  rcases lt_trichotomy q 0 with h | rfl | h
  · unfold rounded
    rw [abs_neg, if_pos h, if_neg (not_lt.mpr (neg_nonneg.mpr h.le)), neg_neg]
  · rw [neg_zero, rounded_zero, neg_zero]
  · unfold rounded
    rw [abs_neg, if_pos (neg_lt_zero.mpr h), if_neg (not_lt.mpr h.le)]

/-- The sign as a factor. -/
def factor (s : Sign) : ℚ := s.apply 1

theorem factor_mul (s t : Sign) : factor (s * t) = factor s * factor t := by
  cases s <;> cases t
  · exact (by norm_num : (1 : ℚ) = -1 * -1)
  · exact (by norm_num : (-1 : ℚ) = -1 * 1)
  · exact (by norm_num : (-1 : ℚ) = 1 * -1)
  · exact (by norm_num : (1 : ℚ) = 1 * 1)

theorem factor_neg (s : Sign) : factor (-s) = -factor s := by
  cases s
  · exact (by norm_num : (1 : ℚ) = -(-1))
  · exact (by norm_num : (-1 : ℚ) = -1)

theorem apply_eq_factor (s : Sign) (n : ℤ) : ((s.apply n : ℤ) : ℚ) = factor s * n := by
  cases s <;> simp [factor, Sign.apply]

theorem abs_factor_mul (s : Sign) (q : ℚ) : |factor s * q| = |q| := by
  cases s <;> simp [factor, Sign.apply]

theorem rounded_factor_mul (s : Sign) (q : ℚ) :
    rounded (factor s * q) = factor s * rounded q := by
  cases s
  · simpa [factor, Sign.apply] using rounded_neg q
  · simp [factor, Sign.apply]

theorem sign_factor_mul (s : Sign) {q : ℚ} (h : 0 < q) :
    (if factor s * q < 0 then Sign.negative else Sign.positive) = s := by
  cases s
  · exact if_pos (by simpa [factor, Sign.apply] using h)
  · exact if_neg (by simpa [factor, Sign.apply] using h.le)

theorem rounds_of_unpack_zero {x : Float} {s : Sign} (hx : x.toModel.unpack = .zero s) :
    Rounds x 0 := by
  have hf := isFinite_of_unpack_zero hx
  constructor
  · intro _
    exact ⟨hf, by rw [toRat_eq_valueOf hf, hx, rounded_zero]; rfl⟩
  · intro h
    rw [rounded_zero, abs_zero] at h
    exact absurd h (by norm_num)

/-- A canonical magnitude is out of range from the exponent 972 on. -/
theorem Canonical.lt_iff {r : ℕ} {t : ℤ} (h : Canonical r t) :
    (r : ℚ) * 2 ^ t < 2 ^ 1024 ↔ t ≤ 971 := by
  have hr : (r : ℚ) < 2 ^ 53 := by exact_mod_cast h.lt
  constructor
  · intro hlt
    by_contra ht
    have hfull : (2 : ℚ) ^ 52 ≤ r := by
      exact_mod_cast h.full.resolve_right (by omega)
    have hp : (2 : ℚ) ^ (972 : ℤ) ≤ 2 ^ t := zpow_le_zpow_right₀ (by norm_num) (by omega)
    have := mul_le_mul hfull hp (two_zpow_pos _).le (Nat.cast_nonneg r)
    rw [← zpow_natCast, ← zpow_add₀ (by norm_num)] at this
    exact absurd (lt_of_le_of_lt this hlt) (lt_irrefl _)
  · intro ht
    have hp : (2 : ℚ) ^ t ≤ 2 ^ (971 : ℤ) := zpow_le_zpow_right₀ (by norm_num) ht
    calc (r : ℚ) * 2 ^ t < 2 ^ 53 * 2 ^ t := mul_lt_mul_of_pos_right hr (two_zpow_pos t)
      _ ≤ 2 ^ 53 * 2 ^ (971 : ℤ) := mul_le_mul_of_nonneg_left hp (by norm_num)
      _ = 2 ^ 1024 := by
        rw [← zpow_natCast, ← zpow_add₀ (by norm_num)]
        rfl

theorem rounds_pack (s : Sign) {m : ℕ} {e : ℤ} {accuracy : Accuracy} {q : ℚ} (hq : 0 < q)
    (h : Holds (.ofMantissaAndAccuracy m accuracy) (q / 2 ^ e)) (he : e ≤ lastPlace q) :
    Rounds (.ofModel (.pack (roundWithAccuracy Format.binary64 s m e accuracy)))
      (factor s * q) := by
  have hval := rounded_factor_mul s q
  have habs : |rounded (factor s * q)| = rounded q := by
    rw [hval, abs_factor_mul, abs_of_nonneg (rounded_nonneg hq.le)]
  rcases roundWithAccuracy_spec s hq h he with ⟨hu, hz⟩ | ⟨r, t, hr, hu, hv, hc⟩
  · rw [hu]
    have hx := rounds_of_unpack_zero (x := .ofModel (.pack (.zero s))) (unpack_pack_zero s)
    have h0 : rounded (factor s * q) = rounded 0 := by
      rw [hval, hz, mul_zero, rounded_zero]
    exact ⟨fun h => h0 ▸ hx.finite (h0 ▸ h), fun h => absurd h (by rw [habs, hz]; norm_num)⟩
  · have hp := unpack_pack (s := s) hr hc
    rw [hu]
    constructor
    · intro h
      rw [habs, ← hv, hc.lt_iff] at h
      rw [if_pos h] at hp
      have hf := isFinite_of_unpack (x := .ofModel (.pack (.finite s r t hr))) hp
      refine ⟨hf, ?_⟩
      rw [toRat_eq_valueOf hf, hval, ← hv]
      change valueOf (Float.Model.pack (.finite s r t hr)).unpack = _
      rw [hp, valueOf, apply_eq_factor, mul_assoc]
      rfl
    · intro h
      rw [habs, ← hv, ← not_lt, hc.lt_iff] at h
      rw [if_neg h] at hp
      rw [sign_factor_mul s hq]
      exact hp

/-- An exact magnitude in some power of two. -/
theorem holds_mul_zpow (m : ℕ) (e : ℤ) :
    Holds (.ofMantissaAndAccuracy m .exact) ((m : ℚ) * 2 ^ e / 2 ^ e) := by
  rw [mul_div_cancel_right₀ _ (two_zpow_pos e).ne']
  exact holds_exact m

/-- An exact magnitude is brought low enough to keep all its bits, and then rounded. -/
theorem rounds_round (s : Sign) {m : ℕ} (hm : 0 < m) (e : ℤ) :
    Rounds (.ofModel (.pack (UnpackedFloat.round Format.binary64 s m e)))
      (factor s * (m * 2 ^ e)) := by
  have hpos : (0 : ℚ) < m * 2 ^ e := mul_pos (by exact_mod_cast hm) (two_zpow_pos e)
  have htarget : Format.binary64.targetExponent (totalExponent m e) = lastPlace (m * 2 ^ e) := by
    have hmin : Format.binary64.minExponent = -1074 := rfl
    have hbits : Format.binary64.mantissaBits = 53 := rfl
    unfold Format.targetExponent totalExponent lastPlace
    rw [hmin, hbits, log_mul_zpow hm]
    push_cast
    congr 1
    ring
  unfold UnpackedFloat.round decreaseExponent
  dsimp only
  rw [htarget, Nat.shiftLeft_eq]
  generalize hk : (e - lastPlace ((m : ℚ) * 2 ^ e)).toNat = k
  have hv : ((m * 2 ^ k : ℕ) : ℚ) * 2 ^ (e - (k : ℤ)) = m * 2 ^ e := by
    rw [zpow_sub₀ (by norm_num), zpow_natCast]
    push_cast
    field_simp
  exact rounds_pack s hpos (hv ▸ holds_mul_zpow _ _) (by omega)

/-- A whole number of some power of two is rounded. -/
theorem rounds_normalize (n e : ℤ) :
    Rounds (.ofModel (.pack (UnpackedFloat.normalize Format.binary64 n e .positive)))
      (n * 2 ^ e) := by
  unfold UnpackedFloat.normalize
  rcases lt_trichotomy n 0 with h | rfl | h
  · have habs : ((-n).toNat : ℤ) = -n := Int.toNat_of_nonneg (by omega)
    have hround := rounds_round .negative (m := (-n).toNat) (by omega) e
    have hval : factor .negative * (((-n).toNat : ℕ) * 2 ^ e) = (n : ℚ) * 2 ^ e := by
      rw [← Int.cast_natCast, habs, factor, Sign.apply]
      push_cast
      ring
    rw [compare_lt_iff_lt.mpr h]
    exact hval ▸ hround
  · rw [compare_eq_iff_eq.mpr rfl, Int.cast_zero, zero_mul]
    exact rounds_of_unpack_zero (unpack_pack_zero .positive)
  · have habs : (n.toNat : ℤ) = n := Int.toNat_of_nonneg h.le
    have hround := rounds_round .positive (m := n.toNat) (by omega) e
    have hval : factor .positive * ((n.toNat : ℕ) * 2 ^ e) = (n : ℚ) * 2 ^ e := by
      rw [← Int.cast_natCast, habs, factor, Sign.apply]
      push_cast
      ring
    rw [compare_gt_iff_gt.mpr h]
    exact hval ▸ hround

/-! ## Products -/

theorem unpack_finite {x : Float} (hf : isFinite x = true) (h : toRat x ≠ 0) :
    ∃ m e, ∃ hm : 0 < m, x.toModel.unpack = .finite (sign x) m e hm ∧
      toRat x = factor (sign x) * (m * 2 ^ e) ∧ Canonical m e := by
  have hv := toRat_eq_valueOf hf
  have hu := unpack_eq x
  rw [if_neg ((isFinite_iff x).mp hf)] at hu
  by_cases hz : significand x = 0
  · rw [dif_pos hz] at hu
    rw [hu] at hv
    exact absurd hv h
  · rw [dif_neg hz] at hu
    refine ⟨_, _, _, hu, ?_, significand_lt x, by omega, ?_⟩
    · rw [hv, hu, valueOf, apply_eq_factor, mul_assoc]
      rfl
    · unfold significand shift
      by_cases he : exponentField x = 0
      · right
        rw [he]
        rfl
      · left
        rw [if_neg he]
        unfold hiddenBit
        omega

theorem exponent_le {x : Float} (hf : isFinite x = true) {s : Sign} {m : ℕ} {e : ℤ} {hm : 0 < m}
    (hu : x.toModel.unpack = .finite s m e hm) : e ≤ 971 := by
  rw [unpack_eq, if_neg ((isFinite_iff x).mp hf)] at hu
  split at hu
  · cases hu
  · have hshift := shift_le_of_finite hf
    injection hu
    omega

theorem unpack_zero {x : Float} (hf : isFinite x = true) (h : toRat x = 0) :
    ∃ s, x.toModel.unpack = .zero s := by
  have hu := unpack_eq x
  rw [if_neg ((isFinite_iff x).mp hf)] at hu
  by_cases hz : significand x = 0
  · exact ⟨_, hu.trans (dif_pos hz)⟩
  · have hpos : (0 : ℚ) < significand x * 2 ^ ((shift x : ℤ) - 1074) :=
      mul_pos (by exact_mod_cast Nat.pos_of_ne_zero hz) (two_zpow_pos _)
    rw [toRat_eq_valueOf hf, hu, dif_neg hz, valueOf, apply_eq_factor, mul_assoc] at h
    have := abs_factor_mul (sign x) (significand x * 2 ^ ((shift x : ℤ) - 1074))
    rw [abs_of_pos hpos] at this
    push_cast at h
    rw [h, abs_zero] at this
    exact absurd this hpos.ne

/-- The bits of a product reach at least as low as its last place. -/
theorem le_lastPlace_mul {m n : ℕ} {e f : ℤ} (hm : 0 < m) (hn : 0 < n) (hc : Canonical m e)
    (hd : Canonical n f) : e + f ≤ lastPlace ((m * n : ℕ) * 2 ^ (e + f)) := by
  have hmn : 0 < m * n := Nat.mul_pos hm hn
  unfold lastPlace
  rw [log_mul_zpow hmn]
  have hbig : ∀ {a b : ℕ}, 0 < b → 2 ^ 52 ≤ a → 52 ≤ (a * b).log2 := fun hb ha =>
    (Nat.le_log2 (by positivity)).mpr (ha.trans (Nat.le_mul_of_pos_right _ hb))
  rcases hc.full with h1 | h1
  · have := hbig hn h1
    omega
  · rcases hd.full with h2 | h2
    · have := hbig hm h2
      rw [Nat.mul_comm] at this
      omega
    · omega

theorem mul_rounds {x y : Float} (hx : isFinite x = true) (hy : isFinite y = true) :
    Rounds (x * y) (toRat x * toRat y) := by
  have hmul : x * y = .ofModel (.pack (mul Format.binary64 x.toModel.unpack y.toModel.unpack)) :=
    rfl
  by_cases hx0 : toRat x = 0
  · obtain ⟨s, hs⟩ := unpack_zero hx hx0
    have hz : ∃ t, (x * y).toModel.unpack = .zero t := by
      rw [hmul, hs]
      by_cases hy0 : toRat y = 0
      · obtain ⟨t, ht⟩ := unpack_zero hy hy0
        rw [ht]
        exact ⟨_, unpack_pack_zero _⟩
      · obtain ⟨n, f, hn, ht, -⟩ := unpack_finite hy hy0
        rw [ht]
        exact ⟨_, unpack_pack_zero _⟩
    obtain ⟨t, ht⟩ := hz
    rw [hx0, zero_mul]
    exact rounds_of_unpack_zero ht
  · obtain ⟨m, e, hm, hxu, hxv, hxc⟩ := unpack_finite hx hx0
    by_cases hy0 : toRat y = 0
    · obtain ⟨t, ht⟩ := unpack_zero hy hy0
      rw [hy0, mul_zero, hmul, hxu, ht]
      exact rounds_of_unpack_zero (unpack_pack_zero _)
    · obtain ⟨n, f, hn, hyu, hyv, hyc⟩ := unpack_finite hy hy0
      have hv : toRat x * toRat y =
          factor (sign x * sign y) * ((m * n : ℕ) * 2 ^ (e + f)) := by
        rw [hxv, hyv, factor_mul, zpow_add₀ (by norm_num)]
        push_cast
        ring
      rw [hv, hmul, hxu, hyu]
      have hmn : (0 : ℚ) < (m * n : ℕ) := by exact_mod_cast Nat.mul_pos hm hn
      exact rounds_pack _ (mul_pos hmn (two_zpow_pos _)) (holds_mul_zpow _ _)
        (le_lastPlace_mul hm hn hxc hyc)

/-! ## Negation -/

theorem neg_exact {x : Float} (h : isFinite x = true) :
    isFinite (-x) = true ∧ toRat (-x) = -toRat x := by
  have hneg : (-x).toModel = Float.Model.pack x.toModel.unpack.neg := rfl
  have hval := toRat_eq_valueOf h
  by_cases h0 : toRat x = 0
  · obtain ⟨s, hs⟩ := unpack_zero h h0
    have hz : (-x).toModel.unpack = .zero (-s) := by
      rw [hneg, hs]
      exact unpack_pack_zero (-s)
    have hf := isFinite_of_unpack_zero hz
    exact ⟨hf, by rw [toRat_eq_valueOf hf, hz, h0, neg_zero]; rfl⟩
  · obtain ⟨m, e, hm, hu, hx, hc⟩ := unpack_finite h h0
    have hback : (-x).toModel.unpack = .finite (-sign x) m e hm := by
      rw [hneg, hu]
      exact (unpack_pack hm hc).trans (if_pos (exponent_le h hu))
    have hf := isFinite_of_unpack hback
    refine ⟨hf, ?_⟩
    rw [toRat_eq_valueOf hf, hback, hval, hu, valueOf, valueOf, apply_eq_factor, apply_eq_factor,
      factor_neg, neg_mul, neg_mul]

/-! ## Whole numbers -/

/-- The double nearest to a whole number is the rounded number. -/
theorem toFloat_rounds (n : UInt64) : Rounds n.toFloat n.toNat := by
  have hround := rounds_normalize n.toNat 0
  rw [zpow_zero, mul_one] at hround
  exact_mod_cast hround

end TimingStats.Binary64
