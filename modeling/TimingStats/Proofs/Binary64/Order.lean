import TimingStats.Proofs.Binary64.Sums

/-! # Order and truncation

Finite doubles compare as their values do, also without their signs, and are truncated to words by
cutting off what is below the point. -/

namespace TimingStats.Binary64

open Float.Model Float.Model.UnpackedFloat

/-! ## Order -/

theorem Canonical.compare_eq {m n : ℕ} {e f : ℤ} (hm : Canonical m e) (hn : Canonical n f) :
    (compare e f).then (compare m n) = compare ((m : ℚ) * 2 ^ e) (n * 2 ^ f) := by
  rcases lt_trichotomy e f with hlt | rfl | hgt
  · rw [compare_lt_iff_lt.mpr hlt, compare_lt_iff_lt.mpr (hm.lt_of_exponent_lt hn hlt)]
    rfl
  · have hu := two_zpow_pos e
    rw [compare_eq_iff_eq.mpr rfl, Ordering.eq_then]
    rcases lt_trichotomy m n with hlt | rfl | hgt
    · rw [compare_lt_iff_lt.mpr hlt,
        compare_lt_iff_lt.mpr (mul_lt_mul_of_pos_right (by exact_mod_cast hlt) hu)]
    · rw [compare_eq_iff_eq.mpr rfl, compare_eq_iff_eq.mpr rfl]
    · rw [compare_gt_iff_gt.mpr hgt,
        compare_gt_iff_gt.mpr (mul_lt_mul_of_pos_right (by exact_mod_cast hgt) hu)]
  · rw [compare_gt_iff_gt.mpr hgt, compare_gt_iff_gt.mpr (hn.lt_of_exponent_lt hm hgt)]
    rfl

theorem compare_neg_neg (q r : ℚ) : compare (-q) (-r) = (compare q r).swap := by
  rcases lt_trichotomy q r with hlt | rfl | hgt
  · rw [compare_lt_iff_lt.mpr hlt, compare_gt_iff_gt.mpr (neg_lt_neg hlt)]
    rfl
  · rw [compare_eq_iff_eq.mpr rfl, compare_eq_iff_eq.mpr rfl]
    rfl
  · rw [compare_gt_iff_gt.mpr hgt, compare_lt_iff_lt.mpr (neg_lt_neg hgt)]
    rfl

theorem valueOf_positive {m : ℕ} {e : ℤ} (hm : 0 < m) :
    valueOf (.finite .positive m e hm) = m * 2 ^ e := by
  rw [valueOf, Sign.apply, Int.cast_natCast]

theorem valueOf_negative {m : ℕ} {e : ℤ} (hm : 0 < m) :
    valueOf (.finite .negative m e hm) = -(m * 2 ^ e) := by
  rw [valueOf, Sign.apply, Int.cast_neg, Int.cast_natCast, neg_mul]

/-- **What doubles unpack to is compared by value.** -/
theorem Proper.compare_eq {a b : UnpackedFloat} (ha : Proper a) (hb : Proper b) :
    a.compare b = some (compare (valueOf a) (valueOf b)) := by
  have hzero : ∀ s, valueOf (.zero s) = 0 := fun _ => rfl
  have hpos : ∀ {m : ℕ} (e : ℤ), 0 < m → (0 : ℚ) < m * 2 ^ e := fun e hm =>
    mul_pos (by exact_mod_cast hm) (two_zpow_pos e)
  cases ha with
  | zero s =>
    cases hb with
    | zero t => rw [hzero, hzero, compare_eq_iff_eq.mpr rfl]; rfl
    | @finite t n f hn hd hf =>
      cases t
      · rw [hzero, valueOf_negative, compare_gt_iff_gt.mpr (neg_lt_zero.mpr (hpos f hn))]; rfl
      · rw [hzero, valueOf_positive, compare_lt_iff_lt.mpr (hpos f hn)]; rfl
  | @finite s m e hm hc he =>
    cases hb with
    | zero t =>
      cases s
      · rw [hzero, valueOf_negative, compare_lt_iff_lt.mpr (neg_lt_zero.mpr (hpos e hm))]; rfl
      · rw [hzero, valueOf_positive, compare_gt_iff_gt.mpr (hpos e hm)]; rfl
    | @finite t n f hn hd hf =>
      cases s <;> cases t
      · rw [valueOf_negative, valueOf_negative, compare_neg_neg, ← hc.compare_eq hd]; rfl
      · rw [valueOf_negative, valueOf_positive, compare_lt_iff_lt.mpr
          ((neg_lt_zero.mpr (hpos e hm)).trans (hpos f hn))]; rfl
      · rw [valueOf_positive, valueOf_negative, compare_gt_iff_gt.mpr
          ((neg_lt_zero.mpr (hpos f hn)).trans (hpos e hm))]; rfl
      · rw [valueOf_positive, valueOf_positive, ← hc.compare_eq hd]; rfl

variable {x y : Float}

theorem lt_iff (hx : isFinite x = true) (hy : isFinite y = true) : x < y ↔ toRat x < toRat y := by
  have hlt : x < y ↔ UnpackedFloat.lt x.toModel.unpack y.toModel.unpack = true :=
    decide_eq_true_iff
  rw [hlt, UnpackedFloat.lt, (proper_unpack hx).compare_eq (proper_unpack hy),
    ← toRat_eq_valueOf hx, ← toRat_eq_valueOf hy, ← compare_lt_iff_lt]
  simp

theorem le_iff (hx : isFinite x = true) (hy : isFinite y = true) : x ≤ y ↔ toRat x ≤ toRat y := by
  have hle : x ≤ y ↔ UnpackedFloat.le x.toModel.unpack y.toModel.unpack = true :=
    decide_eq_true_iff
  rw [hle, UnpackedFloat.le, (proper_unpack hx).compare_eq (proper_unpack hy),
    ← toRat_eq_valueOf hx, ← toRat_eq_valueOf hy, ← compare_le_iff_le, Option.any_some,
    Ordering.isLE_iff_ne_gt]

theorem beq_iff (hx : isFinite x = true) (hy : isFinite y = true) :
    (x == y) = true ↔ toRat x = toRat y := by
  have hbeq : (x == y) = UnpackedFloat.beq x.toModel.unpack y.toModel.unpack := rfl
  rw [hbeq, UnpackedFloat.beq, (proper_unpack hx).compare_eq (proper_unpack hy),
    ← toRat_eq_valueOf hx, ← toRat_eq_valueOf hy, ← compare_eq_iff_eq]
  simp

protected theorem le_of_lt (h : x < y) : x ≤ y := by
  have hlt : UnpackedFloat.lt x.toModel.unpack y.toModel.unpack = true := of_decide_eq_true h
  have hle : UnpackedFloat.le x.toModel.unpack y.toModel.unpack = true := by
    rw [UnpackedFloat.lt, beq_iff_eq] at hlt
    rw [UnpackedFloat.le, hlt]
    rfl
  exact decide_eq_true hle

theorem isFinite_of_between {z : Float} (hx : isFinite x = true) (hz : isFinite z = true)
    (hxy : x ≤ y) (hyz : y ≤ z) : isFinite y = true := by
  have hlow : UnpackedFloat.le x.toModel.unpack y.toModel.unpack = true := of_decide_eq_true hxy
  have hhigh : UnpackedFloat.le y.toModel.unpack z.toModel.unpack = true := of_decide_eq_true hyz
  have hbelow : ∀ {a}, Proper a → UnpackedFloat.le a (.infinity .negative) = false := by
    rintro a (_ | _) <;> rfl
  have habove : ∀ {a}, Proper a → UnpackedFloat.le (.infinity .positive) a = false := by
    rintro a (_ | _) <;> rfl
  have hnan : ∀ {a}, Proper a → UnpackedFloat.le a .notANumber = false := by
    rintro a (_ | _) <;> rfl
  rw [isFinite_iff]
  intro hfield
  have hunpack := unpack_eq y
  rw [if_pos hfield] at hunpack
  split at hunpack
  · cases hsign : sign y <;> rw [hunpack, hsign] at hlow hhigh
    · exact absurd hlow (by rw [hbelow (proper_unpack hx)]; decide)
    · exact absurd hhigh (by rw [habove (proper_unpack hz)]; decide)
  · rw [hunpack] at hlow
    exact absurd hlow (by rw [hnan (proper_unpack hx)]; decide)

/-! ## Absolute values -/

theorem Proper.abs {a : UnpackedFloat} (ha : Proper a) : Proper a.abs := by
  cases ha with
  | zero s => exact .zero .positive
  | finite s hm hc he => exact .finite .positive hm hc he

theorem Proper.valueOf_abs {a : UnpackedFloat} (ha : Proper a) : valueOf a.abs = |valueOf a| := by
  cases ha with
  | zero s => exact abs_zero.symm
  | @finite s m e hm hc he =>
    have hpos : (0 : ℚ) < m * 2 ^ e := mul_pos (by exact_mod_cast hm) (two_zpow_pos e)
    have habs : valueOf (UnpackedFloat.abs (.finite s m e hm)) = m * 2 ^ e := valueOf_positive hm
    cases s
    · rw [habs, valueOf_negative, abs_neg, abs_of_pos hpos]
    · rw [habs, valueOf_positive, abs_of_pos hpos]

theorem abs_value (hx : isFinite x = true) :
    isFinite x.abs = true ∧ toRat x.abs = |toRat x| := by
  have habs : x.abs = .ofModel (.pack x.toModel.unpack.abs) := rfl
  have hround := (proper_unpack hx).abs.rounds
  rw [← habs, (proper_unpack hx).valueOf_abs, ← toRat_eq_valueOf hx] at hround
  have hexact : rounded |toRat x| = |toRat x| := by rw [← abs_rounded, representable_toRat]
  have hlt : |rounded (|toRat x|)| < 2 ^ 1024 := by
    rw [hexact, abs_abs]
    exact abs_toRat_lt hx
  obtain ⟨hf, hv⟩ := hround.finite hlt
  exact ⟨hf, hv.trans hexact⟩

/-! ## Truncation -/

theorem roundToInt_positive (m : ℕ) (e : ℤ) :
    roundToInt .positive m e = ⌊(m : ℚ) * 2 ^ e⌋ := by
  have hk : ((m <<< (e - 0).toNat : ℕ) : ℚ) * 2 ^ (e - (e - 0).toNat : ℤ) = m * 2 ^ e := by
    rw [Nat.shiftLeft_eq, zpow_sub₀ (by norm_num), zpow_natCast]
    push_cast
    field_simp
  obtain ⟨hholds, -⟩ := shiftToExponent_holds (t := 0)
    (hk ▸ holds_mul_zpow (m <<< (e - 0).toNat) (e - (e - 0).toNat)) (by omega)
  rw [zpow_zero, div_one] at hholds
  rw [hholds.floor_eq]
  rfl

theorem Proper.toInt_eq {a : UnpackedFloat} (ha : Proper a) (h0 : 0 ≤ valueOf a) (low high : ℤ) :
    UnpackedFloat.toInt low high a = ⌊valueOf a⌋ := by
  cases ha with
  | zero s => exact Int.floor_zero.symm
  | @finite s m e hm hc he =>
    cases s
    · have hpos : (0 : ℚ) < m * 2 ^ e := mul_pos (by exact_mod_cast hm) (two_zpow_pos e)
      rw [valueOf_negative] at h0
      exact absurd h0 (neg_lt_zero.mpr hpos).not_ge
    · rw [valueOf_positive]
      exact roundToInt_positive m e

theorem toNat_ofNatClamp (n : ℕ) : (UInt64.ofNatClamp n).toNat = min n (2 ^ 64 - 1) := by
  unfold UInt64.ofNatClamp
  split
  · rename_i hlt
    rw [UInt64.toNat_ofNatLT]
    exact (Nat.min_eq_left (Nat.le_sub_one_of_lt hlt)).symm
  · rename_i hge
    rw [UInt64.toNat_ofNatLT]
    exact (Nat.min_eq_right ((Nat.sub_le _ _).trans (not_lt.mp hge))).symm

/-- A double that is not negative is truncated to the whole part of its value, or to the greatest
word. -/
theorem toNat_toUInt64 (hx : isFinite x = true) (h0 : 0 ≤ toRat x) :
    x.toUInt64.toNat = min ⌊toRat x⌋₊ (2 ^ 64 - 1) := by
  have hword : x.toUInt64 = UInt64.ofNatClamp
      (UnpackedFloat.toInt 0 (UInt64.size - 1) x.toModel.unpack).toNat := rfl
  rw [toRat_eq_valueOf hx] at h0 ⊢
  rw [hword, toNat_ofNatClamp, (proper_unpack hx).toInt_eq h0, Int.floor_toNat]

end TimingStats.Binary64
