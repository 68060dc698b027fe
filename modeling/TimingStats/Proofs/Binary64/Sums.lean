import TimingStats.Proofs.Binary64.Representable

/-! # Sums and differences

The sum and the difference of two finite doubles are the rounded exact results. Numbers are added
as they unpack: brought to the lower of their exponents, where both are whole. -/

namespace TimingStats.Binary64

open Float.Model Float.Model.UnpackedFloat

/-- What a finite double can unpack to: a zero, or a canonical number in range. -/
inductive Proper : UnpackedFloat → Prop where
  | zero (s : Sign) : Proper (.zero s)
  | finite (s : Sign) {m : ℕ} {e : ℤ} (hm : 0 < m) (canonical : Canonical m e) (inRange : e ≤ 971) :
    Proper (.finite s m e hm)

variable {a b : UnpackedFloat} {x y : Float} {q : ℚ}

/-- Exact results of one rounded value and one sign have the same double. -/
theorem Rounds.of_rounded_eq {r : ℚ} (hx : Rounds x q) (h : rounded r = rounded q)
    (hsign : r < 0 ↔ q < 0) : Rounds x r where
  finite hlt := h ▸ hx.finite (h ▸ hlt)
  overflow hle := by
    rw [hx.overflow (h ▸ hle)]
    congr 1
    simp only [hsign]

theorem Rounds.neg (hx : Rounds x q) : Rounds (-x) (-q) := by
  refine ⟨fun hlt => ?_, fun hle => ?_⟩
  · rw [rounded_neg, abs_neg] at hlt
    obtain ⟨hf, hv⟩ := hx.finite hlt
    obtain ⟨hnf, hnv⟩ := neg_exact hf
    exact ⟨hnf, by rw [hnv, hv, rounded_neg]⟩
  · rw [rounded_neg, abs_neg] at hle
    have hneg : (-x).toModel = Float.Model.pack x.toModel.unpack.neg := rfl
    have hne : q ≠ 0 := by
      rintro rfl
      rw [rounded_zero, abs_zero] at hle
      exact absurd hle (by norm_num)
    rw [hneg, hx.overflow hle]
    rcases hne.lt_or_gt with hlt | hgt
    · rw [if_pos hlt, if_neg (by linarith)]
      exact unpack_packedInfinity .positive
    · rw [if_neg (by linarith), if_pos (by linarith)]
      exact unpack_packedInfinity .negative

theorem proper_unpack (hx : isFinite x = true) : Proper x.toModel.unpack := by
  by_cases h0 : toRat x = 0
  · obtain ⟨s, hs⟩ := unpack_zero hx h0
    exact hs ▸ .zero s
  · obtain ⟨m, e, hm, hu, -, hc⟩ := unpack_finite hx h0
    exact hu ▸ .finite _ hm hc (exponent_le hx hu)

theorem Proper.unpack_pack (ha : Proper a) : (Float.Model.pack a).unpack = a := by
  cases ha with
  | zero s => exact unpack_pack_zero s
  | finite s hm hc he => exact (Binary64.unpack_pack hm hc).trans (if_pos he)

/-- Packing a number that a double can unpack to gives that double. -/
theorem Proper.rounds (ha : Proper a) : Rounds (.ofModel (.pack a)) (valueOf a) := by
  have hback := ha.unpack_pack
  have hfinite : isFinite (.ofModel (.pack a)) = true := by
    cases ha with
    | zero s => exact isFinite_of_unpack_zero hback
    | finite s hm hc he => exact isFinite_of_unpack hback
  have hval : toRat (.ofModel (.pack a)) = valueOf a := by
    rw [toRat_eq_valueOf hfinite]
    exact congrArg valueOf hback
  rw [← hval]
  refine ⟨fun _ => ⟨hfinite, (representable_toRat _).symm⟩, fun hover => ?_⟩
  rw [representable_toRat] at hover
  exact absurd (abs_toRat_lt hfinite) (not_lt.mpr hover)

theorem Proper.neg (ha : Proper a) : Proper a.neg := by
  cases ha with
  | zero s => exact .zero (-s)
  | finite s hm hc he => exact .finite (-s) hm hc he

theorem valueOf_neg (a : UnpackedFloat) : valueOf a.neg = -valueOf a := by
  cases a with
  | finite s m e hm =>
    rw [UnpackedFloat.neg, valueOf, valueOf, apply_eq_factor, apply_eq_factor, factor_neg, neg_mul,
      neg_mul]
  | _ => exact neg_zero.symm

/-! ## Sums -/

/-- A mantissa is brought to a lower exponent without loss. -/
theorem apply_decreaseExponent (s : Sign) (m : ℕ) {e t : ℤ} (h : t ≤ e) :
    ((s.apply ((decreaseExponent m e t).1 : ℕ) : ℤ) : ℚ) * 2 ^ t = (s.apply m : ℤ) * 2 ^ e := by
  have hk : ((e - t).toNat : ℤ) = e - t := Int.toNat_of_nonneg (by omega)
  have hsplit : (2 : ℚ) ^ e = 2 ^ (e - t).toNat * 2 ^ t := by
    rw [← zpow_natCast, hk, ← zpow_add₀ (by norm_num), sub_add_cancel]
  have hm : (decreaseExponent m e t).1 = m * 2 ^ (e - t).toNat := Nat.shiftLeft_eq m _
  rw [hm, apply_eq_factor, apply_eq_factor, hsplit]
  push_cast
  ring

theorem rounds_add (ha : Proper a) (hb : Proper b) :
    Rounds (.ofModel (.pack (UnpackedFloat.add Format.binary64 a b))) (valueOf a + valueOf b) := by
  cases ha with
  | zero s =>
    cases hb with
    | zero t =>
      have hzero : ∃ u, UnpackedFloat.add Format.binary64 (.zero s) (.zero t) = .zero u := by
        unfold UnpackedFloat.add
        dsimp only
        split
        · exact ⟨_, rfl⟩
        · exact ⟨_, rfl⟩
      obtain ⟨u, hu⟩ := hzero
      rw [hu, show valueOf (.zero s) = 0 from rfl, zero_add]
      exact rounds_of_unpack_zero (unpack_pack_zero u)
    | finite t hn hd hf =>
      rw [show valueOf (.zero s) = 0 from rfl, zero_add]
      exact (Proper.finite t hn hd hf).rounds
  | @finite s m e hm hc he =>
    cases hb with
    | zero t =>
      rw [show valueOf (.zero t) = 0 from rfl, add_zero]
      exact (Proper.finite s hm hc he).rounds
    | @finite t n f hn hd hf =>
      have hround := rounds_normalize
        (s.apply ((decreaseExponent m e (min e f)).1 : ℕ) +
          t.apply ((decreaseExponent n f (min e f)).1 : ℕ)) (min e f)
      rw [Int.cast_add, add_mul, apply_decreaseExponent s m (min_le_left e f),
        apply_decreaseExponent t n (min_le_right e f)] at hround
      exact hround

theorem add_rounds (hx : isFinite x = true) (hy : isFinite y = true) :
    Rounds (x + y) (toRat x + toRat y) := by
  rw [toRat_eq_valueOf hx, toRat_eq_valueOf hy]
  exact rounds_add (proper_unpack hx) (proper_unpack hy)

/-! ## Sums out of range -/

theorem Rounds.finite_of_lt (hx : Rounds x q) (hq : 0 ≤ q) (hlt : rounded q < 2 ^ 1024) :
    isFinite x = true ∧ toRat x = rounded q :=
  hx.finite (by rwa [abs_of_nonneg (rounded_nonneg hq)])

theorem Rounds.infinite_of_le (hx : Rounds x q) (hq : 0 ≤ q) (hle : 2 ^ 1024 ≤ rounded q) :
    x.toModel.unpack = .infinity .positive := by
  rw [hx.overflow (by rwa [abs_of_nonneg (rounded_nonneg hq)]), if_neg (not_lt.mpr hq)]

theorem rounds_of_unpack_infinity (hx : x.toModel.unpack = .infinity .positive)
    (hle : 2 ^ 1024 ≤ q) : Rounds x q := by
  have hlow : Representable (2 ^ 1024) := by
    exact_mod_cast representable_two_zpow (e := 1024) (by norm_num)
  have hq : 0 ≤ q := le_trans (by positivity) hle
  have hround : 2 ^ 1024 ≤ |rounded q| := by
    rw [abs_of_nonneg (rounded_nonneg hq)]
    exact hlow.le_rounded hle
  exact ⟨fun hlt => absurd hround (not_le.mpr hlt), fun _ => by rw [hx, if_neg (not_lt.mpr hq)]⟩

theorem unpack_mul_infinity (hx : isFinite x = true) (hpos : 0 < toRat x)
    (hy : y.toModel.unpack = .infinity .positive) :
    (x * y).toModel.unpack = .infinity .positive := by
  have hmul : x * y = .ofModel (.pack
      (UnpackedFloat.mul Format.binary64 x.toModel.unpack y.toModel.unpack)) := rfl
  obtain ⟨m, e, hm, hu, hv, -⟩ := unpack_finite hx hpos.ne'
  have hsign : sign x = .positive := by
    rw [← sign_factor_mul (sign x) (mul_pos (Nat.cast_pos.mpr hm) (two_zpow_pos e)), ← hv,
      if_neg hpos.not_gt]
  rw [hmul, hu, hy, hsign]
  exact unpack_packedInfinity .positive

theorem Proper.add_infinity (ha : Proper a) (s : Sign) :
    UnpackedFloat.add Format.binary64 a (.infinity s) = .infinity s := by
  cases ha <;> rfl

theorem Proper.infinity_add (ha : Proper a) (s : Sign) :
    UnpackedFloat.add Format.binary64 (.infinity s) a = .infinity s := by
  cases ha <;> rfl

/-- Results that are not negative may be out of range before they are added: an infinity stays. -/
theorem Rounds.add_of_nonneg {r : ℚ} (hx : Rounds x q) (hy : Rounds y r) (hq : 0 ≤ q)
    (hr : 0 ≤ r) : Rounds (x + y) (rounded q + rounded r) := by
  have hadd : x + y = .ofModel (.pack
      (UnpackedFloat.add Format.binary64 x.toModel.unpack y.toModel.unpack)) := rfl
  have hrq := rounded_nonneg hq
  have hrr := rounded_nonneg hr
  rcases lt_or_ge (rounded q) (2 ^ 1024) with hxlt | hxge
  · obtain ⟨hxf, hxv⟩ := hx.finite_of_lt hq hxlt
    rcases lt_or_ge (rounded r) (2 ^ 1024) with hylt | hyge
    · obtain ⟨hyf, hyv⟩ := hy.finite_of_lt hr hylt
      rw [← hxv, ← hyv]
      exact add_rounds hxf hyf
    · refine rounds_of_unpack_infinity ?_ (hyge.trans (le_add_of_nonneg_left hrq))
      rw [hadd, hy.infinite_of_le hr hyge, (proper_unpack hxf).add_infinity]
      exact unpack_packedInfinity .positive
  · refine rounds_of_unpack_infinity ?_ (hxge.trans (le_add_of_nonneg_right hrr))
    rw [hadd, hx.infinite_of_le hq hxge]
    rcases lt_or_ge (rounded r) (2 ^ 1024) with hylt | hyge
    · obtain ⟨hyf, -⟩ := hy.finite_of_lt hr hylt
      rw [(proper_unpack hyf).infinity_add]
      exact unpack_packedInfinity .positive
    · rw [hy.infinite_of_le hr hyge]
      exact unpack_packedInfinity .positive

/-! ## Differences -/

theorem unpacked_sub_eq (a b : UnpackedFloat) :
    UnpackedFloat.sub Format.binary64 a b = UnpackedFloat.add Format.binary64 a b.neg := by
  cases a with
  | finite s m e hm =>
    cases b with
    | finite t n f hn =>
      have hsign : ∀ k : ℤ, -t.apply k = (-t).apply k := by
        intro k
        cases t
        · exact neg_neg k
        · rfl
      unfold UnpackedFloat.sub UnpackedFloat.add UnpackedFloat.neg
      dsimp only
      rw [Int.sub_eq_add_neg, hsign]
    | _ => rfl
  | _ => cases b <;> rfl

/-- The difference of finite doubles is the rounded exact difference. -/
theorem sub_rounds (hx : isFinite x = true) (hy : isFinite y = true) :
    Rounds (x - y) (toRat x - toRat y) := by
  have hsub : x - y = .ofModel (.pack
      (UnpackedFloat.sub Format.binary64 x.toModel.unpack y.toModel.unpack)) := rfl
  rw [hsub, unpacked_sub_eq, toRat_eq_valueOf hx, toRat_eq_valueOf hy, sub_eq_add_neg,
    ← valueOf_neg]
  exact rounds_add (proper_unpack hx) (proper_unpack hy).neg

end TimingStats.Binary64
