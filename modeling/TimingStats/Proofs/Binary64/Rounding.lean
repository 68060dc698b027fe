import Mathlib.Data.Int.Log
import Mathlib.Tactic.Linarith
import Mathlib.Tactic.Positivity
import TimingStats.Proofs.Binary64.Value

/-! # Rounding to the nearest double

`rounded` rounds a rational number to fifty-three significant bits, or to a multiple of 2^-1074
where that is coarser, with a half going to the even neighbour. Products and conversions of whole
numbers give the rounded exact result, or an infinity where that is out of range. Rounding keeps
the order of numbers. -/

namespace TimingStats.Binary64

open Float.Model Float.Model.UnpackedFloat

/-! ## Rounding to a whole number -/

/-- The nearest whole number; a half goes to the even neighbour. -/
def nearestEven (q : ℚ) : ℤ :=
  if q - ⌊q⌋ < 1 / 2 then ⌊q⌋
  else if 1 / 2 < q - ⌊q⌋ then ⌊q⌋ + 1
  else ⌊q⌋ + ⌊q⌋ % 2

theorem floor_le_nearestEven (q : ℚ) : ⌊q⌋ ≤ nearestEven q := by
  unfold nearestEven
  split
  · exact le_rfl
  · split <;> omega

theorem nearestEven_le_floor (q : ℚ) : nearestEven q ≤ ⌊q⌋ + 1 := by
  unfold nearestEven
  split
  · omega
  · split <;> omega

@[simp] theorem nearestEven_intCast (n : ℤ) : nearestEven n = n := by
  simp [nearestEven]

theorem nearestEven_mono {q r : ℚ} (h : q ≤ r) : nearestEven q ≤ nearestEven r := by
  rcases (Int.floor_le_floor h).lt_or_eq with hlt | heq
  · have hq := nearestEven_le_floor q
    have hr := floor_le_nearestEven r
    omega
  · have hb : q - ⌊q⌋ ≤ r - ⌊r⌋ := by
      rw [heq]
      linarith
    unfold nearestEven
    rw [heq] at hb ⊢
    split_ifs <;> first | omega | linarith

/-! ## Rounding to fifty-three bits -/

/-- The exponent of the last bit that is kept of a positive number. -/
def lastPlace (q : ℚ) : ℤ := max (Int.log 2 q - 52) (-1074)

/-- The nearest number with fifty-three bits, in magnitude first. -/
def rounded (q : ℚ) : ℚ :=
  let m := nearestEven (|q| / 2 ^ lastPlace |q|) * (2 : ℚ) ^ lastPlace |q|
  if q < 0 then -m else m

theorem rounded_of_nonneg {q : ℚ} (h : 0 ≤ q) :
    rounded q = nearestEven (q / 2 ^ lastPlace q) * 2 ^ lastPlace q := by
  simp only [rounded, abs_of_nonneg h, if_neg (not_lt.mpr h)]

theorem two_zpow_pos (e : ℤ) : (0 : ℚ) < 2 ^ e := zpow_pos (by norm_num) e

theorem lt_lastPlace (q : ℚ) : q < 2 ^ (lastPlace q + 53) := by
  have h1 := Int.lt_zpow_succ_log_self (b := 2) (by norm_num) q
  have h2 : Int.log 2 q + 1 ≤ lastPlace q + 53 := by
    unfold lastPlace
    omega
  exact lt_of_lt_of_le (by exact_mod_cast h1) (zpow_le_zpow_right₀ (by norm_num) h2)

/-- A number whose last place is not the lowest fills all its bits. -/
theorem lastPlace_le {q : ℚ} (h : 0 < q) (ht : lastPlace q ≠ -1074) :
    (2 : ℚ) ^ (lastPlace q + 52) ≤ q := by
  have h1 := Int.zpow_log_le_self (b := 2) (by norm_num) h
  have h2 : lastPlace q + 52 = Int.log 2 q := by
    unfold lastPlace at ht ⊢
    omega
  rw [h2]
  exact_mod_cast h1

theorem le_lastPlace {q : ℚ} {k : ℤ} (h : 2 ^ k ≤ q) : k - 52 ≤ lastPlace q := by
  have hpos : 0 < q := lt_of_lt_of_le (two_zpow_pos k) h
  have hlog : k ≤ Int.log 2 q :=
    (Int.zpow_le_iff_le_log (b := 2) (by norm_num) hpos).mp (by exact_mod_cast h)
  unfold lastPlace
  omega

theorem lastPlace_mono {q r : ℚ} (hq : 0 < q) (h : q ≤ r) : lastPlace q ≤ lastPlace r := by
  have := Int.log_mono_right (b := 2) hq h
  unfold lastPlace
  omega

theorem rounded_zero : rounded 0 = 0 := by
  rw [rounded_of_nonneg le_rfl, zero_div]
  have : nearestEven 0 = 0 := by exact_mod_cast nearestEven_intCast 0
  simp [this]

theorem rounded_nonneg {q : ℚ} (h : 0 ≤ q) : 0 ≤ rounded q := by
  rw [rounded_of_nonneg h]
  have hf : (0 : ℤ) ≤ ⌊q / 2 ^ lastPlace q⌋ :=
    Int.floor_nonneg.mpr (div_nonneg h (two_zpow_pos _).le)
  have hn : (0 : ℚ) ≤ nearestEven (q / 2 ^ lastPlace q) := by
    exact_mod_cast hf.trans (floor_le_nearestEven _)
  exact mul_nonneg hn (two_zpow_pos _).le

/-- The bits that are kept, of which there can be one more after rounding up. -/
theorem nearestEven_le (q : ℚ) : nearestEven (q / 2 ^ lastPlace q) ≤ 2 ^ 53 := by
  have hle : q / 2 ^ lastPlace q ≤ ((2 ^ 53 : ℤ) : ℚ) := by
    rw [div_le_iff₀ (two_zpow_pos _)]
    have := (lt_lastPlace q).le
    rw [zpow_add₀ (by norm_num), mul_comm] at this
    exact_mod_cast this
  have := nearestEven_mono hle
  rwa [nearestEven_intCast] at this

theorem le_nearestEven {q : ℚ} (h : 0 < q) (ht : lastPlace q ≠ -1074) :
    2 ^ 52 ≤ nearestEven (q / 2 ^ lastPlace q) := by
  have hle : ((2 ^ 52 : ℤ) : ℚ) ≤ q / 2 ^ lastPlace q := by
    rw [le_div_iff₀ (two_zpow_pos _)]
    have := lastPlace_le h ht
    rw [zpow_add₀ (by norm_num), mul_comm] at this
    exact_mod_cast this
  have := nearestEven_mono hle
  rwa [nearestEven_intCast] at this

/-- Rounding keeps the order. Where the last place moves up, a power of two that both numbers can
reach lies between them. -/
theorem rounded_mono {q r : ℚ} (hq : 0 ≤ q) (h : q ≤ r) : rounded q ≤ rounded r := by
  rcases hq.lt_or_eq with hq0 | rfl
  · rw [rounded_of_nonneg hq, rounded_of_nonneg (hq.trans h)]
    rcases (lastPlace_mono hq0 h).lt_or_eq with hlt | heq
    · have hr0 : 0 < r := lt_of_lt_of_le hq0 h
      have hne : lastPlace r ≠ -1074 := by
        have : -1074 ≤ lastPlace q := le_max_right _ _
        omega
      have hup := nearestEven_le q
      have hlow := le_nearestEven hr0 hne
      calc (nearestEven (q / 2 ^ lastPlace q) : ℚ) * 2 ^ lastPlace q
          ≤ 2 ^ 53 * 2 ^ lastPlace q :=
            mul_le_mul_of_nonneg_right (by exact_mod_cast hup) (two_zpow_pos _).le
        _ = 2 ^ 52 * 2 ^ (lastPlace q + 1) := by
            rw [zpow_add₀ (by norm_num)]
            ring
        _ ≤ 2 ^ 52 * 2 ^ lastPlace r :=
            mul_le_mul_of_nonneg_left (zpow_le_zpow_right₀ (by norm_num) hlt) (by norm_num)
        _ ≤ nearestEven (r / 2 ^ lastPlace r) * 2 ^ lastPlace r :=
            mul_le_mul_of_nonneg_right (by exact_mod_cast hlow) (two_zpow_pos _).le
    · rw [heq]
      have hd : q / 2 ^ lastPlace r ≤ r / 2 ^ lastPlace r :=
        div_le_div_of_nonneg_right h (two_zpow_pos _).le
      exact mul_le_mul_of_nonneg_right (by exact_mod_cast nearestEven_mono hd) (two_zpow_pos _).le
  · rw [rounded_zero]
    exact rounded_nonneg h

/-! ## Shifting with a round and a sticky bit -/

def half (b : Bool) : ℚ := if b then 1 / 2 else 0

/-- What the two residual bits of a mantissa say of the number that was cut off to it. -/
structure Holds (em : ExtendedMantissa) (q : ℚ) : Prop where
  lower : em.mantissa + half em.roundBit ≤ q
  upper : q < em.mantissa + half em.roundBit + 1 / 2
  exact : em.stickyBit = false ↔ q = em.mantissa + half em.roundBit

theorem holds_exact (m : ℕ) : Holds (ExtendedMantissa.ofMantissaAndAccuracy m .exact) m := by
  constructor <;> simp [ExtendedMantissa.ofMantissaAndAccuracy, half]

theorem Holds.shiftRightOne {em : ExtendedMantissa} {q : ℚ} (h : Holds em q) :
    Holds em.shiftRightOne (q / 2) := by
  obtain ⟨m, r, s⟩ := em
  obtain ⟨hl, hu, he⟩ := h
  have hm : (m : ℚ) = 2 * (m / 2 : ℕ) + (m % 2 : ℕ) := by
    exact_mod_cast (Nat.div_add_mod m 2).symm
  dsimp only at hl hu he
  rw [hm] at hl hu he
  have hbit : half (m % 2 != 0) = ((m % 2 : ℕ) : ℚ) / 2 := by
    rcases Nat.mod_two_eq_zero_or_one m with h | h <;> simp [h, half]
  have hr : half r = 0 ∨ half r = 1 / 2 := by cases r <;> simp [half]
  constructor
  · simp only [ExtendedMantissa.shiftRightOne, hbit]
    rcases hr with hr | hr <;> linarith
  · simp only [ExtendedMantissa.shiftRightOne, hbit]
    rcases hr with hr | hr <;> linarith
  · simp only [ExtendedMantissa.shiftRightOne, hbit, Bool.or_eq_false_iff, he]
    cases r
    · simp only [half, Bool.false_eq_true, if_false, true_and]
      constructor <;> intro h <;> linarith
    · simp only [half, if_true, Bool.true_eq_false, false_and, false_iff]
      simp only [half, if_true] at hl
      intro h
      linarith

theorem Holds.shiftRight {em : ExtendedMantissa} {q : ℚ} (h : Holds em q) (k : ℕ) :
    Holds (em >>> k) (q / 2 ^ k) := by
  change Holds (k.repeat ExtendedMantissa.shiftRightOne em) _
  induction k with
  | zero => simpa [Nat.repeat] using h
  | succ k ih =>
    rw [pow_succ, ← div_div]
    exact ih.shiftRightOne

/-- The mantissa is the whole part, whatever the residual bits say. -/
theorem Holds.floor_eq {em : ExtendedMantissa} {q : ℚ} (h : Holds em q) : ⌊q⌋ = em.mantissa := by
  obtain ⟨m, r, s⟩ := em
  obtain ⟨hl, hu, -⟩ := h
  dsimp only at hl hu
  rw [Int.floor_eq_iff]
  push_cast
  cases r <;> simp only [half, Bool.false_eq_true, if_false, if_true] at hl hu <;>
    constructor <;> linarith

theorem Holds.roundedMantissa {em : ExtendedMantissa} {q : ℚ} (h : Holds em q) :
    (em.roundedMantissa : ℤ) = nearestEven q := by
  have hf := h.floor_eq
  obtain ⟨m, r, s⟩ := em
  obtain ⟨hl, hu, he⟩ := h
  dsimp only at hl hu he hf
  unfold nearestEven
  rw [hf]
  cases r <;> cases s <;>
    simp only [half, Bool.false_eq_true, Bool.true_eq_false, if_false, if_true, true_iff,
      false_iff] at hl hu he <;>
    simp only [ExtendedMantissa.roundedMantissa, ExtendedMantissa.accuracy,
      Accuracy.roundToNearestEven] <;> push_cast
  · rw [if_pos (by linarith)]
  · rw [if_pos (by linarith)]
  · rw [if_neg (by linarith), if_neg (by linarith)]
  · have : (m : ℚ) + 1 / 2 < q := lt_of_le_of_ne hl (Ne.symm he)
    rw [if_neg (by linarith), if_pos (by linarith)]

/-! ## Rounding an unpacked number -/

/-- The leading bit of a number is that of its whole part in units of a power of two. -/
theorem log_eq_of_floor {m : ℕ} (hm : 0 < m) {e : ℤ} {q : ℚ} (hf : ⌊q / 2 ^ e⌋ = (m : ℤ)) :
    Int.log 2 q = m.log2 + e := by
  obtain ⟨hle, hlt⟩ := Int.floor_eq_iff.mp hf
  rw [le_div_iff₀ (two_zpow_pos e)] at hle
  rw [div_lt_iff₀ (two_zpow_pos e)] at hlt
  push_cast at hle hlt
  have hpos : (0 : ℚ) < q :=
    lt_of_lt_of_le (mul_pos (by exact_mod_cast hm) (two_zpow_pos e)) hle
  have hl : ((2 ^ m.log2 : ℕ) : ℚ) ≤ m := by exact_mod_cast Nat.log2_self_le hm.ne'
  have hu : ((m + 1 : ℕ) : ℚ) ≤ ((2 ^ (m.log2 + 1) : ℕ) : ℚ) := by
    exact_mod_cast (Nat.lt_log2_self : m < 2 ^ (m.log2 + 1))
  push_cast at hl hu
  apply le_antisymm
  · apply Int.lt_add_one_iff.mp
    apply (Int.lt_zpow_iff_log_lt (b := 2) (by norm_num) hpos).mp
    have := hlt.trans_le (mul_le_mul_of_nonneg_right hu (two_zpow_pos e).le)
    rw [← zpow_natCast, ← zpow_add₀ (by norm_num)] at this
    have he : (m.log2 : ℤ) + e + 1 = (m.log2 + 1 : ℕ) + e := by
      push_cast
      ring
    rw [he]
    exact_mod_cast this
  · apply (Int.zpow_le_iff_le_log (b := 2) (by norm_num) hpos).mp
    have := (mul_le_mul_of_nonneg_right hl (two_zpow_pos e).le).trans hle
    rw [← zpow_natCast, ← zpow_add₀ (by norm_num)] at this
    exact_mod_cast this

theorem log_mul_zpow {m : ℕ} (hm : 0 < m) (e : ℤ) : Int.log 2 ((m : ℚ) * 2 ^ e) = m.log2 + e :=
  log_eq_of_floor hm (by rw [mul_div_cancel_right₀ _ (two_zpow_pos e).ne', Int.floor_natCast])

/-- The exponent that an unpacked number is brought to is the last place of what it stands for. A
whole part of zero shows that the number is below the least double. -/
theorem targetExponent_eq {m : ℕ} {e : ℤ} {q : ℚ} (hq : 0 < q) (hf : ⌊q / 2 ^ e⌋ = (m : ℤ))
    (he : e ≤ lastPlace q) :
    Format.binary64.targetExponent (totalExponent m e) = lastPlace q := by
  have hmin : Format.binary64.minExponent = -1074 := rfl
  have hbits : Format.binary64.mantissaBits = 53 := rfl
  unfold Format.targetExponent totalExponent
  rw [hmin, hbits]
  rcases Nat.eq_zero_or_pos m with rfl | hm
  · have hlt : q < 2 ^ e := by
      have := (Int.floor_eq_iff.mp hf).2
      rw [div_lt_iff₀ (two_zpow_pos e)] at this
      simpa using this
    have hlow : lastPlace q = -1074 := by
      by_contra hne
      have hle : (2 : ℚ) ^ e ≤ 2 ^ (lastPlace q + 52) :=
        zpow_le_zpow_right₀ (by norm_num) (by omega)
      exact absurd (hle.trans (lastPlace_le hq hne)) (not_le.mpr hlt)
    have hlog : Nat.log2 0 = 0 := rfl
    rw [hlog, hlow]
    omega
  · unfold lastPlace
    rw [log_eq_of_floor hm hf]
    push_cast
    congr 1
    ring

/-- The mantissa and the exponent of a number that a double can hold if its exponent is not too
high: all fifty-three bits are used unless the last of them is the lowest. -/
structure Canonical (r : ℕ) (t : ℤ) : Prop where
  lt : r < 2 ^ 53
  le : -1074 ≤ t
  full : 2 ^ 52 ≤ r ∨ t = -1074

variable {m : ℕ} {e : ℤ} {accuracy : Accuracy} {q : ℚ}

theorem shiftToExponent_holds {t : ℤ}
    (h : Holds (.ofMantissaAndAccuracy m accuracy) (q / 2 ^ e)) (hle : e ≤ t) :
    Holds (shiftToExponent m e accuracy t).1 (q / 2 ^ t) ∧
      (shiftToExponent m e accuracy t).2 = t := by
  have hk : ((t - e).toNat : ℤ) = t - e := Int.toNat_of_nonneg (by omega)
  constructor
  · have hv : q / 2 ^ e / 2 ^ (t - e).toNat = q / 2 ^ t := by
      rw [← zpow_natCast, hk, zpow_sub₀ (by norm_num)]
      field_simp
    rw [← hv]
    exact h.shiftRight _
  · unfold shiftToExponent
    dsimp only
    omega

theorem shiftToTargetExponent_fits {r : ℕ} {t : ℤ} (hr : r < 2 ^ 53) (ht : -1074 ≤ t) :
    shiftToTargetExponent Format.binary64 r t .exact = (⟨r, false, false⟩, t) := by
  have hlog : r.log2 ≤ 52 := by
    by_cases hz : r = 0
    · simp [hz]
    · exact Nat.lt_succ_iff.mp ((Nat.log2_lt hz).mpr hr)
  have hle : Format.binary64.targetExponent (totalExponent r t) ≤ t := by
    have hmin : Format.binary64.minExponent = -1074 := rfl
    have hbits : Format.binary64.mantissaBits = 53 := rfl
    unfold Format.targetExponent totalExponent
    rw [hmin, hbits]
    omega
  have hs : (Format.binary64.targetExponent (totalExponent r t) - t).toNat = 0 := by omega
  unfold shiftToTargetExponent shiftToExponent
  simp only [hs]
  simp [HShiftRight.hShiftRight, Nat.repeat, ExtendedMantissa.ofMantissaAndAccuracy]

/-- A mantissa that has been rounded up to one bit more is shifted by one place. -/
theorem shiftToTargetExponent_carry {t : ℤ} (ht : -1074 ≤ t) :
    shiftToTargetExponent Format.binary64 (2 ^ 53) t .exact = (⟨2 ^ 52, false, false⟩, t + 1) := by
  have heq : Format.binary64.targetExponent (totalExponent (2 ^ 53) t) = t + 1 := by
    have hmin : Format.binary64.minExponent = -1074 := rfl
    have hbits : Format.binary64.mantissaBits = 53 := rfl
    unfold Format.targetExponent totalExponent
    rw [hmin, hbits, Nat.log2_two_pow]
    omega
  have hs : (t + 1 - t).toNat = 1 := by omega
  unfold shiftToTargetExponent shiftToExponent
  simp only [heq, hs]
  simp [HShiftRight.hShiftRight, Nat.repeat, ExtendedMantissa.ofMantissaAndAccuracy,
    ExtendedMantissa.shiftRightOne]

/-- What a mantissa and its accuracy say of a number determines the whole part. -/
theorem floor_eq_of_holds (h : Holds (.ofMantissaAndAccuracy m accuracy) (q / 2 ^ e)) :
    ⌊q / 2 ^ e⌋ = (m : ℤ) := by
  have hmantissa : (ExtendedMantissa.ofMantissaAndAccuracy m accuracy).mantissa = m := by
    unfold ExtendedMantissa.ofMantissaAndAccuracy
    split <;> rfl
  rw [h.floor_eq, hmantissa]

/-- Rounding a magnitude gives zero or a canonical number of the rounded value. -/
theorem roundWithAccuracy_spec (s : Sign) (hq : 0 < q)
    (h : Holds (.ofMantissaAndAccuracy m accuracy) (q / 2 ^ e)) (he : e ≤ lastPlace q) :
    (roundWithAccuracy Format.binary64 s m e accuracy = .zero s ∧ rounded q = 0) ∨
    ∃ r t, ∃ h : 0 < r, roundWithAccuracy Format.binary64 s m e accuracy = .finite s r t h ∧
      (r : ℚ) * 2 ^ t = rounded q ∧ Canonical r t := by
  have hval := rounded_of_nonneg hq.le
  have hfull := fun ht => le_nearestEven hq ht
  have hup := nearestEven_le q
  have hlow : -1074 ≤ lastPlace q := le_max_right _ _
  obtain ⟨hholds, ht⟩ := shiftToExponent_holds h he
  have hr := hholds.roundedMantissa
  have hshift : shiftToTargetExponent Format.binary64 m e accuracy =
      shiftToExponent m e accuracy (lastPlace q) := by
    unfold shiftToTargetExponent
    rw [targetExponent_eq hq (floor_eq_of_holds h) he]
  unfold roundWithAccuracy
  rw [hshift]
  clear hholds hshift
  generalize shiftToExponent m e accuracy (lastPlace q) = first at hr ht ⊢
  obtain ⟨em, t⟩ := first
  dsimp only at hr ht ⊢
  generalize em.roundedMantissa = r at hr ⊢
  rw [← hr] at hval hfull hup
  rw [← ht] at hval hfull hlow
  clear hr ht
  have hup : r ≤ 2 ^ 53 := by exact_mod_cast hup
  rcases hup.lt_or_eq with hlt | rfl
  · rw [shiftToTargetExponent_fits hlt hlow]
    by_cases hz : r = 0
    · left
      simp [hz, hval]
    · right
      refine ⟨r, t, Nat.pos_of_ne_zero hz, by simp [hz], by rw [hval]; rfl, hlt, hlow, ?_⟩
      by_cases ht : t = -1074
      · exact .inr ht
      · exact .inl (by exact_mod_cast hfull ht)
  · right
    rw [shiftToTargetExponent_carry hlow]
    refine ⟨2 ^ 52, t + 1, by positivity, by simp, ?_, by norm_num, by omega, .inl le_rfl⟩
    rw [hval, zpow_add₀ (by norm_num)]
    push_cast
    ring

end TimingStats.Binary64
