import Mathlib.Tactic.Ring
import TimingStats.Accumulator

/-! # Carries and borrows

A carry or a borrow may run through any number of words. What it leaves is stated on the whole
number: nothing is lost on the way, and a carry that runs out of words was worth more than they
can hold. The highest place in use is stated on the number as well, so that the canonical form
of a sum says nothing about single words. -/

namespace TimingStats.Words

theorem unit_eq_two_pow (n : Nat) : unit n = 2 ^ (64 * n) := (Nat.pow_mul 2 64 n).symm

theorem unit_le_unit {m n : Nat} (h : m ≤ n) : unit m ≤ unit n :=
  Nat.pow_le_pow_right (by decide) h

/-- A word that is not zero makes the number at least a one in its place. -/
theorem unit_le_below {f : Nat → UInt64} {i n : Nat} (h : i < n) (hi : f i ≠ 0) :
    unit i ≤ below f n := by
  induction n with
  | zero => omega
  | succ n ih =>
    rw [below]
    rcases Nat.lt_or_eq_of_le (Nat.lt_succ_iff.mp h) with hlt | rfl
    · exact Nat.le_add_right_of_le (ih hlt)
    · have hpos : 0 < (f i).toNat := by
        rw [Nat.pos_iff_ne_zero, Ne, ← UInt64.toNat_zero, UInt64.toNat_inj]
        exact hi
      exact Nat.le_add_left_of_le (Nat.le_mul_of_pos_left _ hpos)

/-- How large a number is shows in which of its words are zero. -/
theorem below_lt_unit_iff {f : Nat → UInt64} {m n : Nat} (hmn : m ≤ n) :
    below f n < unit m ↔ ∀ i, m ≤ i → i < n → f i = 0 := by
  constructor
  · intro h i hmi hin
    by_contra hne
    have h1 := unit_le_below hin hne
    have h2 := unit_le_unit hmi
    omega
  · intro h
    rw [below_eq_of_zero hmn h]
    exact below_lt f m

/-- The lowest words are the whole number if it is no larger than they can hold. -/
theorem below_eq_below {f : Nat → UInt64} {m n : Nat} (hmn : m ≤ n) (h : below f n < unit m) :
    below f n = below f m :=
  below_eq_of_zero hmn ((below_lt_unit_iff hmn).mp h)

end TimingStats.Words

namespace TimingStats.Accumulator

open Words

/-! ## A carry -/

/-- **A carry is added to the number, or the number has no room for it.** The words from the
place where it came to rest are as they were. -/
theorem carryUp_spec (words : Vector UInt64 n) (i : Nat) (hi : i ≤ n) (carry : Bool) :
    (∃ ws j, carryUp words i hi carry = .ok (ws, j) ∧ i ≤ j.val ∧
      below (get ws) n = below (get words) n + unit i * carry.toNat ∧
      ∀ m, j.val ≤ m → get ws m = get words m) ∨
    (carryUp words i hi carry = .error .carryOut ∧
      unit n ≤ below (get words) n + unit i * carry.toNat) := by
  fun_induction carryUp words i hi carry with
  | case1 words i hi h sum ih =>
    have hsum : below (get sum.1) n + unit (i + 1) * sum.2.toNat =
        below (get words) n + unit i * 1 := below_addAt words 1 false h h
    have hkeep : ∀ m, i + 1 ≤ m → get sum.1 m = get words m := fun m hm =>
      get_addAt_ne words 1 false h (by omega)
    rw [Bool.toNat_true]
    rcases ih with ⟨ws, j, hrun, hij, hval, hsame⟩ | ⟨hrun, hover⟩
    · refine .inl ⟨ws, j, hrun, by omega, hval.trans hsum, fun m hm => ?_⟩
      rw [hsame m hm, hkeep m (by omega)]
    · exact .inr ⟨hrun, hsum ▸ hover⟩
  | case2 words i hi h =>
    obtain rfl : i = n := by omega
    refine .inr ⟨rfl, ?_⟩
    simp only [Bool.toNat_true, Nat.mul_one]
    omega
  | case3 words i hi carry hc =>
    obtain rfl : carry = false := Bool.eq_false_iff.mpr hc
    exact .inl ⟨words, ⟨i, hi⟩, rfl, Nat.le_refl i, by simp, fun _ _ => rfl⟩

/-! ## A borrow -/

/-- **A borrow that the number can pay is taken from it**, and from no word above the highest in
use. -/
theorem borrowUp_spec (words : Vector UInt64 n) (i top : Nat) (htop : top < n) (borrow : Bool)
    (hzero : ∀ m, i ≤ m → top < m → get words m = 0)
    (hpay : unit i * borrow.toNat ≤ below (get words) n) :
    ∃ ws, borrowUp words i top htop borrow = .ok ws ∧
      below (get ws) n + unit i * borrow.toNat = below (get words) n := by
  fun_induction borrowUp words i top htop borrow with
  | case1 words i h difference ih =>
    have hin : i < n := Nat.lt_of_le_of_lt h htop
    have hdiff : below (get difference.1) n + unit i * 1 =
        below (get words) n + unit (i + 1) * difference.2.toNat :=
      below_subAt words 1 false hin hin
    rw [Bool.toNat_true] at hpay
    have hrest : ∀ m, i + 1 ≤ m → top < m → get difference.1 m = 0 := by
      intro m hm ht
      rw [get_subAt_ne words 1 false hin (by omega), hzero m (by omega) ht]
    have hpaid : unit (i + 1) * difference.2.toNat ≤ below (get difference.1) n := by omega
    obtain ⟨ws, hrun, hval⟩ := ih hrest hpaid
    refine ⟨ws, hrun, ?_⟩
    rw [Bool.toNat_true]
    omega
  | case2 words i h =>
    -- with all words from here on zero, the number is too small for the borrow
    have hle : min i n ≤ n := Nat.min_le_right i n
    have hlt : below (get words) n < unit (min i n) := by
      rw [below_lt_unit_iff hle]
      intro m hm hn
      exact hzero m (by omega) (by omega)
    have hmin := unit_le_unit (Nat.min_le_left i n)
    simp only [Bool.toNat_true, Nat.mul_one] at hpay
    omega
  | case3 words i borrow hb =>
    obtain rfl : borrow = false := Bool.eq_false_iff.mpr hb
    exact ⟨words, rfl, by simp⟩

/-! ## The canonical form -/

/-- The place of the highest word fits the number, and zero has no sign. -/
structure Canonical (a : Accumulator) : Prop where
  magnitude_lt : a.magnitude < unit (a.top + 1)
  unit_top_le : a.top = 0 ∨ unit a.top ≤ a.magnitude
  unsigned : a.magnitude = 0 → a.negative = false

theorem magnitude_lt_unit (a : Accumulator) : a.magnitude < unit wordCount := below_lt _ _

theorem Canonical.get_eq_zero {a : Accumulator} (h : Canonical a) {i : Nat} (hi : a.top < i) :
    get a.words i = 0 := by
  by_cases hin : i < wordCount
  · exact (below_lt_unit_iff a.top_lt).mp h.magnitude_lt i hi hin
  · exact get_of_le a.words (Nat.not_lt.mp hin)

theorem lowerTop_spec (words : Vector UInt64 wordCount) {start : Nat} (h : start < wordCount)
    (hlt : below (get words) wordCount < unit (start + 1)) :
    below (get words) wordCount < unit (lowerTop words start h + 1) ∧
      (lowerTop words start h = 0 ∨
        unit (lowerTop words start h) ≤ below (get words) wordCount) := by
  induction start with
  | zero => exact ⟨hlt, .inl rfl⟩
  | succ i ih =>
    rw [lowerTop]
    split
    · rename_i hw
      apply ih
      rw [below_lt_unit_iff (Nat.le_of_lt h)]
      intro m hm hmn
      rcases Nat.lt_or_eq_of_le hm with hlo | rfl
      · exact (below_lt_unit_iff h).mp hlt m hlo hmn
      · rw [get_eq_getElem words h, hw]
    · rename_i hw
      refine ⟨hlt, .inr (unit_le_below h ?_)⟩
      rwa [get_eq_getElem words h]

/-- A zero word at the lowest place and none above it: the number is zero. -/
theorem below_eq_zero_iff {words : Vector UInt64 wordCount} {top : Nat}
    (hlt : below (get words) wordCount < unit (top + 1))
    (hle : top = 0 ∨ unit top ≤ below (get words) wordCount) :
    (top == 0 && get words 0 == 0) = true ↔ below (get words) wordCount = 0 := by
  rw [Bool.and_eq_true, beq_iff_eq, beq_iff_eq]
  constructor
  · rintro ⟨rfl, hw⟩
    rw [below_eq_below (by decide : 0 + 1 ≤ wordCount) hlt, below, below, hw]
    simp
  · intro h0
    constructor
    · have hpos := unit_pos top
      omega
    · by_contra hne
      have h1 := unit_le_below (by decide : 0 < wordCount) hne
      have hpos := unit_pos 0
      omega

theorem Canonical.isZero_iff {a : Accumulator} (h : Canonical a) :
    a.isZero = true ↔ a.magnitude = 0 :=
  below_eq_zero_iff h.magnitude_lt h.unit_top_le

/-- A search that starts high enough gives the canonical form. -/
theorem trimmed_canonical (words : Vector UInt64 wordCount) {start : Nat} (h : start < wordCount)
    (negative : Bool) (hlt : below (get words) wordCount < unit (start + 1)) :
    Canonical (trimmed words start h negative) := by
  obtain ⟨hm, ht⟩ := lowerTop_spec words h hlt
  refine ⟨hm, ht, fun h0 => ?_⟩
  have hz := (below_eq_zero_iff hm ht).mpr h0
  simp only [trimmed, hz, Bool.not_true, Bool.and_false]

/-- A canonical sum of a magnitude and a sign; a zero takes either sign. -/
theorem trimmed_value (words : Vector UInt64 wordCount) {start : Nat} (h : start < wordCount)
    (negative : Bool) (hlt : below (get words) wordCount < unit (start + 1)) :
    (trimmed words start h negative).value =
      if negative then -(below (get words) wordCount : Int)
      else below (get words) wordCount := by
  obtain ⟨hm, ht⟩ := lowerTop_spec words h hlt
  have hz := below_eq_zero_iff hm ht
  unfold value magnitude
  by_cases h0 : below (get words) wordCount = 0
  · simp [trimmed, hz.mpr h0, h0]
  · have hf := Bool.eq_false_iff.mpr (mt hz.mp h0)
    simp only [trimmed, hf, Bool.not_false, Bool.and_true]

end TimingStats.Accumulator
