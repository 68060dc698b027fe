import Mathlib.Tactic.Ring
import TimingStats.Proofs.Accumulator.Carries

/-! # Adding one double

An addition takes one of three ways through the words, by the signs and by which magnitude is
the larger. Each way is stated on the magnitudes, and `add_spec` puts them together: the signed
sum is exact or there is no room for it. -/

namespace TimingStats

open Words

namespace Addend

/-- The magnitude of a double in multiples of 2^-1074. -/
def value (x : Addend) : Nat := x.low.toNat * unit x.place + x.high.toNat * unit (x.place + 1)

/-- The words that the words of a sum meet stand for the magnitude. -/
theorem below_word (x : Addend) {n : Nat} (h : x.place + 2 ≤ n) : below x.word n = x.value := by
  have habove : ∀ i, x.place + 2 ≤ i → i < n → x.word i = 0 := fun i hi _ => by
    rw [word, if_neg (by omega), if_neg (by omega)]
  have hunder : ∀ i, 0 ≤ i → i < x.place → x.word i = 0 := fun i _ hi => by
    rw [word, if_neg (by omega), if_neg (by omega)]
  have hlow : x.word x.place = x.low := if_pos rfl
  have hhigh : x.word (x.place + 1) = x.high := by
    rw [word, if_neg (by omega), if_pos rfl]
  rw [below_eq_of_zero h habove, below, below, below_eq_of_zero (Nat.zero_le x.place) hunder,
    hlow, hhigh, value, below, Nat.zero_add]

theorem below_word_all (x : Addend) : below x.word Accumulator.wordCount = x.value :=
  x.below_word x.place_lt

theorem value_lt_top (x : Addend) : x.value < unit (x.top + 1) := by
  have hword : (x.low.toNat + 1) * unit x.place ≤ UInt64.size * unit x.place :=
    Nat.mul_le_mul_right _ x.low.toNat_lt
  unfold top
  split
  · rename_i h
    have hpos := unit_pos x.place
    rw [value, h, unit_succ, UInt64.toNat_zero, Nat.zero_mul]
    rw [Nat.succ_mul] at hword
    omega
  · rw [← x.below_word (Nat.le_refl _)]
    exact below_lt _ _

/-- Two words hold what a word and a half would need. -/
theorem two_words {wide : Nat} (h : wide < UInt64.size * UInt64.size) (p : Nat) :
    (UInt64.ofNat wide).toNat * unit p + (UInt64.ofNat (wide / UInt64.size)).toNat * unit (p + 1) =
      wide * unit p := by
  have hhigh : wide / UInt64.size < UInt64.size := Nat.div_lt_of_lt_mul h
  calc (UInt64.ofNat wide).toNat * unit p
        + (UInt64.ofNat (wide / UInt64.size)).toNat * unit (p + 1)
      = (wide % UInt64.size + UInt64.size * (wide / UInt64.size)) * unit p := by
        rw [toNat_ofNat_word, toNat_ofNat_word, Nat.mod_eq_of_lt hhigh, unit_succ, Nat.add_mul,
          ← Nat.mul_assoc, Nat.mul_comm (wide / UInt64.size)]
    _ = wide * unit p := by rw [Nat.mod_add_div]

/-- A shift is one by whole words and one by the rest. -/
theorem shiftLeft_words (s n : Nat) : s <<< (n % 64) * unit (n / 64) = s <<< n := by
  rw [Nat.shiftLeft_eq, Nat.shiftLeft_eq, unit_eq_two_pow, Nat.mul_assoc, ← Nat.pow_add,
    Nat.mod_add_div]

/-- The words of a double stand for its magnitude: the significand spans at most two of them,
at every distance from a multiple of sixty-four. -/
theorem value_ofFloat (x : Float) : (ofFloat x).value = Binary64.magnitude x := by
  have hwide : Binary64.significand x <<< (Binary64.shift x % 64) <
      UInt64.size * UInt64.size := by
    have hmod : Binary64.shift x % 64 < 64 := Nat.mod_lt _ (by decide)
    have hpow : 2 ^ (Binary64.shift x % 64) ≤ 2 ^ 63 :=
      Nat.pow_le_pow_right (by decide) (Nat.le_of_lt_succ hmod)
    rw [Nat.shiftLeft_eq]
    calc Binary64.significand x * 2 ^ (Binary64.shift x % 64)
        ≤ 2 * Binary64.hiddenBit * 2 ^ 63 :=
          Nat.mul_le_mul (Nat.le_of_lt (Binary64.significand_lt x)) hpow
      _ < UInt64.size * UInt64.size := by decide
  exact (two_words hwide _).trans (shiftLeft_words _ _)

end Addend

namespace Accumulator

variable {a : Accumulator}

/-- The words up to the highest place in use on either side hold the whole magnitude. -/
theorem Canonical.below_jointTop (h : Canonical a) (x : Addend) :
    below (get a.words) (a.jointTop x + 1) = a.magnitude := by
  have hle : unit (a.top + 1) ≤ unit (a.jointTop x + 1) :=
    unit_le_unit (Nat.succ_le_succ (Nat.le_max_left a.top x.top))
  exact (below_eq_below (a.jointTop_lt x) (Nat.lt_of_lt_of_le h.magnitude_lt hle)).symm

theorem below_word_jointTop (a : Accumulator) (x : Addend) :
    below x.word (a.jointTop x + 1) = x.value := by
  have hle : unit (x.top + 1) ≤ unit (a.jointTop x + 1) :=
    unit_le_unit (Nat.succ_le_succ (Nat.le_max_right a.top x.top))
  have hlt : below x.word wordCount < unit (a.jointTop x + 1) := by
    rw [x.below_word_all]
    exact Nat.lt_of_lt_of_le x.value_lt_top hle
  rw [← below_eq_below (a.jointTop_lt x) hlt, x.below_word_all]

theorem Canonical.compareMagnitude_eq (h : Canonical a) (x : Addend) :
    a.compareMagnitude x = compare a.magnitude x.value := by
  rw [compareMagnitude, compareBelow_eq, h.below_jointTop, below_word_jointTop]

def signed (negative : Bool) (n : Nat) : Int := if negative then -(n : Int) else n

theorem value_eq_signed (a : Accumulator) : a.value = signed a.negative a.magnitude := by
  rw [value, signed]

theorem natAbs_signed (negative : Bool) (n : Nat) : (signed negative n).natAbs = n := by
  unfold signed
  split
  · rw [Int.natAbs_neg, Int.natAbs_natCast]
  · rw [Int.natAbs_natCast]

theorem units_eq_signed (x : Float) :
    Binary64.units x = signed (Binary64.negative x) (Binary64.magnitude x) := by
  rw [Binary64.units, signed]

theorem signed_zero (negative : Bool) : signed negative 0 = 0 := by
  cases negative <;> rfl

theorem signed_add_signed (negative : Bool) (m n : Nat) :
    signed negative m + signed negative n = signed negative (m + n) := by
  unfold signed
  split <;> omega

/-- Of opposite signs, the one of the larger magnitude wins. -/
theorem signed_add_signed_not_of_lt (negative : Bool) {m n : Nat} (h : m < n) :
    signed negative m + signed (!negative) n = signed (!negative) (n - m) := by
  cases negative <;> simp [signed] <;> omega

theorem signed_add_signed_not_of_le (negative : Bool) {m n : Nat} (h : n ≤ m) :
    signed negative m + signed (!negative) n = signed negative (m - n) := by
  cases negative <;> simp [signed] <;> omega

/-- **A sum of magnitudes is exact, or it is carried out of the highest word.** -/
theorem Canonical.addMagnitude_spec (h : Canonical a) (x : Addend) :
    (∃ b, a.addMagnitude x = .ok b ∧ Canonical b ∧
      b.value = signed a.negative (a.magnitude + x.value)) ∨
    (a.addMagnitude x = .error .carryOut ∧ unit wordCount ≤ a.magnitude + x.value) := by
  have hp : x.place < wordCount := Nat.lt_of_succ_lt x.place_lt
  unfold addMagnitude
  extract_lets low high
  have hlow : below (get low.1) wordCount + unit (x.place + 1) * low.2.toNat =
      a.magnitude + unit x.place * x.low.toNat := below_addAt a.words x.low false hp hp
  have hhigh : below (get high.1) wordCount + unit (x.place + 2) * high.2.toNat =
      below (get low.1) wordCount + unit (x.place + 1) * (x.high.toNat + low.2.toNat) :=
    below_addAt low.1 x.high low.2 x.place_lt x.place_lt
  have hsum : below (get high.1) wordCount + unit (x.place + 2) * high.2.toNat =
      a.magnitude + x.value := by
    rw [Nat.mul_add, Nat.mul_comm _ x.high.toNat] at hhigh
    rw [Nat.mul_comm _ x.low.toNat] at hlow
    unfold Addend.value
    omega
  rcases carryUp_spec high.1 (x.place + 2) x.place_lt high.2 with
    ⟨ws, j, hrun, hij, hval, hsame⟩ | ⟨hrun, hover⟩
  · left
    rw [hsum] at hval
    have hlt : below (get ws) wordCount < unit (max a.top (j.val - 1) + 1) := by
      rw [below_lt_unit_iff (by have := a.top_lt; have := j.property; omega)]
      intro i hi _
      rw [hsame i (by omega), get_addAt_ne low.1 x.high low.2 x.place_lt (by omega),
        get_addAt_ne a.words x.low false hp (by omega), h.get_eq_zero (by omega)]
    rw [hrun]
    refine ⟨_, rfl, trimmed_canonical ws _ a.negative hlt, ?_⟩
    rw [trimmed_value ws _ a.negative hlt, hval, signed]
  · exact .inr ⟨by rw [hrun]; rfl, hsum ▸ hover⟩

theorem Canonical.subtractMagnitude_spec (h : Canonical a) (x : Addend)
    (hle : x.value ≤ a.magnitude) :
    ∃ b, a.subtractMagnitude x = .ok b ∧ Canonical b ∧
      b.value = signed a.negative (a.magnitude - x.value) := by
  have hp : x.place < wordCount := Nat.lt_of_succ_lt x.place_lt
  unfold subtractMagnitude
  extract_lets low high
  have hlow : below (get low.1) wordCount + unit x.place * x.low.toNat =
      a.magnitude + unit (x.place + 1) * low.2.toNat := below_subAt a.words x.low false hp hp
  have hhigh : below (get high.1) wordCount + unit (x.place + 1) * (x.high.toNat + low.2.toNat) =
      below (get low.1) wordCount + unit (x.place + 2) * high.2.toNat :=
    below_subAt low.1 x.high low.2 x.place_lt x.place_lt
  have hdiff : below (get high.1) wordCount + x.value =
      a.magnitude + unit (x.place + 2) * high.2.toNat := by
    rw [Nat.mul_add, Nat.mul_comm _ x.high.toNat] at hhigh
    rw [Nat.mul_comm _ x.low.toNat] at hlow
    unfold Addend.value
    omega
  have hzero : ∀ i, x.place + 2 ≤ i → a.top < i → get high.1 i = 0 := by
    intro i hi ht
    rw [get_subAt_ne low.1 x.high low.2 x.place_lt (by omega),
      get_subAt_ne a.words x.low false hp (by omega), h.get_eq_zero ht]
  obtain ⟨ws, hrun, hval⟩ := borrowUp_spec high.1 (x.place + 2) a.top a.top_lt high.2 hzero
    (by omega)
  have hrest : below (get ws) wordCount = a.magnitude - x.value := by omega
  have hlt : below (get ws) wordCount < unit (a.top + 1) := by
    have := h.magnitude_lt
    omega
  rw [hrun]
  refine ⟨_, rfl, trimmed_canonical ws a.top_lt a.negative hlt, ?_⟩
  rw [trimmed_value ws a.top_lt a.negative hlt, hrest, signed]

theorem Canonical.subtractFrom_spec (h : Canonical a) (x : Addend) (negative : Bool)
    (hlt : a.magnitude < x.value) :
    ∃ b, a.subtractFrom x negative = .ok b ∧ Canonical b ∧
      b.value = signed negative (x.value - a.magnitude) := by
  have hk : a.jointTop x + 1 ≤ wordCount := a.jointTop_lt x
  have hsub := below_subFrom x.word a.words hk
  have habove : ∀ i, a.jointTop x + 1 ≤ i → i < wordCount →
      get (subFrom x.word a.words (a.jointTop x + 1) hk).1 i = 0 := by
    intro i hi _
    rw [get_subFrom_of_le x.word a.words hk hi]
    exact h.get_eq_zero (Nat.lt_of_le_of_lt (Nat.le_max_left a.top x.top) hi)
  unfold subtractFrom
  dsimp only
  generalize subFrom x.word a.words (a.jointTop x + 1) hk = difference at hsub habove ⊢
  have hroom := (below_lt_unit_iff hk).mpr habove
  have hall := below_eq_below hk hroom
  rw [h.below_jointTop, below_word_jointTop, ← hall] at hsub
  have hb : difference.2 = false := by
    by_contra hc
    rw [Bool.not_eq_false] at hc
    rw [hc, Bool.toNat_true, Nat.mul_one] at hsub
    omega
  have hrest : below (get difference.1) wordCount = x.value - a.magnitude := by
    rw [hb, Bool.toNat_false, Nat.mul_zero] at hsub
    omega
  rw [if_neg (Bool.eq_false_iff.mp hb)]
  refine ⟨_, rfl, trimmed_canonical difference.1 _ negative hroom, ?_⟩
  rw [trimmed_value difference.1 _ negative hroom, hrest, signed]

/-- An outcome is the exact sum in its canonical form, or the sum has outgrown the words. -/
def Settles (outcome : Except Fault Accumulator) (sum : Int) : Prop :=
  (∃ a, outcome = .ok a ∧ Canonical a ∧ a.value = sum) ∨
    (outcome = .error .carryOut ∧ unit wordCount ≤ sum.natAbs)

/-- **An addition is exact or faults for want of room.** -/
theorem Canonical.add_spec (h : Canonical a) (x : Float) :
    Settles (a.add x) (a.value + Binary64.units x) := by
  rw [value_eq_signed, units_eq_signed, ← Addend.value_ofFloat]
  unfold add
  dsimp only
  split
  · rename_i hzero
    refine .inl ⟨a, rfl, h, ?_⟩
    rw [Addend.value_ofFloat, Binary64.magnitude, hzero, Nat.zero_shiftLeft, signed_zero,
      Int.add_zero, value_eq_signed]
  · generalize Addend.ofFloat x = y
    generalize Binary64.negative x = negative
    split
    · rename_i hsign
      rw [hsign, signed_add_signed]
      rcases h.addMagnitude_spec y with hok | ⟨hrun, hover⟩
      · exact .inl hok
      · exact .inr ⟨hrun, by rwa [natAbs_signed]⟩
    · rename_i hsign
      rw [h.compareMagnitude_eq, Bool.eq_not.mpr hsign]
      split
      · rename_i hcmp
        have hlt := Nat.compare_eq_lt.mp hcmp
        rw [signed_add_signed_not_of_lt _ hlt]
        exact .inl (h.subtractFrom_spec y _ hlt)
      · rename_i hcmp
        have hle := Nat.not_lt.mp (mt Nat.compare_eq_lt.mpr hcmp)
        rw [signed_add_signed_not_of_le _ hle]
        exact .inl (h.subtractMagnitude_spec y hle)

end Accumulator

end TimingStats
