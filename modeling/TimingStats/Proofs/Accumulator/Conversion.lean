import TimingStats.Proofs.Accumulator.Equality
import TimingStats.Proofs.Binary64.Faithful

/-! # Exact sums as doubles

A sum is converted word by word from the lowest up, and every word is rounded before it is added.
What has been added up is a faithful result for the words so far, by induction on their number, so
the double is the sum itself or one of the two that enclose it. -/

namespace TimingStats.Accumulator

open Words Binary64

/-! ## The lowest words -/

/-- The double that the lowest words are converted to. -/
def convertedBelow (word : ℕ → UInt64) : ℕ → Float
  | 0 => 0
  | n + 1 =>
    if word n = 0 then convertedBelow word n
    else convertedBelow word n + (word n).toFloat * powerOfTwo (64 * (n : ℤ) - 1074)

theorem foldl_take_eq (a : Accumulator) {n : ℕ} (hn : n ≤ wordCount) :
    (a.words.toList.take n).zipIdx.foldl (fun total (w, i) =>
      if w = 0 then total
      else total + w.toFloat * powerOfTwo (64 * (i : ℤ) - 1074)) 0 =
      convertedBelow (get a.words) n := by
  induction n with
  | zero => rfl
  | succ n ih =>
    have hlen : n < a.words.toList.length := by rwa [Vector.length_toList]
    have hword : a.words.toList[n] = get a.words n := by
      rw [get_eq_getElem a.words hn, Vector.getElem_toList]
    rw [List.take_succ_eq_append_getElem hlen, List.zipIdx_append, List.foldl_append,
      ih (Nat.le_of_succ_le hn), List.length_take, Nat.zero_add, Nat.min_eq_left hlen.le, hword]
    rfl

/-- The sign is put on what the words up to the highest in use are converted to. -/
theorem toFloat_eq (a : Accumulator) :
    a.toFloat = if a.negative then -convertedBelow (get a.words) (a.top + 1)
      else convertedBelow (get a.words) (a.top + 1) := by
  unfold toFloat
  rw [foldl_take_eq a a.top_lt]

/-! ## One word -/

/-- The places of all words but the last are powers of two that a double holds. -/
theorem units_powerOfTwo : ∀ n : ℕ, n < 33 → isFinite (powerOfTwo (64 * (n : ℤ) - 1074)) = true ∧
    units (powerOfTwo (64 * (n : ℤ) - 1074)) = 2 ^ (64 * n) := by
  decide +kernel

theorem powerOfTwo_last : (powerOfTwo 1038).toModel.unpack = .infinity .positive := by
  rfl

theorem two_zpow_place (n : ℕ) :
    (2 : ℚ) ^ (64 * (n : ℤ) - 1074) = 2 ^ (64 * n) * 2 ^ (-1074 : ℤ) := by
  rw [← zpow_natCast, ← zpow_add₀ (by norm_num)]
  push_cast
  rfl

/-- A word is rounded once, whatever its place: the place does not move its last bits. -/
theorem rounded_rounded_mul_zpow (w : ℕ) {p : ℤ} (hp : -1074 ≤ p) :
    rounded (rounded w * 2 ^ p) = rounded (w * 2 ^ p) := by
  rcases lt_or_ge w (2 ^ 53) with hshort | hlong
  · rw [representable_natCast hshort.le]
  · have hw : 0 < w := lt_of_lt_of_le (by norm_num) hlong
    have hlog := (Nat.le_log2 hw.ne').mpr hlong
    have hplace : lastPlace (w * 2 ^ p) = lastPlace w + p := by
      have h0 := log_mul_zpow hw 0
      rw [zpow_zero, mul_one] at h0
      unfold lastPlace
      rw [log_mul_zpow hw, h0]
      omega
    have hmul : rounded ((w : ℚ) * 2 ^ p) = rounded w * 2 ^ p := by
      have hdiv : (w : ℚ) * 2 ^ p / (2 ^ lastPlace (w : ℚ) * 2 ^ p) = w / 2 ^ lastPlace (w : ℚ) :=
        mul_div_mul_right _ _ (two_zpow_pos p).ne'
      rw [rounded_of_nonneg (mul_nonneg (Nat.cast_nonneg w) (two_zpow_pos p).le),
        rounded_of_nonneg (Nat.cast_nonneg w), hplace, zpow_add₀ (by norm_num), hdiv, mul_assoc]
    rw [← hmul, representable_rounded]

/-- A word in its place, as it is added. In the last place it is out of range. -/
theorem rounds_word {w : UInt64} (hw : w ≠ 0) {n : ℕ} (hn : n < wordCount) :
    Rounds (w.toFloat * powerOfTwo (64 * (n : ℤ) - 1074))
      (w.toNat * 2 ^ (64 * (n : ℤ) - 1074)) := by
  have hpos : 0 < w.toNat := by
    rw [Nat.pos_iff_ne_zero, Ne, ← UInt64.toNat_zero, UInt64.toNat_inj]
    exact hw
  have hle : (w.toNat : ℚ) ≤ 2 ^ 64 := by exact_mod_cast w.toNat_lt.le
  obtain ⟨hwf, hwv⟩ := (toFloat_rounds w).finite_of_le (k := 64)
    (by rwa [abs_of_nonneg (Nat.cast_nonneg _)]) (by norm_num)
  rcases Nat.lt_or_ge n 33 with hplace | hlast
  · obtain ⟨hpf, hpu⟩ := units_powerOfTwo n hplace
    have hround := mul_rounds hwf hpf
    have hpv : toRat (powerOfTwo (64 * (n : ℤ) - 1074)) = 2 ^ (64 * (n : ℤ) - 1074) := by
      rw [toRat_eq_units, hpu, two_zpow_place, Int.cast_pow, Int.cast_ofNat]
    rw [hwv, hpv] at hround
    have hu := two_zpow_pos (64 * (n : ℤ) - 1074)
    refine hround.of_rounded_eq (rounded_rounded_mul_zpow _ (by omega)).symm ?_
    have h1 : ¬ (w.toNat : ℚ) * 2 ^ (64 * (n : ℤ) - 1074) < 0 :=
      not_lt.mpr (mul_nonneg (Nat.cast_nonneg _) hu.le)
    have h2 : ¬ rounded w.toNat * 2 ^ (64 * (n : ℤ) - 1074) < 0 :=
      not_lt.mpr (mul_nonneg (rounded_nonneg (Nat.cast_nonneg _)) hu.le)
    exact iff_of_false h1 h2
  · obtain rfl : n = 33 := by
      unfold wordCount at hn
      omega
    have hone : (1 : ℚ) ≤ w.toNat := by exact_mod_cast hpos
    have hvalue : 0 < toRat w.toFloat := by
      rw [hwv]
      exact lt_of_lt_of_le (by norm_num) (representable_one.le_rounded hone)
    refine rounds_of_unpack_infinity (unpack_mul_infinity hwf hvalue powerOfTwo_last) ?_
    calc (2 : ℚ) ^ 1024 ≤ 2 ^ 1038 := pow_le_pow_right₀ (by norm_num) (by norm_num)
      _ = 1 * 2 ^ (64 * ((33 : ℕ) : ℤ) - 1074) := by
          rw [one_mul]
          exact (zpow_natCast 2 1038).symm
      _ ≤ w.toNat * 2 ^ (64 * ((33 : ℕ) : ℤ) - 1074) :=
          mul_le_mul_of_nonneg_right hone (two_zpow_pos _).le

/-! ## All words -/

/-- The number that the lowest words stand for. -/
def valueBelow (word : ℕ → UInt64) (n : ℕ) : ℚ := below word n * 2 ^ (-1074 : ℤ)

theorem valueBelow_nonneg (word : ℕ → UInt64) (n : ℕ) : 0 ≤ valueBelow word n :=
  mul_nonneg (Nat.cast_nonneg _) scale_pos.le

theorem valueBelow_lt (word : ℕ → UInt64) (n : ℕ) :
    valueBelow word n < 2 ^ (64 * (n : ℤ) - 1074) := by
  have hlt := below_lt word n
  rw [unit_eq_two_pow] at hlt
  rw [two_zpow_place]
  exact mul_lt_mul_of_pos_right (by exact_mod_cast hlt) scale_pos

theorem valueBelow_succ (word : ℕ → UInt64) (n : ℕ) :
    valueBelow word (n + 1) = (word n).toNat * 2 ^ (64 * (n : ℤ) - 1074) + valueBelow word n := by
  unfold valueBelow
  rw [below, unit_eq_two_pow, two_zpow_place]
  generalize (2 : ℚ) ^ (-1074 : ℤ) = u
  push_cast
  ring

/-- **The words so far are converted to a faithful result.** -/
theorem convertedBelow_faithful (word : ℕ → UInt64) {n : ℕ} (hn : n ≤ wordCount) :
    ∃ t, Faithful t (valueBelow word n) ∧ Rounds (convertedBelow word n) t := by
  induction n with
  | zero =>
    refine ⟨0, ?_, rounds_of_unpack_zero unpack_zeroLiteral⟩
    rw [valueBelow, below, Nat.cast_zero, zero_mul]
    exact faithful_zero
  | succ n ih =>
    obtain ⟨t, ht, hrounds⟩ := ih (Nat.le_of_succ_le hn)
    have hsum := valueBelow_succ word n
    rw [convertedBelow]
    split
    · rename_i hw
      rw [hw, UInt64.toNat_zero, Nat.cast_zero, zero_mul, zero_add] at hsum
      exact ⟨t, hsum ▸ ht, hrounds⟩
    · rename_i hw
      have hpos : 0 < (word n).toNat := by
        rw [Nat.pos_iff_ne_zero, Ne, ← UInt64.toNat_zero, UInt64.toNat_inj]
        exact hw
      have hplace := two_zpow_pos (64 * (n : ℤ) - 1074)
      have hterm : 0 ≤ ((word n).toNat : ℚ) * 2 ^ (64 * (n : ℤ) - 1074) :=
        mul_nonneg (Nat.cast_nonneg _) hplace.le
      have hstep := ht.add_word (valueBelow_nonneg word n) (by omega) (valueBelow_lt word n) hpos
      have hadd := hrounds.add_of_nonneg (rounds_word hw hn) (ht.nonneg (valueBelow_nonneg word n))
        hterm
      rw [ht.representable, add_comm] at hadd
      have hnonneg := add_nonneg (rounded_nonneg hterm) (ht.nonneg (valueBelow_nonneg word n))
      refine ⟨_, hsum ▸ hstep, hadd.of_rounded_eq (representable_rounded _) ?_⟩
      exact iff_of_false (rounded_nonneg hnonneg).not_gt hnonneg.not_gt

variable {a : Accumulator}

/-- A canonical state is converted to a faithful result for its sum. -/
theorem Canonical.exists_faithful (h : Canonical a) :
    ∃ t, Faithful t (a.value * 2 ^ (-1074 : ℤ)) ∧ Rounds a.toFloat t := by
  have hbelow : valueBelow (get a.words) (a.top + 1) = a.magnitude * 2 ^ (-1074 : ℤ) := by
    rw [valueBelow, ← below_eq_below a.top_lt h.magnitude_lt]
    rfl
  obtain ⟨t, ht, hrounds⟩ := convertedBelow_faithful (get a.words) a.top_lt
  rw [hbelow] at ht
  rw [toFloat_eq, value_eq_signed]
  cases a.negative
  · exact ⟨t, ht, hrounds⟩
  · refine ⟨-t, ?_, hrounds.neg⟩
    rw [signed, if_pos rfl, Int.cast_neg, Int.cast_natCast, neg_mul]
    exact ht.neg

theorem Canonical.toFloat_of_zero (h : Canonical a) (hv : a.value = 0) : a.toFloat = 0 := by
  rw [h.eq_of_value_eq zero_canonical (hv.trans zero_value.symm)]
  rfl

theorem feed_ok {start : Start} {calls : List Call} (hrun : feed start calls = .ok a) :
    Canonical a ∧ (a.value : ℚ) * 2 ^ (-1074 : ℤ) = total (fed start calls) := by
  rw [feed_eq] at hrun
  obtain ⟨ha, hval⟩ := zero_canonical.addAll_of_ok _ hrun
  rw [hval, zero_value, Int.zero_add, total_eq]
  exact ⟨ha, rfl⟩

theorem exactSum_eq {start : Start} {calls : List Call} (hrun : feed start calls = .ok a) :
    exactSum (fed start calls) = .ok a.toFloat := by
  rw [feed_eq] at hrun
  unfold exactSum ofList
  rw [hrun]
  rfl

theorem exactSum_zeros {xs : List Float} (hlen : xs.length ≤ 2 ^ 77)
    (hzero : ∀ x ∈ xs, toRat x = 0) : exactSum xs = .ok 0 := by
  obtain ⟨a, ha⟩ := ofList_ok hlen
  obtain ⟨hcanonical, hvalue⟩ := zero_canonical.addAll_of_ok xs ha
  have hunits : unitsTotal xs = 0 := by
    refine List.sum_eq_zero fun u hu => ?_
    obtain ⟨x, hx, rfl⟩ := List.mem_map.mp hu
    have hx0 := hzero x hx
    rw [toRat_eq_units] at hx0
    exact_mod_cast (mul_eq_zero.mp hx0).resolve_right (two_zpow_pos _).ne'
  rw [zero_value, hunits] at hvalue
  unfold exactSum
  rw [ha]
  exact congrArg _ (hcanonical.toFloat_of_zero hvalue)

theorem exactSum_singleton {x : Float} (hx : isFinite x = true) (h0 : toRat x ≠ 0) :
    exactSum [x] = .ok x := by
  obtain ⟨a, hrun, ha, hval⟩ := feed_canonical (.collected [x]) [] (by simpa [fed, Start.values])
    (by simp [fed, Start.values])
  obtain ⟨t, ht, hrounds⟩ := ha.exists_faithful
  have hsum : (a.value : ℚ) * 2 ^ (-1074 : ℤ) = toRat x := by
    rw [hval, ← total_eq]
    simp [fed, Start.values, total]
  obtain ⟨hf, hv⟩ := ht.eq_of_toRat hrounds hx hsum.symm
  have heq : x = a.toFloat := eq_of_toRat_eq hx hf (hv.trans hsum).symm h0
  exact (exactSum_eq hrun).trans (congrArg _ heq.symm)

/-- **A sum is converted faithfully**, however its values came. A sum that a double holds gives
that double, and zero the positive one. Any other lies between two adjacent doubles, the infinities
counted as such, and gives one of them, which is less than the distance of doubles there away. From
2^1024 on it is the infinity of its sign. -/
theorem toFloat_faithful (start : Start) (calls : List Call) (hrun : feed start calls = .ok a) :
    exactSum (fed start calls) = .ok a.toFloat ∧
    (total (fed start calls) = 0 → a.toFloat = 0) ∧
    (∀ x, isFinite x = true → toRat x = total (fed start calls) → toRat x ≠ 0 → a.toFloat = x) ∧
    (∀ x, isFinite x = true → toRat x ≠ 0 → exactSum [x] = .ok x) ∧
    ((∀ x, isFinite x = true → toRat x ≠ total (fed start calls)) →
      IsBelow a.toFloat (total (fed start calls)) ∨ IsAbove a.toFloat (total (fed start calls))) ∧
    (isFinite a.toFloat = true →
      |toRat a.toFloat - total (fed start calls)| < ulp (total (fed start calls))) ∧
    (2 ^ 1024 ≤ |total (fed start calls)| →
      a.toFloat = signedInfinity (decide (total (fed start calls) < 0))) ∧
    isNaN a.toFloat = false := by
  obtain ⟨ha, hsum⟩ := feed_ok hrun
  obtain ⟨t, ht, hrounds⟩ := ha.exists_faithful
  have hzero : total (fed start calls) = 0 → a.value = 0 := fun h0 => by
    rw [← hsum, mul_eq_zero] at h0
    exact_mod_cast h0.resolve_right scale_pos.ne'
  rw [hsum] at ht
  refine ⟨exactSum_eq hrun, fun h0 => ha.toFloat_of_zero (hzero h0), fun x hx hxs h0 => ?_,
    fun x => exactSum_singleton, ht.isBelow_or_isAbove hrounds, fun hf => ?_,
    ht.infinite_of_le hrounds, hrounds.isNaN_eq_false⟩
  · obtain ⟨hf, hv⟩ := ht.eq_of_toRat hrounds hx hxs
    exact (eq_of_toRat_eq hx hf (hxs.trans hv.symm) h0).symm
  · rcases lt_or_ge |t| (2 ^ 1024) with hlt | hge
    · rw [(ht.finite hrounds hlt).2]
      exact ht.abs_sub_lt
    · have hinfinite : ∀ b, isFinite (signedInfinity b) = false := by decide +kernel
      rw [ht.infinite hrounds hge, hinfinite] at hf
      cases hf

/-- A sum that is a double again, and one that lies between two of them. -/
theorem toFloat_faithful_exact_and_between :
    (∃ a, feed .empty [.add 1, .extend [-2.5]] = .ok a ∧ a.toFloat = -1.5) ∧
    ∃ a, feed (.collected [9007199254740992]) [.add 1] = .ok a ∧
      (IsBelow a.toFloat (2 ^ 53 + 1) ∨ IsAbove a.toFloat (2 ^ 53 + 1)) := by
  constructor
  · obtain ⟨a, hrun, -⟩ := feed_canonical .empty [.add 1, .extend [-2.5]] (by decide +kernel)
      (by decide)
    obtain ⟨-, -, hexact, -⟩ := toFloat_faithful .empty [.add 1, .extend [-2.5]] hrun
    have hunits : units (-1.5) = unitsTotal (fed .empty [.add 1, .extend [-2.5]]) := by
      decide +kernel
    have hne : units (-1.5) ≠ 0 := by decide +kernel
    refine ⟨a, hrun, hexact (-1.5) (by decide +kernel) ?_ ?_⟩
    · rw [toRat_eq_units, total_eq, hunits]
    · rw [toRat_eq_units]
      exact mul_ne_zero (Int.cast_ne_zero.mpr hne) scale_pos.ne'
  · obtain ⟨a, hrun, -⟩ := feed_canonical (.collected [9007199254740992]) [.add 1]
      (by decide +kernel) (by decide)
    obtain ⟨-, -, -, -, hbetween, -⟩ :=
      toFloat_faithful (.collected [9007199254740992]) [.add 1] hrun
    have hunits : unitsTotal (fed (.collected [9007199254740992]) [.add 1]) =
        (2 ^ 53 + 1) * 2 ^ 1074 := by decide +kernel
    have hsum : total (fed (.collected [9007199254740992]) [.add 1]) = 2 ^ 53 + 1 := by
      rw [total_eq, hunits, Int.cast_mul, mul_assoc, Int.cast_pow, ← zpow_natCast,
        Int.cast_ofNat, ← zpow_add₀ (by norm_num)]
      norm_num
    refine ⟨a, hrun, hsum ▸ hbetween fun x _ hx => ?_⟩
    rw [hsum] at hx
    obtain ⟨k, hk⟩ := (representable_toRat x).exists_even (a := 0) (by rw [hx]; norm_num)
    rw [hx, zpow_zero, mul_one] at hk
    have hk : (2 ^ 53 + 1 : ℤ) = 2 * k := by exact_mod_cast hk
    omega

end TimingStats.Accumulator
