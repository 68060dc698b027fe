import TimingStats.Proofs.Accumulator.Exactness
import TimingStats.Proofs.Binary64.Arithmetic

/-! # Equal sums are equal states

A number has one reading in words, and the canonical form leaves no choice for the place of the
highest word and for the sign. So a state is determined by the sum that it holds, and nothing of
the way there is left in it. -/

namespace TimingStats

namespace Words

theorem eq_of_below_eq {f g : Nat → UInt64} {n : Nat} (h : below f n = below g n) {i : Nat}
    (hi : i < n) : f i = g i := by
  induction n with
  | zero => omega
  | succ n ih =>
    have hf := below_lt f n
    have hg := below_lt g n
    rw [below, below, Nat.mul_comm _ (unit n), Nat.mul_comm _ (unit n)] at h
    have hlow : below f n = below g n := by
      have := congrArg (· % unit n) h
      simpa only [Nat.add_mul_mod_self_left, Nat.mod_eq_of_lt hf, Nat.mod_eq_of_lt hg] using this
    have hhigh : (f n).toNat = (g n).toNat :=
      Nat.eq_of_mul_eq_mul_left (unit_pos n) (by omega)
    rcases Nat.lt_or_eq_of_le (Nat.lt_succ_iff.mp hi) with hlt | rfl
    · exact ih hlow hlt
    · exact UInt64.toNat_inj.mp hhigh

end Words

namespace Accumulator

open Words

variable {a b : Accumulator}

/-! ## Canonical states -/

theorem Canonical.top_le_of_magnitude_eq (ha : Canonical a) (hb : Canonical b)
    (h : a.magnitude = b.magnitude) : b.top ≤ a.top := by
  by_contra hlt
  have hunit : unit (a.top + 1) ≤ unit b.top := unit_le_unit (Nat.lt_of_not_le hlt)
  have hbelow := ha.magnitude_lt
  rcases hb.unit_top_le with h0 | hle
  · omega
  · omega

theorem Canonical.negative_iff (h : Canonical a) : a.negative = true ↔ a.value < 0 := by
  have hunsigned := h.unsigned
  rw [value_eq_signed, signed]
  cases hneg : a.negative with
  | false => simp
  | true =>
    have hne : a.magnitude ≠ 0 := fun h0 => by simp [hunsigned h0] at hneg
    simp only [true_iff, if_true]
    omega

/-- **A canonical state is determined by its sum.** -/
theorem Canonical.eq_of_value_eq (ha : Canonical a) (hb : Canonical b) (h : a.value = b.value) :
    a = b := by
  have hmagnitude : a.magnitude = b.magnitude := by
    have := congrArg Int.natAbs h
    rwa [value_eq_signed, value_eq_signed, natAbs_signed, natAbs_signed] at this
  have hwords : a.words = b.words := by
    refine Vector.ext fun i hi => ?_
    rw [← get_eq_getElem a.words hi, ← get_eq_getElem b.words hi]
    exact eq_of_below_eq hmagnitude hi
  have htop : a.top = b.top :=
    Nat.le_antisymm (hb.top_le_of_magnitude_eq ha hmagnitude.symm)
      (ha.top_le_of_magnitude_eq hb hmagnitude)
  have hnegative : a.negative = b.negative := by
    rw [Bool.eq_iff_iff, ha.negative_iff, hb.negative_iff, h]
  cases a
  cases b
  congr

/-! ## Sums -/

theorem total_append (xs ys : List Float) : total (xs ++ ys) = total xs + total ys := by
  rw [total, List.map_append, List.sum_append, total, total]

theorem total_cons (x : Float) (xs : List Float) :
    total (x :: xs) = Binary64.toRat x + total xs := total_append [x] xs ▸ by simp [total]

theorem total_perm {xs ys : List Float} (h : xs.Perm ys) : total xs = total ys :=
  (h.map Binary64.toRat).sum_eq

/-- A value and its negative cancel out, whatever comes between. -/
theorem total_cancel {x : Float} (hx : Binary64.isFinite x = true) (xs ys zs : List Float) :
    total (xs ++ x :: (ys ++ -x :: zs)) = total (xs ++ (ys ++ zs)) := by
  rw [total_append, total_cons, total_append, total_cons, total_append, total_append,
    (Binary64.neg_exact hx).2]
  ring

theorem value_eq_iff_total_eq {xs ys : List Float} (ha : a.value = unitsTotal xs)
    (hb : b.value = unitsTotal ys) : a.value = b.value ↔ total xs = total ys := by
  rw [ha, hb, total_eq, total_eq, mul_left_inj' scale_pos.ne', Int.cast_inj]

/-- What a run that has room holds. -/
theorem feed_canonical (start : Start) (calls : List Call)
    (hfin : ∀ x ∈ fed start calls, Binary64.isFinite x = true)
    (hlen : (fed start calls).length ≤ 2 ^ 78) :
    ∃ a, feed start calls = .ok a ∧ Canonical a ∧ a.value = unitsTotal (fed start calls) := by
  rw [feed_eq]
  obtain ⟨a, hrun, ha, hval⟩ := zero_canonical.addAll_spec (fed start calls) fun p hp => by
    rw [zero_value, Int.zero_add, ← abs_lt_iff, ← total_eq]
    exact room_of_length (fun x hx => hfin x (hp.subset hx)) (hp.length_le.trans hlen)
  rw [zero_value, Int.zero_add] at hval
  exact ⟨a, hrun, ha, hval⟩

/-- **Two sums are equal states if and only if they are equal.** So the order of the values does
not show in the state, a value that is taken back leaves no trace, and a sum of zero is the state
that every sum begins with. -/
theorem feed_beq_iff_total_eq (start start' : Start) (calls calls' : List Call)
    (hfin : ∀ x ∈ fed start calls, Binary64.isFinite x = true)
    (hfin' : ∀ x ∈ fed start' calls', Binary64.isFinite x = true)
    (hlen : (fed start calls).length ≤ 2 ^ 78) (hlen' : (fed start' calls').length ≤ 2 ^ 78) :
    ∃ a b, feed start calls = .ok a ∧ feed start' calls' = .ok b ∧
      ((a == b) = true ↔ total (fed start calls) = total (fed start' calls')) ∧
      ((fed start calls).Perm (fed start' calls') → a = b) ∧
      (∀ xs x ys zs, fed start calls = xs ++ x :: (ys ++ -x :: zs) →
        fed start' calls' = xs ++ (ys ++ zs) → a = b) ∧
      (total (fed start calls) = 0 → a = zero) := by
  obtain ⟨a, hrun, ha, hval⟩ := feed_canonical start calls hfin hlen
  obtain ⟨b, hrun', hb, hval'⟩ := feed_canonical start' calls' hfin' hlen'
  have heq : a = b ↔ total (fed start calls) = total (fed start' calls') := by
    rw [← value_eq_iff_total_eq hval hval']
    exact ⟨congrArg value, ha.eq_of_value_eq hb⟩
  refine ⟨a, b, hrun, hrun', beq_iff_eq.trans heq, fun hperm => heq.mpr (total_perm hperm),
    fun xs x ys zs hxs hys => heq.mpr ?_, fun hsum => ?_⟩
  · have hx : Binary64.isFinite x = true := hfin x (by rw [hxs]; simp)
    rw [hxs, hys, total_cancel hx]
  · have hnone : zero.value = unitsTotal [] := zero_value
    exact ha.eq_of_value_eq zero_canonical ((value_eq_iff_total_eq hval hnone).mpr hsum)

/-- A one that is taken back leaves no trace beside a sum of any size. -/
theorem feed_beq_iff_total_eq_taken_back :
    ∃ a b, feed .empty [.add 1, .extend [1e300, -1]] = .ok a ∧
      feed (.collected [1e300]) [] = .ok b ∧ (a == b) = true := by
  obtain ⟨a, b, hrun, hrun', -, -, hback, -⟩ :=
    feed_beq_iff_total_eq .empty (.collected [1e300]) [.add 1, .extend [1e300, -1]] []
      (by decide +kernel) (by decide +kernel) (by decide) (by decide)
  exact ⟨a, b, hrun, hrun', beq_iff_eq.mpr (hback [] 1 [1e300] [] rfl rfl)⟩

end Accumulator

end TimingStats
