import Mathlib.Algebra.BigOperators.Fin
import Mathlib.Algebra.Order.Ring.Abs
import TimingStats.Proofs.Accumulator.Addition
import TimingStats.Proofs.Binary64.Value

/-! # Exact running sums

Values reach a sum one by one or in bulk, and a sum may be collected from values to begin with.
However they come, the words and the sign stand for the rational sum of all of them for as long
as it has room: up to 2^1102, which no 2^78 doubles can leave. -/

namespace TimingStats.Accumulator

open Words

/-- How a sum is begun. -/
inductive Start where
  | empty
  | collected (xs : List Float)

/-- How values are added to it. -/
inductive Call where
  | add (x : Float)
  | extend (xs : List Float)

def Start.values : Start → List Float
  | .empty => []
  | .collected xs => xs

def Start.begin : Start → Except Fault Accumulator
  | .empty => .ok zero
  | .collected xs => ofList xs

def Call.values : Call → List Float
  | .add x => [x]
  | .extend xs => xs

def perform (a : Accumulator) : Call → Except Fault Accumulator
  | .add x => a.add x
  | .extend xs => a.addAll xs

def feed (start : Start) (calls : List Call) : Except Fault Accumulator := do
  calls.foldlM perform (← start.begin)

/-- All values that these have added, in order. -/
def fed (start : Start) (calls : List Call) : List Float :=
  start.values ++ calls.flatMap Call.values

def total (xs : List Float) : ℚ := (xs.map Binary64.toRat).sum

/-- What a state stands for: its sign times its words, in multiples of 2^-1074. -/
def fixedPoint (a : Accumulator) : ℚ :=
  (if a.negative then -1 else 1) *
    ((∑ i : Fin wordCount, a.words[i].toNat * 2 ^ (64 * i.val) : ℕ) : ℚ) * 2 ^ (-1074 : ℤ)

/-- A state holds a sum and reports its sign. -/
structure Holds (a : Accumulator) (sum : ℚ) : Prop where
  fixedPoint_eq : a.fixedPoint = sum
  isZero_iff : a.isZero = true ↔ sum = 0
  isNegative_iff : a.isNegative = true ↔ sum < 0

/-! ## One list of values -/

theorem addAll_append (a : Accumulator) (xs ys : List Float) :
    a.addAll (xs ++ ys) = a.addAll xs >>= fun b => b.addAll ys :=
  List.foldlM_append

theorem perform_eq (a : Accumulator) (call : Call) : a.perform call = a.addAll call.values := by
  cases call with
  | add x =>
    change a.add x = a.add x >>= pure
    rw [bind_pure]
  | extend xs => rfl

theorem performAll_eq (a : Accumulator) (calls : List Call) :
    calls.foldlM perform a = a.addAll (calls.flatMap Call.values) := by
  induction calls generalizing a with
  | nil => rfl
  | cons call calls ih =>
    rw [List.foldlM_cons, List.flatMap_cons, addAll_append, perform_eq]
    exact congrArg _ (funext ih)

/-- How the values are divided among the calls does not matter. -/
theorem feed_eq (start : Start) (calls : List Call) :
    feed start calls = zero.addAll (fed start calls) := by
  unfold feed fed
  rw [addAll_append]
  cases start with
  | empty => exact performAll_eq zero calls
  | collected xs => exact congrArg _ (funext fun a => performAll_eq a calls)

/-! ## Runs of additions -/

/-- The sum in multiples of 2^-1074. -/
def unitsTotal (xs : List Float) : ℤ := (xs.map Binary64.units).sum

theorem unitsTotal_cons (x : Float) (xs : List Float) :
    unitsTotal (x :: xs) = Binary64.units x + unitsTotal xs := by
  rw [unitsTotal, List.map_cons, List.sum_cons, unitsTotal]

theorem zero_magnitude : zero.magnitude = 0 := by
  unfold magnitude
  rw [below_eq_of_zero (Nat.zero_le wordCount) fun i _ hi => ?_, below]
  rw [get_eq_getElem _ hi, zero, Vector.getElem_replicate]

theorem zero_canonical : Canonical zero :=
  ⟨zero_magnitude ▸ unit_pos _, .inl rfl, fun _ => rfl⟩

theorem zero_value : zero.value = 0 := by rw [value_eq_signed, zero_magnitude, signed_zero]

variable {a b : Accumulator}

/-- **A run of additions is exact** as long as every sum on the way has room. -/
theorem Canonical.addAll_spec (h : Canonical a) (xs : List Float)
    (hroom : ∀ p, p <+: xs → (a.value + unitsTotal p).natAbs < unit wordCount) :
    ∃ b, a.addAll xs = .ok b ∧ Canonical b ∧ b.value = a.value + unitsTotal xs := by
  induction xs generalizing a with
  | nil => exact ⟨a, rfl, h, (Int.add_zero _).symm⟩
  | cons x xs ih =>
    have hfirst := hroom [x] ⟨xs, rfl⟩
    rw [unitsTotal_cons, unitsTotal, List.map_nil, List.sum_nil, Int.add_zero] at hfirst
    rcases h.add_spec x with ⟨b, hrun, hb, hval⟩ | ⟨_, hover⟩
    · obtain ⟨c, hrest, hc, hsum⟩ := ih hb fun p hp => by
        rw [hval, Int.add_assoc, ← unitsTotal_cons]
        exact hroom (x :: p) ((List.prefix_cons_inj x).mpr hp)
      refine ⟨c, ?_, hc, ?_⟩
      · rw [addAll, List.foldlM_cons, hrun]
        exact hrest
      · rw [hsum, hval, Int.add_assoc, ← unitsTotal_cons]
    · exact absurd hfirst (Nat.not_lt.mpr hover)

theorem Canonical.addAll_of_ok (h : Canonical a) (xs : List Float) (hrun : a.addAll xs = .ok b) :
    Canonical b ∧ b.value = a.value + unitsTotal xs := by
  induction xs generalizing a with
  | nil =>
    obtain rfl : a = b := Except.ok.inj hrun
    exact ⟨h, (Int.add_zero _).symm⟩
  | cons x xs ih =>
    rw [addAll, List.foldlM_cons] at hrun
    rcases h.add_spec x with ⟨c, hstep, hc, hval⟩ | ⟨hstep, _⟩
    · rw [hstep] at hrun
      obtain ⟨hb, hsum⟩ := ih hc hrun
      exact ⟨hb, by rw [hsum, hval, Int.add_assoc, ← unitsTotal_cons]⟩
    · rw [hstep] at hrun
      cases hrun

theorem natAbs_value_lt (a : Accumulator) : a.value.natAbs < unit wordCount := by
  rw [value_eq_signed, natAbs_signed]
  exact magnitude_lt_unit a

/-- A sum that has no room is the sum of something. -/
theorem ne_nil_of_no_room (a : Accumulator) {p : List Float}
    (hover : unit wordCount ≤ (a.value + unitsTotal p).natAbs) : p ≠ [] := by
  rintro rfl
  rw [unitsTotal, List.map_nil, List.sum_nil, Int.add_zero] at hover
  exact absurd (natAbs_value_lt a) (Nat.not_lt.mpr hover)

/-- A run faults if some sum on the way has no room. -/
theorem Canonical.addAll_faults (h : Canonical a) {xs p : List Float} (hp : p <+: xs)
    (hover : unit wordCount ≤ (a.value + unitsTotal p).natAbs) :
    a.addAll xs = .error .carryOut := by
  have hne := ne_nil_of_no_room a hover
  induction xs generalizing a p with
  | nil => exact absurd (List.prefix_nil.mp hp) hne
  | cons x xs ih =>
    rw [addAll, List.foldlM_cons]
    rcases h.add_spec x with ⟨b, hrun, hb, hval⟩ | ⟨hfault, _⟩
    · obtain ⟨q, rfl, hq⟩ := (List.prefix_cons_iff.mp hp).resolve_left hne
      rw [unitsTotal_cons, ← Int.add_assoc, ← hval] at hover
      rw [hrun]
      exact ih hb hq hover (ne_nil_of_no_room b hover)
    · rw [hfault]
      rfl

/-! ## Rational sums -/

theorem below_eq_sum (f : ℕ → UInt64) (n : ℕ) :
    below f n = ∑ i ∈ Finset.range n, (f i).toNat * 2 ^ (64 * i) := by
  induction n with
  | zero => rfl
  | succ n ih => rw [below, ih, Finset.sum_range_succ, unit_eq_two_pow]

theorem fixedPoint_eq_value (a : Accumulator) : a.fixedPoint = a.value * 2 ^ (-1074 : ℤ) := by
  have hsum : ∑ i : Fin wordCount, a.words[i].toNat * 2 ^ (64 * i.val) = a.magnitude := by
    rw [magnitude, below_eq_sum, Finset.sum_range]
    exact Finset.sum_congr rfl fun i _ => by rw [get_eq_getElem _ i.isLt]; rfl
  rw [fixedPoint, hsum, value_eq_signed, signed]
  refine congrArg (· * _) ?_
  split
  · rw [neg_one_mul, Int.cast_neg, Int.cast_natCast]
  · rw [one_mul, Int.cast_natCast]

theorem total_eq (xs : List Float) : total xs = unitsTotal xs * 2 ^ (-1074 : ℤ) := by
  induction xs with
  | nil => simp [total, unitsTotal]
  | cons x xs ih =>
    rw [unitsTotal_cons, Int.cast_add, add_mul, ← ih, ← Binary64.toRat_eq_units, total,
      List.map_cons, List.sum_cons, total]

theorem scale_pos : (0 : ℚ) < 2 ^ (-1074 : ℤ) := zpow_pos two_pos _

theorem unit_wordCount : unit wordCount = 2 ^ 2176 := by
  rw [unit_eq_two_pow, show 64 * wordCount = 2176 from rfl]

/-- The room of the words in multiples of 2^-1074 and as a number. -/
theorem abs_lt_iff (s : ℤ) :
    |(s : ℚ) * 2 ^ (-1074 : ℤ)| < 2 ^ 1102 ↔ s.natAbs < unit wordCount := by
  have hroom : (2 : ℚ) ^ 1102 = (unit wordCount : ℕ) * 2 ^ (-1074 : ℤ) := by
    rw [unit_wordCount, Nat.cast_pow, Nat.cast_ofNat, ← zpow_natCast, ← zpow_natCast,
      ← zpow_add₀ two_ne_zero]
    rfl
  rw [hroom, abs_mul, abs_of_pos scale_pos, mul_lt_mul_iff_left₀ scale_pos, ← Int.cast_abs,
    Int.abs_eq_natAbs, Int.cast_natCast, Nat.cast_lt]

theorem Canonical.holds (h : Canonical a) {sum : ℚ} (hsum : sum = a.value * 2 ^ (-1074 : ℤ)) :
    Holds a sum := by
  have hnat := natAbs_signed a.negative a.magnitude
  rw [← value_eq_signed] at hnat
  refine ⟨(fixedPoint_eq_value a).trans hsum.symm, ?_, ?_⟩
  · rw [h.isZero_iff, hsum, mul_eq_zero_iff_right scale_pos.ne', Int.cast_eq_zero,
      ← Int.natAbs_eq_zero, hnat]
  · have hscaled := mul_lt_mul_iff_left₀ (b := (a.value : ℚ)) (c := 0) scale_pos
    rw [zero_mul] at hscaled
    rw [hsum, hscaled, Int.cast_lt_zero, isNegative, value_eq_signed, signed]
    have hunsigned := h.unsigned
    cases hneg : a.negative with
    | false => simp
    | true =>
      have hne : a.magnitude ≠ 0 := fun h0 => by simp [hunsigned h0] at hneg
      simp only [true_iff, if_true]
      omega

/-! ## Room for many values -/

theorem shiftLeft_lt_two_pow {s d k m n : ℕ} (hs : s < 2 ^ k) (hd : d ≤ m) (h : k + m = n) :
    s <<< d < 2 ^ n := by
  rw [Nat.shiftLeft_eq, ← h, Nat.pow_add]
  exact Nat.mul_lt_mul_of_lt_of_le hs (Nat.pow_le_pow_right two_pos hd) (Nat.two_pow_pos m)

theorem mul_pred_lt_two_pow {s k m n : ℕ} (hs : s ≤ 2 ^ k) (h : k + m = n) :
    s * (2 ^ m - 1) < 2 ^ n := by
  have hpred : 2 ^ m - 1 < 2 ^ m := Nat.sub_one_lt (Nat.two_pow_pos m).ne'
  rw [← h, Nat.pow_add]
  exact Nat.mul_lt_mul_of_le_of_lt hs hpred (Nat.two_pow_pos k)

theorem magnitude_lt_of_finite {x : Float} (hx : Binary64.isFinite x = true) :
    Binary64.magnitude x < 2 ^ 2098 :=
  shiftLeft_lt_two_pow (Binary64.significand_lt x) (Binary64.shift_le_of_finite hx) rfl

theorem magnitude_lt (x : Float) : Binary64.magnitude x < 2 ^ 2099 :=
  shiftLeft_lt_two_pow (Binary64.significand_lt x) (Binary64.shift_le x) rfl

theorem natAbs_unitsTotal_le {xs : List Float} {m : ℕ}
    (hlt : ∀ x ∈ xs, Binary64.magnitude x < 2 ^ m) :
    (unitsTotal xs).natAbs ≤ xs.length * (2 ^ m - 1) := by
  induction xs with
  | nil => exact Nat.zero_le _
  | cons x xs ih =>
    have hx : (Binary64.units x).natAbs ≤ 2 ^ m - 1 := by
      rw [units_eq_signed, natAbs_signed]
      exact Nat.le_sub_one_of_lt (hlt x List.mem_cons_self)
    have hxs := ih fun y hy => hlt y (List.mem_cons_of_mem x hy)
    rw [unitsTotal_cons, List.length_cons, Nat.succ_mul, Nat.add_comm]
    exact (Int.natAbs_add_le _ _).trans (Nat.add_le_add hx hxs)

theorem room_of_length {xs : List Float} (hfin : ∀ x ∈ xs, Binary64.isFinite x = true)
    (hlen : xs.length ≤ 2 ^ 78) : |total xs| < 2 ^ 1102 := by
  rw [total_eq, abs_lt_iff, unit_wordCount]
  exact (natAbs_unitsTotal_le fun x hx => magnitude_lt_of_finite (hfin x hx)).trans_lt
    (mul_pred_lt_two_pow hlen rfl)

/-- Lists that are not too long have room, whatever doubles they are of. -/
theorem ofList_ok {xs : List Float} (hlen : xs.length ≤ 2 ^ 77) : ∃ a, ofList xs = .ok a := by
  obtain ⟨a, hok, -, -⟩ := zero_canonical.addAll_spec xs fun p hp => by
    rw [zero_value, Int.zero_add, unit_wordCount]
    exact (natAbs_unitsTotal_le fun x _ => magnitude_lt x).trans_lt
      (mul_pred_lt_two_pow (hp.length_le.trans hlen) rfl)
  exact ⟨a, hok⟩

/-- **Sums are exact.** While no sum on the way reaches 2^1102, which takes more than 2^78
doubles, every addition succeeds and the state holds the rational sum with its sign. The
addition that would reach it faults, whichever call makes it. No place leaves the words: each
carries its bound. -/
theorem feed_exact (start : Start) (calls : List Call)
    (hfin : ∀ x ∈ fed start calls, Binary64.isFinite x = true) :
    ((∀ p, p <+: fed start calls → |total p| < 2 ^ 1102) →
      ∃ a, feed start calls = .ok a ∧ Holds a (total (fed start calls))) ∧
    ((fed start calls).length ≤ 2 ^ 78 →
      ∀ p, p <+: fed start calls → |total p| < 2 ^ 1102) ∧
    (∀ p, p <+: fed start calls → 2 ^ 1102 ≤ |total p| → feed start calls = .error .carryOut) ∧
    ∀ a x, feed start calls = .ok a → Binary64.isFinite x = true →
      2 ^ 1102 ≤ |total (fed start calls) + Binary64.toRat x| → a.add x = .error .carryOut := by
  have hzero : zero.value = 0 := by rw [value_eq_signed, zero_magnitude, signed_zero]
  have hroom_iff : ∀ p, |total p| < 2 ^ 1102 ↔
      (zero.value + unitsTotal p).natAbs < unit wordCount := fun p => by
    rw [hzero, Int.zero_add, total_eq, abs_lt_iff]
  rw [feed_eq]
  refine ⟨fun hroom => ?_, fun hlen p hp => ?_, fun p hp hover => ?_, fun a x hrun _ hover => ?_⟩
  · obtain ⟨a, hrun, ha, hval⟩ :=
      zero_canonical.addAll_spec _ fun p hp => (hroom_iff p).mp (hroom p hp)
    refine ⟨a, hrun, ha.holds ?_⟩
    rw [total_eq, hval, hzero, Int.zero_add]
  · exact room_of_length (fun x hx => hfin x (hp.subset hx)) (hp.length_le.trans hlen)
  · exact zero_canonical.addAll_faults hp (not_lt.mp (mt (hroom_iff p).mpr (not_lt.mpr hover)))
  · obtain ⟨ha, hval⟩ := zero_canonical.addAll_of_ok _ hrun
    rw [hzero, Int.zero_add] at hval
    rcases ha.add_spec x with ⟨b, _, _, hsum⟩ | ⟨hfault, _⟩
    · have hroom := (abs_lt_iff b.value).mpr (natAbs_value_lt b)
      rw [hsum, hval, Int.cast_add, add_mul, ← total_eq, ← Binary64.toRat_eq_units] at hroom
      exact absurd hroom (not_lt.mpr hover)
    · exact hfault

/-! ## The sums that have no room -/

def greatest : Float := Float.ofBits 0x7fefffffffffffff

theorem greatest_finite : Binary64.isFinite greatest = true := by decide +kernel

theorem units_greatest : Binary64.units greatest = ((2 ^ 53 - 1) * 2 ^ 2045 : ℕ) := by
  decide +kernel

theorem unitsTotal_replicate (k : ℕ) (x : Float) :
    unitsTotal (List.replicate k x) = k * Binary64.units x := by
  rw [unitsTotal, List.map_replicate, List.sum_replicate, nsmul_eq_mul]

theorem mul_lt_two_pow_iff {c s k m n : ℕ} (h : k + m = n) :
    c * (s * 2 ^ m) < 2 ^ n ↔ c * s < 2 ^ k := by
  rw [← h, Nat.pow_add, ← Nat.mul_assoc]
  exact Nat.mul_lt_mul_right (Nat.two_pow_pos m)

/-- How many of the greatest doubles have room together. -/
theorem natAbs_mul_greatest_lt_iff (k : ℕ) :
    (k * Binary64.units greatest).natAbs < unit wordCount ↔ k * (2 ^ 53 - 1) < 2 ^ 131 := by
  rw [units_greatest, ← Int.natCast_mul, Int.natAbs_natCast, unit_wordCount]
  exact mul_lt_two_pow_iff rfl

/-- A small sum, and the longest run of the greatest double, which one more brings to its end. -/
theorem feed_exact_small_and_longest :
    (∃ a, feed .empty [.add 1, .extend [-2.5]] = .ok a ∧ a.fixedPoint = total [1, -2.5] ∧
      a.isNegative = true) ∧
    ∃ a, feed (.collected (List.replicate (2 ^ 78 + 2 ^ 25) greatest)) [] = .ok a ∧
      a.add greatest = .error .carryOut := by
  constructor
  · obtain ⟨hexact, hroom, -, -⟩ := feed_exact .empty [.add 1, .extend [-2.5]] (by decide +kernel)
    obtain ⟨a, hrun, hfixed, -, hnegative⟩ := hexact (hroom (by decide))
    refine ⟨a, hrun, hfixed, hnegative.mpr ?_⟩
    have hunits : unitsTotal [1, -2.5] < 0 := by decide +kernel
    change total [1, -2.5] < 0
    rw [total_eq]
    exact mul_neg_of_neg_of_pos (Int.cast_lt_zero.mpr hunits) scale_pos
  · generalize hn : 2 ^ 78 + 2 ^ 25 = n
    have hfed : fed (.collected (List.replicate n greatest)) [] = List.replicate n greatest :=
      List.append_nil _
    obtain ⟨hexact, -, -, hfault⟩ := feed_exact (.collected (List.replicate n greatest)) [] (by
      intro x hx
      rw [hfed] at hx
      rw [List.eq_of_mem_replicate hx]
      exact greatest_finite)
    obtain ⟨a, hrun, -⟩ := hexact fun p hp => by
      rw [hfed, List.prefix_replicate_iff] at hp
      rw [hp.2, total_eq, abs_lt_iff, unitsTotal_replicate, natAbs_mul_greatest_lt_iff]
      omega
    refine ⟨a, hrun, hfault a greatest hrun greatest_finite (not_lt.mp ?_)⟩
    rw [hfed, total_eq, Binary64.toRat_eq_units, ← add_mul, ← Int.cast_add, abs_lt_iff,
      unitsTotal_replicate, ← add_one_mul, ← Nat.cast_succ, natAbs_mul_greatest_lt_iff]
    omega

end TimingStats.Accumulator
