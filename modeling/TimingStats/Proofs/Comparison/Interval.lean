import TimingStats.Proofs.Comparison.Replicates

/-! # The interval of a comparison

The ends of the interval are two of the sorted replicates. Their places are rounded products of the
number of replicates, which lie in order and in range for every level between zero and one. So an
interval on one side of zero leaves a known number of replicates on that side, and the share of
those above zero is bounded by the quotient that these numbers give. -/

namespace TimingStats.Comparison

open TimingStats.Random Binary64

variable {level : Float} {n : ℕ}

/-! ## Fractions -/

/-- The part that is cut off at either end is at most a half. -/
theorem tail_value (h0 : 0 < level) (h1 : level < 1) :
    isFinite ((1 - level) / 2) = true ∧ 0 ≤ toRat ((1 - level) / 2) ∧
      toRat ((1 - level) / 2) ≤ 1 / 2 := by
  have hf := isFinite_of_between zero_value.1 one_value.1 (Binary64.le_of_lt h0)
    (Binary64.le_of_lt h1)
  rw [lt_iff zero_value.1 hf, zero_value.2] at h0
  rw [lt_iff hf one_value.1, one_value.2] at h1
  have hsub := sub_rounds one_value.1 hf
  rw [one_value.2] at hsub
  obtain ⟨haf, hav⟩ := hsub.finite_of_le (k := 0) (by rw [abs_of_nonneg] <;> linarith)
    (by norm_num)
  have ha0 : 0 ≤ toRat (1 - level) := hav ▸ rounded_nonneg (by linarith)
  have ha1 : toRat (1 - level) ≤ 1 := hav ▸ representable_one.rounded_le (by linarith)
  have hdiv := div_rounds haf two_value.1 (by rw [two_value.2]; norm_num)
  rw [two_value.2] at hdiv
  obtain ⟨htf, htv⟩ := hdiv.finite_of_le (k := 0) (by rw [abs_of_nonneg] <;> linarith)
    (by norm_num)
  exact ⟨htf, htv ▸ rounded_nonneg (by linarith),
    htv ▸ representable_half.rounded_le (by linarith)⟩

/-- The other end is at least a half of the way. -/
theorem head_value (h0 : 0 < level) (h1 : level < 1) :
    isFinite (1 - (1 - level) / 2) = true ∧ 1 / 2 ≤ toRat (1 - (1 - level) / 2) ∧
      toRat (1 - (1 - level) / 2) ≤ 1 := by
  obtain ⟨htf, ht0, ht1⟩ := tail_value h0 h1
  have hsub := sub_rounds one_value.1 htf
  rw [one_value.2] at hsub
  obtain ⟨hf, hv⟩ := hsub.finite_of_le (k := 0) (by rw [abs_of_nonneg] <;> linarith)
    (by norm_num)
  exact ⟨hf, hv ▸ representable_half.le_rounded (by linarith),
    hv ▸ representable_one.rounded_le (by linarith)⟩

/-! ## Places -/

theorem iterations_value (hlt : n < iterationLimit) :
    isFinite (Float.ofNat n) = true ∧ toRat (Float.ofNat n) = rounded n :=
  ofNat_word_value (hlt.trans (by decide))

theorem product_value {f : Float} (hf : isFinite f = true) (h0 : 0 ≤ toRat f) (h1 : toRat f ≤ 1)
    (hlt : n < iterationLimit) :
    isFinite (f * Float.ofNat n) = true ∧
      toRat (f * Float.ofNat n) = rounded (toRat f * rounded n) := by
  obtain ⟨hnf, hnv⟩ := iterations_value hlt
  have hn0 : 0 ≤ rounded n := rounded_nonneg n.cast_nonneg
  have hbound : rounded n ≤ 2 ^ 60 := by
    have hpow : Representable (2 ^ 60) := by
      exact_mod_cast representable_two_zpow (e := 60) (by norm_num)
    exact hpow.rounded_le (by exact_mod_cast hlt.le)
  have hmul := mul_rounds hf hnf
  rw [hnv] at hmul
  refine hmul.finite_of_le (k := 60) ?_ (by norm_num)
  rw [abs_of_nonneg (mul_nonneg h0 hn0)]
  exact (mul_le_of_le_one_left hn0 h1).trans hbound

/-- A rounded product with at most a half stays below the number: a power of two stands between
them, or the number is one itself. -/
theorem rounded_half_lt {h : ℚ} (hn : 0 < n) (h1 : h ≤ 1 / 2) :
    rounded (h * rounded n) < n := by
  have hlow := Nat.log2_self_le hn.ne'
  have hhigh : n < 2 ^ (n.log2 + 1) := Nat.lt_log2_self
  have hpow : ∀ k : ℕ, Representable (2 ^ k) := fun k => by
    exact_mod_cast representable_two_zpow (e := k) (by omega)
  have hn0 : (0 : ℚ) ≤ rounded n := rounded_nonneg n.cast_nonneg
  have hmul : h * rounded n ≤ 1 / 2 * rounded n := mul_le_mul_of_nonneg_right h1 hn0
  rcases hlow.lt_or_eq with hlt | heq
  · have hround : rounded n ≤ 2 ^ (n.log2 + 1) :=
      (hpow _).rounded_le (by exact_mod_cast hhigh.le)
    rw [pow_succ] at hround
    have hle : rounded (h * rounded n) ≤ 2 ^ n.log2 := (hpow _).rounded_le (by linarith)
    exact hle.trans_lt (by exact_mod_cast hlt)
  · have hexact : rounded n = n := by
      rw [← heq, Nat.cast_pow, Nat.cast_ofNat]
      exact hpow _
    have hhalf : Representable (1 / 2 * n) := by
      have hrep := representable_two_zpow (e := (n.log2 : ℤ) - 1) (by omega)
      rw [zpow_sub₀ (by norm_num), zpow_one, zpow_natCast] at hrep
      have hcast : (n : ℚ) = 2 ^ n.log2 := by exact_mod_cast heq.symm
      rw [hcast, one_div, inv_mul_eq_div]
      exact hrep
    rw [hexact] at hmul ⊢
    have hpos : (0 : ℚ) < n := by exact_mod_cast hn
    exact (hhalf.rounded_le hmul).trans_lt (by linarith)

/-- The place of the lower end among the sorted replicates. -/
def lowerPlace (level : Float) (n : ℕ) : ℕ := ⌊toRat ((1 - level) / 2 * Float.ofNat n)⌋₊

/-- The place of the upper end, the last at most. -/
def upperPlace (level : Float) (n : ℕ) : ℕ :=
  min ⌊toRat ((1 - (1 - level) / 2) * Float.ofNat n)⌋₊ (n - 1)

theorem lowerPlace_lt (h0 : 0 < level) (h1 : level < 1) (hn : 0 < n) (hlt : n < iterationLimit) :
    lowerPlace level n < n := by
  obtain ⟨htf, ht0, ht1⟩ := tail_value h0 h1
  obtain ⟨-, hv⟩ := product_value htf ht0 (by linarith) hlt
  rw [lowerPlace, hv]
  exact (Nat.floor_lt (rounded_nonneg (mul_nonneg ht0 (rounded_nonneg n.cast_nonneg)))).mpr
    (rounded_half_lt hn ht1)

theorem lowerPlace_le_upperPlace (h0 : 0 < level) (h1 : level < 1) (hn : 0 < n)
    (hlt : n < iterationLimit) : lowerPlace level n ≤ upperPlace level n := by
  obtain ⟨htf, ht0, ht1⟩ := tail_value h0 h1
  obtain ⟨huf, hu0, hu1⟩ := head_value h0 h1
  obtain ⟨-, htv⟩ := product_value htf ht0 (by linarith) hlt
  obtain ⟨-, huv⟩ := product_value huf (by linarith) hu1 hlt
  refine le_min ?_ (Nat.le_sub_one_of_lt (lowerPlace_lt h0 h1 hn hlt))
  rw [lowerPlace, htv, huv]
  exact Nat.floor_mono (rounded_monotone
    (mul_le_mul_of_nonneg_right (ht1.trans hu0) (rounded_nonneg n.cast_nonneg)))

/-- The replicate at a fraction is the one at the truncated product, the last at most. -/
theorem atFraction_eq (shifts : Shifts) {f : Float} (hf : isFinite f = true) (h0 : 0 ≤ toRat f)
    (h1 : toRat f ≤ 1) (hlt : shifts.values.size < iterationLimit) :
    shifts.values.toList[min ⌊toRat (f * Float.ofNat shifts.values.size)⌋₊
      (shifts.values.size - 1)]? = some (shifts.atFraction f) := by
  obtain ⟨hpf, hpv⟩ := product_value hf h0 h1 hlt
  have hp0 : 0 ≤ toRat (f * Float.ofNat shifts.values.size) := by
    rw [hpv]
    exact rounded_nonneg (mul_nonneg h0 (rounded_nonneg (Nat.cast_nonneg _)))
  have hnonempty := shifts.nonempty
  unfold Shifts.atFraction
  simp only [toNat_toUInt64 hpf hp0]
  rw [Array.getElem?_toList, Array.getElem?_eq_getElem (by omega)]
  congr 2
  unfold iterationLimit at hlt
  omega

/-! ## Shares -/

theorem share_value {k : ℕ} (hk : k ≤ n) (hn : 0 < n) (hlt : n < iterationLimit) :
    isFinite (Float.ofNat k / Float.ofNat n) = true ∧
      toRat (Float.ofNat k / Float.ofNat n) = rounded (rounded k / rounded n) := by
  obtain ⟨hkf, hkv⟩ := iterations_value (hk.trans_lt hlt)
  obtain ⟨hnf, hnv⟩ := iterations_value hlt
  have hn1 : 1 ≤ rounded n := representable_one.le_rounded (by exact_mod_cast hn)
  have hkn : rounded k ≤ rounded n := rounded_monotone (by exact_mod_cast hk)
  have hk0 : 0 ≤ rounded k := rounded_nonneg k.cast_nonneg
  have hdiv := div_rounds hkf hnf (by rw [hnv]; linarith)
  rw [hkv, hnv] at hdiv
  refine hdiv.finite_of_le (k := 0) ?_ (by norm_num)
  rw [abs_of_nonneg (div_nonneg hk0 (by linarith)), pow_zero]
  exact div_le_one_of_le₀ hkn (by linarith)

theorem share_mono {j k : ℕ} (hjk : j ≤ k) (hk : k ≤ n) (hn : 0 < n) (hlt : n < iterationLimit) :
    Float.ofNat j / Float.ofNat n ≤ Float.ofNat k / Float.ofNat n := by
  obtain ⟨hjf, hjv⟩ := share_value (hjk.trans hk) hn hlt
  obtain ⟨hkf, hkv⟩ := share_value hk hn hlt
  rw [le_iff hjf hkf, hjv, hkv]
  exact rounded_monotone (div_le_div_of_nonneg_right (rounded_monotone (by exact_mod_cast hjk))
    (rounded_nonneg n.cast_nonneg))

/-- In range of exact conversions a share is rounded once. -/
theorem share_exact {k : ℕ} (hk : k ≤ n) (hn : 0 < n) (hle : n ≤ 2 ^ 53) :
    toRat (Float.ofNat k / Float.ofNat n) = rounded ((k : ℚ) / n) := by
  have hlt : n < iterationLimit := hle.trans_lt (by unfold iterationLimit; norm_num)
  rw [(share_value hk hn hlt).2, representable_natCast (hk.trans hle), representable_natCast hle]

/-! ## Coherence -/

def countAbove (replicates : List Float) : ℕ := replicates.countP fun d => decide (0 < d)

def countBelow (replicates : List Float) : ℕ := replicates.countP fun d => decide (d < 0)

/-- The figures of a comparison agree with its replicates and with one another. -/
structure Coherent (c : Comparison) (replicates : List Float) (level : Float) (n : ℕ) : Prop where
  length : replicates.length = n
  finite : ∀ x ∈ replicates, isFinite x = true
  lower_mem : c.intervalLower ∈ replicates
  upper_mem : c.intervalUpper ∈ replicates
  ordered : c.intervalLower ≤ c.intervalUpper
  places : lowerPlace level n ≤ upperPlace level n ∧ upperPlace level n < n
  lower : (sorted replicates)[lowerPlace level n]? = some c.intervalLower
  upper : (sorted replicates)[upperPlace level n]? = some c.intervalUpper
  share : c.probabilityRegression = Float.ofNat (countAbove replicates) / Float.ofNat n
  share_exact : n ≤ 2 ^ 53 →
    toRat c.probabilityRegression = rounded ((countAbove replicates : ℚ) / n)
  above : 0 < c.intervalLower → n - lowerPlace level n ≤ countAbove replicates ∧
    1 - (lowerPlace level n : ℚ) / n ≤ (countAbove replicates : ℚ) / n ∧
    Float.ofNat (n - lowerPlace level n) / Float.ofNat n ≤ c.probabilityRegression
  below : c.intervalUpper < 0 → upperPlace level n + 1 ≤ countBelow replicates ∧
    (countAbove replicates : ℚ) / n ≤ ((n : ℚ) - 1 - upperPlace level n) / n ∧
    c.probabilityRegression ≤ Float.ofNat (n - 1 - upperPlace level n) / Float.ofNat n

theorem Coherent.one_side {c : Comparison} {replicates : List Float}
    (h : c.Coherent replicates level n) : ¬ (0 < c.intervalLower ∧ c.intervalUpper < 0) := by
  rintro ⟨hlow, hup⟩
  have hlf := h.finite _ h.lower_mem
  have huf := h.finite _ h.upper_mem
  have hordered := (le_iff hlf huf).mp h.ordered
  rw [lt_iff zero_value.1 hlf, zero_value.2] at hlow
  rw [lt_iff huf zero_value.1, zero_value.2] at hup
  linarith

theorem countAbove_add_countBelow_le {xs : List Float} (hxs : ∀ x ∈ xs, isFinite x = true) :
    countAbove xs + countBelow xs ≤ xs.length := by
  induction xs with
  | nil => exact le_rfl
  | cons x xs ih =>
    obtain ⟨hx, hrest⟩ := List.forall_mem_cons.mp hxs
    have hboth : ¬ (0 < x ∧ x < 0) := fun ⟨hpos, hneg⟩ => by
      rw [lt_iff zero_value.1 hx] at hpos
      rw [lt_iff hx zero_value.1] at hneg
      exact hpos.not_gt hneg
    have hind := ih hrest
    unfold countAbove countBelow at hind ⊢
    rw [List.countP_cons, List.countP_cons, List.length_cons]
    simp only [decide_eq_true_eq]
    split <;> split <;> first | omega | exact absurd ⟨‹0 < x›, ‹x < 0›⟩ hboth

section Sorted

variable {xs : List Float} {x : Float} {k : ℕ}

theorem sorted_pairwise_finite (hxs : ∀ x ∈ xs, isFinite x = true) :
    (sorted xs).Pairwise fun x y =>
      isFinite x = true ∧ isFinite y = true ∧ toRat x ≤ toRat y :=
  (sorted_pairwise xs).imp_of_mem fun hx hy hxy =>
    ⟨hxs _ ((sorted_perm xs).mem_iff.mp hx), hxs _ ((sorted_perm xs).mem_iff.mp hy), hxy⟩

theorem mem_of_sorted (h : (sorted xs)[k]? = some x) : x ∈ xs :=
  (sorted_perm xs).mem_iff.mp (List.mem_of_getElem? h)

/-- A replicate above zero leaves all from its place on above zero. -/
theorem length_sub_le_countAbove (hxs : ∀ x ∈ xs, isFinite x = true)
    (h : (sorted xs)[k]? = some x) (hpos : 0 < x) : xs.length - k ≤ countAbove xs := by
  obtain ⟨hk, hget⟩ := List.getElem?_eq_some_iff.mp h
  have hcount := length_sub_le_countP (sorted_pairwise_finite hxs) (p := fun d => decide (0 < d))
    (fun y z ⟨hy, hz, hyz⟩ h0 => by
      rw [decide_eq_true_eq, lt_iff zero_value.1 hy] at h0
      rw [decide_eq_true_eq, lt_iff zero_value.1 hz]
      exact h0.trans_le hyz)
    hk (by rw [hget]; exact decide_eq_true hpos)
  rwa [(sorted_perm xs).length_eq, (sorted_perm xs).countP_eq] at hcount

/-- A replicate below zero leaves all up to its place below zero. -/
theorem succ_le_countBelow (hxs : ∀ x ∈ xs, isFinite x = true)
    (h : (sorted xs)[k]? = some x) (hneg : x < 0) : k + 1 ≤ countBelow xs := by
  obtain ⟨hk, hget⟩ := List.getElem?_eq_some_iff.mp h
  have hcount := succ_le_countP (sorted_pairwise_finite hxs) (p := fun d => decide (d < 0))
    (fun y z ⟨hy, hz, hyz⟩ h0 => by
      rw [decide_eq_true_eq, lt_iff hz zero_value.1] at h0
      rw [decide_eq_true_eq, lt_iff hy zero_value.1]
      exact hyz.trans_lt h0)
    hk (by rw [hget]; exact decide_eq_true hneg)
  rwa [(sorted_perm xs).countP_eq] at hcount

theorem sorted_le {y : Float} {l : ℕ} (hxs : ∀ x ∈ xs, isFinite x = true) (hkl : k ≤ l)
    (hx : (sorted xs)[k]? = some x) (hy : (sorted xs)[l]? = some y) : x ≤ y := by
  rw [le_iff (hxs x (mem_of_sorted hx)) (hxs y (mem_of_sorted hy))]
  rcases hkl.lt_or_eq with hlt | rfl
  · obtain ⟨hk, rfl⟩ := List.getElem?_eq_some_iff.mp hx
    obtain ⟨hl, rfl⟩ := List.getElem?_eq_some_iff.mp hy
    exact List.pairwise_iff_getElem.mp (sorted_pairwise xs) k l hk hl hlt
  · rw [Option.some_inj.mp (hx.symm.trans hy)]

end Sorted

/-- The figures that are taken from sorted replicates agree with them. -/
theorem coherent_of_shifts {xs : List Float} (hxs : ∀ x ∈ xs, isFinite x = true)
    (hlen : xs.length = n) (hn : 0 < n) (hlt : n < iterationLimit) (h0 : 0 < level)
    (h1 : level < 1) {shifts : Shifts} (hvalues : shifts.values = (sorted xs).toArray)
    {c : Comparison} (hlower : c.intervalLower = shifts.atFraction ((1 - level) / 2))
    (hupper : c.intervalUpper = shifts.atFraction (1 - (1 - level) / 2))
    (hshare : c.probabilityRegression = shifts.positiveShare) : c.Coherent xs level n := by
  have hlist : shifts.values.toList = sorted xs := by rw [hvalues]
  have hsize : shifts.values.size = n := by
    rw [← Array.length_toList, hlist, (sorted_perm xs).length_eq, hlen]
  obtain ⟨htf, ht0, ht1⟩ := tail_value h0 h1
  obtain ⟨huf, hu0, hu1⟩ := head_value h0 h1
  have hplace := lowerPlace_lt h0 h1 hn hlt
  have hplaces := lowerPlace_le_upperPlace h0 h1 hn hlt
  have hlast : upperPlace level n < n :=
    Nat.lt_of_le_of_lt (Nat.min_le_right _ _) (Nat.sub_one_lt_of_lt hn)
  have hlow := atFraction_eq shifts htf ht0 (by linarith) (hsize ▸ hlt)
  have hup := atFraction_eq shifts huf (by linarith) hu1 (hsize ▸ hlt)
  rw [hsize, hlist, ← hlower] at hlow
  rw [hsize, hlist, ← hupper] at hup
  replace hlow : (sorted xs)[lowerPlace level n]? = some c.intervalLower := by
    rwa [← Nat.min_eq_left (Nat.le_sub_one_of_lt hplace)]
  replace hup : (sorted xs)[upperPlace level n]? = some c.intervalUpper := hup
  have hcount : c.probabilityRegression = Float.ofNat (countAbove xs) / Float.ofNat n := by
    rw [hshare, Shifts.positiveShare, hsize, hvalues, List.countP_toArray,
      (sorted_perm xs).countP_eq]
    rfl
  have habove_le : countAbove xs ≤ n := hlen ▸ List.countP_le_length
  have hpos : (0 : ℚ) < n := by exact_mod_cast hn
  refine ⟨hlen, hxs, mem_of_sorted hlow, mem_of_sorted hup, sorted_le hxs hplaces hlow hup,
    ⟨hplaces, hlast⟩, hlow, hup, hcount, fun hle => ?_, fun h => ?_, fun h => ?_⟩
  · rw [hcount]
    exact Comparison.share_exact habove_le hn hle
  · have hge := length_sub_le_countAbove hxs hlow h
    rw [hlen] at hge
    refine ⟨hge, ?_, hcount ▸ share_mono hge habove_le hn hlt⟩
    have hcast : (n : ℚ) ≤ countAbove xs + lowerPlace level n := by
      exact_mod_cast Nat.sub_le_iff_le_add.mp hge
    rw [le_div_iff₀ hpos, sub_mul, one_mul, div_mul_cancel₀ _ hpos.ne']
    linarith
  · have hge := succ_le_countBelow hxs hup h
    have hboth := countAbove_add_countBelow_le hxs
    rw [hlen] at hboth
    have hrest : countAbove xs ≤ n - 1 - upperPlace level n := by omega
    refine ⟨hge, ?_, hcount ▸ share_mono hrest (by omega) hn hlt⟩
    have hcast : (countAbove xs : ℚ) + upperPlace level n + 1 ≤ n := by
      exact_mod_cast (by omega : countAbove xs + upperPlace level n + 1 ≤ n)
    exact div_le_div_of_nonneg_right (by linarith) hpos.le

section Measured

variable {σ : Type} [RankSource σ] {baseline candidate : Distribution} {config : ComparisonConfig}

/-- The figures of a comparison that has been made agree with its replicates. -/
theorem coherent_of_measure {hn : 0 < config.bootstrapIterations} {s s' : σ} {c : Comparison}
    (h : measure baseline candidate config hn s = .ok (c, s')) (hb : baseline.size < UInt64.size)
    (hc : candidate.size < UInt64.size) (h0 : 0 < config.confidenceLevel)
    (h1 : config.confidenceLevel < 1) :
    c.Coherent (replicates baseline candidate config.bootstrapIterations [] s).1
      config.confidenceLevel config.bootstrapIterations := by
  obtain ⟨shifts, s₁, -, -, -, hshifts, -, -, hlower, hupper, hshare, -, -⟩ := measure_cases h
  obtain ⟨hlt, hvalues, -⟩ := shifts_of_bootstrap hshifts
  exact coherent_of_shifts (replicates_finite hb hc _ s)
    (by rw [length_replicates, List.length_nil, Nat.zero_add]) hn hlt h0 h1 hvalues hlower hupper
    hshare

theorem refusal_eq_none (hb : 2 ≤ baseline.size) (hc : 2 ≤ candidate.size)
    (h0 : 0 < config.confidenceLevel) (h1 : config.confidenceLevel < 1)
    (hn : 0 < config.bootstrapIterations) : refusal baseline candidate config = none := by
  rw [refusal_eq hb hc, if_neg (not_not_intro ⟨h0, h1⟩), if_neg hn.ne']

/-- **The interval and the probability of a comparison are coherent.** Two distributions of at least
two observations are compared for every level between zero and one and any number of replicates
that can be addressed, whatever is drawn. -/
theorem interval_coherent (hb : 2 ≤ baseline.size) (hb' : baseline.size < UInt64.size)
    (hc : 2 ≤ candidate.size) (hc' : candidate.size < UInt64.size)
    (h0 : 0 < config.confidenceLevel) (h1 : config.confidenceLevel < 1)
    (hn : 1 ≤ config.bootstrapIterations) (hlt : config.bootstrapIterations < 2 ^ 60) (s : σ) :
    ∃ c s', compare baseline candidate config s = .ok (.ok (c, s')) ∧
      c.Coherent (replicates baseline candidate config.bootstrapIterations [] s).1
        config.confidenceLevel config.bootstrapIterations := by
  obtain ⟨c, s', hmeasure⟩ : ∃ c s', measure baseline candidate config hn s = .ok (c, s') :=
    measure_ok hn hlt s
  refine ⟨c, s', ?_, coherent_of_measure hmeasure hb' hc' h0 h1⟩
  rw [compare_of_no_refusal (refusal_eq_none hb hc h0 h1 hn), hmeasure]
  rfl

/-- A comparison whose replicates are all the same has an interval of no width. -/
theorem run_of_constant (baseline candidate : Distribution) (config : ComparisonConfig) (s : σ)
    (x : Float) (hb : 2 ≤ baseline.size ∧ baseline.size < UInt64.size)
    (hc : 2 ≤ candidate.size ∧ candidate.size < UInt64.size)
    (hlevel : 0 < config.confidenceLevel ∧ config.confidenceLevel < 1)
    (hn : 0 < config.bootstrapIterations) (hlt : config.bootstrapIterations < iterationLimit)
    (hreplicates : ∀ y ∈ (replicates baseline candidate config.bootstrapIterations [] s).1,
      y = x) :
    ∃ c s', measure baseline candidate config hn s = .ok (c, s') ∧
      compare baseline candidate config s = .ok (.ok (c, s')) ∧ c.intervalLower = x ∧
      c.intervalUpper = x ∧ c.isSignificant =
        significant x x c.relativeChange config.significanceThreshold := by
  have haccept := refusal_eq_none hb.1 hc.1 hlevel.1 hlevel.2 hn
  obtain ⟨c, s', h⟩ : ∃ c s', measure baseline candidate config hn s = .ok (c, s') :=
    measure_ok hn hlt s
  have hcoherent := coherent_of_measure h hb.2 hc.2 hlevel.1 hlevel.2
  have hlower := hreplicates _ hcoherent.lower_mem
  have hupper := hreplicates _ hcoherent.upper_mem
  obtain ⟨-, -, -, -, -, -, -, -, -, -, -, -, hsignificant⟩ := measure_cases h
  exact ⟨c, s', h, compare_of_measure haccept h, hlower, hupper, by
    rw [hsignificant, hlower, hupper]⟩

end Measured

/-! ## Rounded shares -/

def twoOnes : Distribution :=
  ((Builder.ofCapacity 1 Nat.one_pos).insertAll [1, 1]).finish (by decide +kernel)

def oneAndTwo : Distribution :=
  ((Builder.ofCapacity 1 Nat.one_pos).insertAll [1, 2]).finish (by decide +kernel)

theorem interval_coherent_default :
    ∃ c s', compare twoOnes oneAndTwo {} (WordStream.ofSeed 42) = .ok (.ok (c, s')) ∧
      c.Coherent (replicates twoOnes oneAndTwo 1000 [] (WordStream.ofSeed 42)).1 0.95 1000 :=
  interval_coherent (by decide +kernel) (by decide +kernel) (by decide +kernel)
    (by decide +kernel) (by decide +kernel) (by decide +kernel) (by decide) (by decide) _

/-- The words that draw the greater candidate once in two of three replicates. -/
def risingWords : WordStream :=
  .ofList [0, 0x8000000000000000, 0, 0, 0, 0x8000000000000000, 0, 0, 0, 0, 0, 0]

theorem replicates_rising :
    (replicates twoOnes oneAndTwo 3 [] risingWords).1 = [0, 0.5, 0.5] := by
  decide +kernel

theorem sorted_rising : sorted [0, 0.5, 0.5] = [0, 0.5, 0.5] :=
  List.mergeSort_of_pairwise (by decide +kernel)

theorem lowerPlace_rising : lowerPlace 0.3 3 = 1 := by
  have hf : isFinite ((1 - 0.3) / 2 * Float.ofNat 3) = true := by decide +kernel
  have hlow : (1 : Float) ≤ (1 - 0.3) / 2 * Float.ofNat 3 := by decide +kernel
  have hhigh : (1 - 0.3) / 2 * Float.ofNat 3 < (2 : Float) := by decide +kernel
  rw [le_iff one_value.1 hf, one_value.2] at hlow
  rw [lt_iff hf two_value.1, two_value.2] at hhigh
  rw [lowerPlace, Nat.floor_eq_iff (by linarith)]
  constructor
  · exact_mod_cast hlow
  · norm_num
    exact hhigh

/-- Replicates that cannot be addressed are not drawn. And a share is rounded: two of three
replicates are above zero from the second on, but the double nearest to two thirds is less than
one less a third, exactly and in doubles. -/
theorem share_rounded_below :
    compare twoOnes oneAndTwo ⟨0.3, 5, 2 ^ 60⟩ risingWords = .error .allocationTooLarge ∧
    ∃ c s', compare twoOnes oneAndTwo ⟨0.3, 5, 3⟩ risingWords = .ok (.ok (c, s')) ∧
      0 < c.intervalLower ∧
      toRat c.probabilityRegression < 1 - (lowerPlace 0.3 3 : ℚ) / 3 ∧
      c.probabilityRegression < 1 - Float.ofNat (lowerPlace 0.3 3) / Float.ofNat 3 := by
  have hlevel : (0 : Float) < 0.3 ∧ (0.3 : Float) < 1 := by decide +kernel
  have haccept : ∀ n, 0 < n → refusal twoOnes oneAndTwo ⟨0.3, 5, n⟩ = none := fun n hn =>
    refusal_eq_none (by decide +kernel) (by decide +kernel) hlevel.1 hlevel.2 hn
  constructor
  · rw [compare_of_no_refusal (haccept (2 ^ 60) (by norm_num)), measure_faults _ le_rfl]
    rfl
  · obtain ⟨c, s', hmeasure⟩ :
        ∃ c s', measure twoOnes oneAndTwo ⟨0.3, 5, 3⟩ (by decide) risingWords = .ok (c, s') :=
      measure_ok (by decide) (by decide) risingWords
    have hcoherent : c.Coherent (replicates twoOnes oneAndTwo 3 [] risingWords).1 0.3 3 :=
      coherent_of_measure hmeasure (by decide +kernel) (by decide +kernel) hlevel.1 hlevel.2
    have hlower := hcoherent.lower
    have hshare := hcoherent.share
    rw [replicates_rising, sorted_rising, lowerPlace_rising] at hlower
    rw [replicates_rising, show countAbove [0, 0.5, 0.5] = 2 by decide +kernel] at hshare
    refine ⟨c, s', ?_, ?_, ?_, ?_⟩
    · rw [compare_of_no_refusal (haccept 3 (by norm_num)), hmeasure]
      rfl
    · rw [← Option.some_inj.mp hlower]
      decide +kernel
    · have hunits : 3 * units (Float.ofNat 2 / Float.ofNat 3) < 2 * (one : ℤ) := by
        decide +kernel
      have hone : (0 : ℚ) < (one : ℤ) := by
        have : (0 : ℤ) < (one : ℤ) := by decide +kernel
        exact_mod_cast this
      have hcast : (3 : ℚ) * units (Float.ofNat 2 / Float.ofNat 3) < 2 * (one : ℤ) := by
        exact_mod_cast hunits
      rw [hshare, lowerPlace_rising, toRat_eq_div, div_lt_iff₀ hone, Nat.cast_one]
      linarith
    · rw [hshare, lowerPlace_rising]
      decide +kernel

end TimingStats.Comparison
