import Mathlib.Algebra.Order.Group.Multiset
import Mathlib.Data.Fintype.Card
import TimingStats.Proofs.Distribution.Ranks

/-! # Ranks and counts

A value is found by the ranks at which the bins end, and a count by the values of the bins. The two
searches are inverse to each other: the observations up to a value are those whose ranks lie below
its count. So each value belongs to as many ranks as it has observations, and is drawn in proportion
to them. -/

namespace TimingStats

open TimingStats.Random

/-- The entries of an ordered list that are not above a value come first. -/
theorem getElem_le_iff_lt_countP {xs : List Int64} (hs : xs.Pairwise (· ≤ ·)) {r : ℕ}
    (hr : r < xs.length) (v : Int64) :
    xs[r] ≤ v ↔ r < xs.countP fun x => decide (x ≤ v) := by
  constructor
  · intro hle
    exact succ_le_countP hs
      (fun x y hxy hy => decide_eq_true (Int64.le_trans hxy (of_decide_eq_true hy))) hr
      (decide_eq_true hle)
  · intro hlt
    by_contra hgt
    have habove := length_sub_le_countP hs (p := fun x => decide (¬ x ≤ v))
      (fun x y hxy hx => decide_eq_true fun hy =>
        of_decide_eq_true hx (Int64.le_trans hxy hy)) hr (decide_eq_true hgt)
    have hsum := xs.length_eq_countP_add_countP fun x => decide (x ≤ v)
    simp only [decide_eq_true_eq] at hsum
    omega

namespace Histogram

/-- Where a value cuts the bins, as many observations are not above it as the bins before the cut
stand for. -/
theorem countP_observed {bs : List Bin} {k : ℕ} {v : Int64}
    (hlow : ∀ b ∈ bs.take k, b.value ≤ v) (hhigh : ∀ b ∈ bs.drop k, v < b.value) :
    (observed bs).countP (fun x => decide (x ≤ v)) = total (bs.take k) := by
  have hbefore : (observed (bs.take k)).countP (fun x => decide (x ≤ v)) =
      (observed (bs.take k)).length := by
    refine List.countP_eq_length.mpr fun x hx => ?_
    obtain ⟨b, hb, hx⟩ := List.mem_flatMap.mp hx
    rw [List.eq_of_mem_replicate hx]
    exact decide_eq_true (hlow b hb)
  have hafter : (observed (bs.drop k)).countP (fun x => decide (x ≤ v)) = 0 := by
    refine List.countP_eq_zero.mpr fun x hx => ?_
    obtain ⟨b, hb, hx⟩ := List.mem_flatMap.mp hx
    rw [List.eq_of_mem_replicate hx, decide_eq_true_eq]
    exact Int64.not_le.mpr (hhigh b hb)
  rw [← List.take_append_drop k bs, observed_append, List.countP_append, hbefore, hafter,
    length_observed, List.take_append_drop, Nat.add_zero]

end Histogram

namespace Distribution

variable (d : Distribution)

/-! ## Counts -/

/-- **The count up to a value**, which need not be observed. The search stops at the first bin that
is not below the value, and the bin before it ends at the count. -/
theorem countAtMost_eq (v : Int64) :
    d.countAtMost v = d.histogram.observations.countP fun x => decide (x ≤ v) := by
  have hcut : ∀ k ≤ d.numBins, (∀ j < k, d.storage.value j ≤ v) →
      (∀ j, k ≤ j → j < d.numBins → v < d.storage.value j) →
      d.histogram.observations.countP (fun x => decide (x ≤ v)) =
        Histogram.total (d.bins.take k) := by
    intro k hk hlow hhigh
    refine Histogram.countP_observed (fun b hb => ?_) (fun b hb => ?_)
    · have hb : b ∈ d.bins.take k := hb
      rw [BinTable.bins, BinStorage.take_bins _ hk] at hb
      obtain ⟨j, hj, rfl⟩ := BinStorage.mem_bins.mp hb
      exact hlow j hj
    · obtain ⟨j, hj, rfl⟩ := List.mem_drop_iff_getElem.mp hb
      have hlast : j + k < d.bins.length := hj
      rw [BinTable.length_bins, Nat.add_comm] at hlast
      exact (d.storage.getElem_bins _).symm ▸ hhigh (k + j) (Nat.le_add_right k j) hlast
  have hplace := BinStorage.search_fits d.sorted.increasing v
  unfold countAtMost
  cases hs : d.storage.search d.numBins v with
  | held i hi =>
    rw [hs] at hplace
    obtain ⟨hlow, heq⟩ := hplace
    have hbelow : ∀ j < i + 1, d.storage.value j ≤ v := fun j hj =>
      heq ▸ BinStorage.value_mono d.sorted.increasing (Nat.le_of_lt_succ hj) hi
    have habove : ∀ j, i + 1 ≤ j → j < d.numBins → v < d.storage.value j := fun j hij hj => by
      have hlt := List.pairwise_iff_getElem.mp d.sorted.increasing i j (by simpa) (by simpa) hij
      simp only [BinTable.bins, BinStorage.getElem_bins] at hlt
      exact heq ▸ hlt
    rw [hcut (i + 1) hi hbelow habove]
    exact d.endRank_eq hi
  | gap i hi =>
    rw [hs] at hplace
    obtain ⟨hlow, hhigh⟩ := hplace
    rw [hcut i hi (fun j hj => Int64.le_of_lt (hlow j hj)) hhigh]
    cases i with
    | zero => rfl
    | succ i => exact d.endRank_eq hi

/-- The value at a rank is not above another exactly if the rank lies below the count of that. -/
theorem valueAt_le_iff (r : Fin d.size) (v : Int64) :
    d.valueAt r ≤ v ↔ (r : ℕ) < d.countAtMost v := by
  rw [valueAt_eq, countAtMost_eq]
  exact getElem_le_iff_lt_countP d.histogram.observations_sorted
    (d.length_observations.symm ▸ r.isLt) v

/-! ## Ranks of a value -/

theorem valueAt_ranks :
    (Finset.univ : Finset (Fin d.size)).val.map d.valueAt = d.histogram.observations := by
  have hvalues : d.valueAt = fun r => d.histogram.observations.get
      (r.cast d.length_observations.symm) := funext d.valueAt_eq
  rw [Fin.univ_val_map, hvalues, List.ofFn_congr d.length_observations.symm]
  exact congrArg _ (List.ofFn_get _)

/-- A value belongs to as many ranks as it has observations. -/
theorem card_ranks (v : Int64) :
    (Finset.univ.filter fun r : Fin d.size => d.valueAt r = v).card =
      d.histogram.observations.count v := by
  rw [← Multiset.coe_count, ← valueAt_ranks, Multiset.count_map]
  simp only [Finset.card_def, Finset.filter_val, eq_comm]

/-- If every rank is drawn from equally many states, a value is drawn from that many states for each
of its observations. -/
theorem countP_choose {σ : Type} [RankSource σ] {states : List σ} {k : ℕ}
    (huniform : ∀ r : Fin d.size,
      states.countP (fun s => decide ((RankSource.draw d.size d.size_pos s).1 = r)) = k)
    (v : Int64) : states.countP (fun s => decide ((d.choose s).1 = v)) =
      k * d.histogram.observations.count v := by
  have hranks : ((states.map fun s => (RankSource.draw d.size d.size_pos s).1 : List _) :
      Multiset (Fin d.size)) = k • (Finset.univ : Finset (Fin d.size)).val := by
    refine Multiset.ext.mpr fun r => ?_
    rw [Multiset.coe_count, Multiset.count_nsmul, Multiset.count_univ, mul_one, ← huniform r,
      List.count, List.countP_map]
    rfl
  have hchosen : ((states.map fun s => (d.choose s).1 : List Int64) : Multiset Int64) =
      k • (d.histogram.observations : Multiset Int64) := by
    rw [← valueAt_ranks, ← Multiset.map_nsmul, ← hranks, Multiset.map_coe, List.map_map]
    rfl
  calc states.countP (fun s => decide ((d.choose s).1 = v))
      = (states.map fun s => (d.choose s).1).count v := by
        rw [List.count, List.countP_map]
        rfl
    _ = k * d.histogram.observations.count v := by
        rw [← Multiset.coe_count, hchosen, Multiset.count_nsmul, Multiset.coe_count]

/-! ## Extremes -/

theorem valueAt_eq_value {k : ℕ} (hk : k < d.numBins) {r : Fin d.size}
    (hlow : Histogram.total (d.bins.take k) ≤ r)
    (hhigh : (r : ℕ) < Histogram.total (d.bins.take (k + 1))) :
    d.valueAt r = d.storage.value k := by
  have hbin : k < d.bins.length := d.length_bins.symm ▸ hk
  have hvalue : d.bins[k].value = d.storage.value k := by
    simp only [BinTable.bins, BinStorage.getElem_bins]
    rfl
  have hget := Histogram.getElem?_observed hbin hlow hhigh
  rw [valueAt_eq, ← hvalue]
  exact Option.some_inj.mp ((List.getElem?_eq_getElem _).symm.trans hget)

theorem valueAt_first : d.valueAt ⟨0, d.size_pos⟩ = d.min := by
  refine d.valueAt_eq_value d.nonempty (Nat.zero_le _) ?_
  exact Histogram.total_take_lt d.sorted.positive Nat.zero_lt_one (d.length_bins.symm ▸ d.nonempty)

theorem valueAt_last : d.valueAt ⟨d.size - 1, Nat.sub_one_lt_of_lt d.size_pos⟩ = d.max := by
  have hlast : d.numBins - 1 + 1 = d.numBins := Nat.sub_one_add_one (Nat.ne_of_gt d.nonempty)
  have hall : d.bins.take d.numBins = d.bins := List.take_of_length_le d.length_bins.le
  have htotal : Histogram.total d.bins = d.size := d.size_eq.symm
  have hlt := Histogram.total_take_lt d.sorted.positive (Nat.sub_one_lt_of_lt d.nonempty)
    d.length_bins.symm.le
  rw [hall, htotal] at hlt
  refine d.valueAt_eq_value d.last_lt (Nat.le_sub_one_of_lt hlt) ?_
  rw [hlast, hall, htotal]
  exact Nat.sub_one_lt_of_lt d.size_pos

theorem valueAt_mono {r s : Fin d.size} (h : r ≤ s) : d.valueAt r ≤ d.valueAt s := by
  have hs := (d.valueAt_le_iff s (d.valueAt s)).mp (Int64.le_refl _)
  exact (d.valueAt_le_iff r (d.valueAt s)).mpr (Nat.lt_of_le_of_lt h hs)

theorem min_le_valueAt (r : Fin d.size) : d.min ≤ d.valueAt r :=
  d.valueAt_first ▸ d.valueAt_mono (Fin.le_def.mpr (Nat.zero_le _))

theorem valueAt_le_max (r : Fin d.size) : d.valueAt r ≤ d.max :=
  d.valueAt_last ▸ d.valueAt_mono (Fin.le_def.mpr (Nat.le_sub_one_of_lt r.isLt))

theorem min_le_max : d.min ≤ d.max :=
  Int64.le_trans (d.min_le_valueAt ⟨0, d.size_pos⟩) (d.valueAt_le_max _)

/-- The observations lie between the least and the greatest, which are two of them. -/
theorem observations_between : d.min ∈ d.histogram.observations ∧
    d.max ∈ d.histogram.observations ∧
    ∀ v ∈ d.histogram.observations, d.min ≤ v ∧ v ≤ d.max := by
  refine ⟨?_, ?_, fun v hv => ?_⟩
  · rw [← d.valueAt_first, valueAt_eq]
    exact d.observationAt_mem _
  · rw [← d.valueAt_last, valueAt_eq]
    exact d.observationAt_mem _
  · rw [← Multiset.mem_coe, ← valueAt_ranks] at hv
    obtain ⟨r, -, rfl⟩ := Multiset.mem_map.mp hv
    exact ⟨d.min_le_valueAt r, d.valueAt_le_max r⟩

/-! ## Answers -/

/-- What a distribution answers about its observations, which are given in increasing order. -/
structure Answers (xs : List Int64) : Prop where
  sorted : xs.Pairwise (· ≤ ·)
  length : xs.length = d.size
  bins : d.bins = runLengths xs
  /-- A rank below their number gives the observation there. -/
  valueAtRank : ∀ (r : ℕ) (h : r < xs.length), d.valueAtRank r = .ok xs[r]
  /-- Any other rank is a fault. -/
  faults : ∀ r f, d.valueAtRank r = .error f ↔ d.size ≤ r ∧ f = .rankOutOfRange r
  countAtMost : ∀ v, d.countAtMost v = xs.countP fun x => decide (x ≤ v)
  inverse : ∀ (r : Fin d.size) (v : Int64), d.valueAt r ≤ v ↔ (r : ℕ) < d.countAtMost v
  /-- A value belongs to as many ranks as it is counted, a value of no bin to none. -/
  ranks : ∀ v, (Finset.univ.filter fun r : Fin d.size => d.valueAt r = v).card = xs.count v
  counts : ∀ b ∈ d.bins, xs.count b.value = b.count
  /-- A draw gives the value at the rank that is drawn. -/
  choose : ∀ {σ : Type} [RankSource σ] (s : σ), ∃ r s',
    RankSource.draw d.size d.size_pos s = (r, s') ∧ d.choose s = (d.valueAt r, s') ∧
      d.valueAtRank r = .ok (d.valueAt r)
  proportional : ∀ {σ : Type} [RankSource σ] (states : List σ) (k : ℕ),
    (∀ r : Fin d.size,
      states.countP (fun s => decide ((RankSource.draw d.size d.size_pos s).1 = r)) = k) →
    ∀ v, states.countP (fun s => decide ((d.choose s).1 = v)) = k * xs.count v
  min : d.valueAtRank 0 = .ok d.min
  max : d.valueAtRank (d.size - 1) = .ok d.max

theorem valueAtRank_of_lt (r : Fin d.size) : d.valueAtRank r = .ok (d.valueAt r) :=
  dif_pos r.isLt

theorem valueAtRank_eq {r : ℕ} {v : Int64} (h : d.histogram.observations[r]? = some v) :
    d.valueAtRank r = .ok v := by
  obtain ⟨hr, rfl⟩ := List.getElem?_eq_some_iff.mp h
  have hlt : r < d.size := d.length_observations ▸ hr
  exact (d.valueAtRank_of_lt ⟨r, hlt⟩).trans (congrArg _ (d.valueAt_eq ⟨r, hlt⟩))

theorem valueAtRank_faults_iff (r : ℕ) (f : Fault) :
    d.valueAtRank r = .error f ↔ d.size ≤ r ∧ f = .rankOutOfRange r := by
  unfold valueAtRank
  split
  · rename_i hlt
    exact iff_of_false (fun hc => nomatch hc) fun ⟨hge, _⟩ => Nat.not_lt.mpr hge hlt
  · rename_i hge
    rw [Except.error.injEq, eq_comm]
    exact (and_iff_right (Nat.not_lt.mp hge)).symm

/-- **Ranks and counts answer for the observations.** Whatever operations a distribution comes from
and whatever else its buffer holds, the value at a rank is the observation there, and the count up
to a value is that of the observations which are not above it, be it observed or not. The two are
inverse to each other, and every observation belongs to exactly one rank. -/
theorem answers_observations : d.Answers d.histogram.observations where
  sorted := d.histogram.observations_sorted
  length := d.length_observations
  bins := d.histogram.bins_eq_runLengths
  valueAtRank _ h := d.valueAtRank_eq (List.getElem?_eq_getElem h)
  faults := d.valueAtRank_faults_iff
  countAtMost := d.countAtMost_eq
  inverse := d.valueAt_le_iff
  ranks := d.card_ranks
  counts := Histogram.count_observed d.sorted.increasing
  choose _ := ⟨_, _, rfl, rfl, d.valueAtRank_of_lt _⟩
  proportional _ _ huniform v := d.countP_choose huniform v
  min := (d.valueAtRank_of_lt ⟨0, d.size_pos⟩).trans (congrArg _ d.valueAt_first)
  max := (d.valueAtRank_of_lt ⟨d.size - 1, _⟩).trans (congrArg _ d.valueAt_last)

end Distribution
end TimingStats
