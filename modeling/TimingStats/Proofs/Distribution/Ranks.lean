import TimingStats.Proofs.Distribution.Building

/-! # Observations by rank

The value at a rank is looked up by the ranks at which the bins end. It is the observation at that
place in increasing order, and a draw gives one of the observations. An entry of a list that is in
order counts the entries on either side of it. -/

namespace TimingStats

/-! ## Counting from an end -/

/-- In a list that is in order, all entries from one on are at least as great. -/
theorem length_sub_le_countP {α : Type} {r : α → α → Prop} {xs : List α} (hs : xs.Pairwise r)
    {p : α → Bool} (hp : ∀ x y, r x y → p x = true → p y = true) {k : ℕ} (hk : k < xs.length)
    (h : p xs[k] = true) : xs.length - k ≤ xs.countP p := by
  have hall : ∀ x ∈ xs.drop k, p x = true := by
    have hsub := hs.sublist (List.drop_sublist k xs)
    rw [List.drop_eq_getElem_cons hk] at hsub ⊢
    exact List.forall_mem_cons.mpr ⟨h, fun x hx => hp _ _ ((List.pairwise_cons.mp hsub).1 x hx) h⟩
  calc xs.length - k = (xs.drop k).countP p := by
        rw [List.countP_eq_length.mpr hall, List.length_drop]
    _ ≤ xs.countP p := (List.drop_sublist k xs).countP_le

/-- All entries up to one are at most as great. -/
theorem succ_le_countP {α : Type} {r : α → α → Prop} {xs : List α} (hs : xs.Pairwise r)
    {p : α → Bool} (hp : ∀ x y, r x y → p y = true → p x = true) {k : ℕ} (hk : k < xs.length)
    (h : p xs[k] = true) : k + 1 ≤ xs.countP p := by
  have hplace : xs.length - 1 - (xs.length - 1 - k) = k := by omega
  have hrev := length_sub_le_countP (List.pairwise_reverse.mpr hs) (fun x y => hp y x)
    (k := xs.length - 1 - k) (by rw [List.length_reverse]; omega)
    (by simpa only [List.getElem_reverse, hplace] using h)
  rw [List.countP_reverse, List.length_reverse] at hrev
  omega

/-! ## Observations -/

namespace Histogram

theorem observed_sorted {bs : List Bin} (hinc : bs.Pairwise fun a b => a.value < b.value) :
    (observed bs).Pairwise (· ≤ ·) := by
  induction bs with
  | nil => exact .nil
  | cons b bs ih =>
    obtain ⟨hb, hbs⟩ := List.pairwise_cons.mp hinc
    have hsplit : observed (b :: bs) = List.replicate b.count b.value ++ observed bs := rfl
    rw [hsplit, List.pairwise_append]
    refine ⟨List.pairwise_replicate.mpr (.inr (Int64.le_refl _)), ih hbs, fun v hv w hw => ?_⟩
    obtain ⟨c, hc, hw⟩ := List.mem_flatMap.mp hw
    rw [List.eq_of_mem_replicate hv, List.eq_of_mem_replicate hw]
    exact Int64.le_of_lt (hb c hc)

theorem observations_sorted (h : Histogram) : h.observations.Pairwise (· ≤ ·) :=
  observed_sorted h.increasing

theorem observed_append (as bs : List Bin) : observed (as ++ bs) = observed as ++ observed bs :=
  List.flatMap_append

/-- The observation at a rank is the value of the bin that the rank falls into. -/
theorem getElem?_observed {bs : List Bin} {k : Nat} (hk : k < bs.length) {r : Nat}
    (hlow : total (bs.take k) ≤ r) (hhigh : r < total (bs.take (k + 1))) :
    (observed bs)[r]? = some bs[k].value := by
  have hcut : bs.take (k + 1) = bs.take k ++ [bs[k]] := List.take_succ_eq_append_getElem hk
  have hsplit : observed bs =
      observed (bs.take k) ++ (List.replicate bs[k].count bs[k].value ++
        observed (bs.drop (k + 1))) := by
    conv_lhs => rw [← List.take_append_drop (k + 1) bs, hcut, List.append_assoc]
    rw [observed_append, observed_append, observed, observed, observed, List.flatMap_singleton]
  have hin : r - total (bs.take k) < bs[k].count := by
    rw [hcut, total_append, total, total] at hhigh
    omega
  rw [hsplit, List.getElem?_append_right (by rwa [length_observed]), length_observed,
    List.getElem?_append_left (by rwa [List.length_replicate]),
    List.getElem?_replicate_of_lt hin]

end Histogram

namespace Distribution

variable (d : Distribution)

theorem length_observations : d.histogram.observations.length = d.size := by
  rw [size_eq]
  exact Histogram.length_observed _

theorem mem_observations {v : Int64} :
    v ∈ d.histogram.observations ↔ ∃ b ∈ d.bins, b.value = v :=
  (Histogram.mem_observed d.sorted.positive).trans List.mem_map

theorem count_le_size {b : Bin} (hb : b ∈ d.bins) : b.count ≤ d.size :=
  (Histogram.count_le_total hb).trans_eq d.size_eq.symm

/-- The observation at a rank, in increasing order. -/
def observationAt (r : Fin d.size) : Int64 :=
  d.histogram.observations.get (r.cast d.length_observations.symm)

theorem observationAt_mem (r : Fin d.size) : d.observationAt r ∈ d.histogram.observations :=
  List.get_mem _ _

theorem endRank_eq {i : Nat} (hi : i < d.numBins) :
    d.storage.endRank i = Histogram.total (d.bins.take (i + 1)) := by
  rw [d.ranked i hi, BinTable.bins, BinStorage.take_bins _ hi]

theorem endRank_mono {i j : Nat} (hij : i ≤ j) (hj : j < d.numBins) :
    d.storage.endRank i ≤ d.storage.endRank j := by
  rcases hij.lt_or_eq with hlt | rfl
  · rw [d.endRank_eq (hlt.trans hj), d.endRank_eq hj]
    exact (Histogram.total_take_lt d.sorted.positive (Nat.succ_lt_succ hlt)
      (d.length_bins.symm ▸ hj)).le
  · exact le_rfl

/-- **The value at a rank is the observation there.** The bins below the one that is found end at
the rank or before it, and that one ends above it. -/
theorem valueAt_eq (r : Fin d.size) : d.valueAt r = d.observationAt r := by
  obtain ⟨hbelow, habove⟩ := partitionPoint_spec (fun i => decide (d.storage.endRank i ≤ r)) 0
    d.numBins fun i j hij hj hend =>
      decide_eq_true ((d.endRank_mono hij hj).trans (of_decide_eq_true hend))
  unfold valueAt
  generalize partitionPoint (fun i => decide (d.storage.endRank i ≤ r)) 0 d.numBins = k
    at hbelow habove
  have hk : k < d.numBins := by
    by_contra hge
    have hlast := of_decide_eq_true (hbelow _ (Nat.zero_le _) (d.last_lt.trans_le (not_lt.mp hge)))
    exact absurd r.isLt (not_lt.mpr hlast)
  have hlow : Histogram.total (d.bins.take k) ≤ r := by
    cases k with
    | zero => exact Nat.zero_le _
    | succ k =>
      have hend := of_decide_eq_true (hbelow k (Nat.zero_le k) (Nat.lt_succ_self k))
      rwa [d.endRank_eq (Nat.lt_of_succ_lt hk)] at hend
  have hhigh : (r : Nat) < Histogram.total (d.bins.take (k + 1)) := by
    rw [← d.endRank_eq hk]
    exact not_le.mp (of_decide_eq_false (habove k le_rfl hk))
  have hlen : (r : Nat) < d.histogram.observations.length := d.length_observations.symm ▸ r.isLt
  have hbin : k < d.bins.length := d.length_bins.symm ▸ hk
  have hvalue : d.bins[k].value = d.storage.value k := by
    simp only [BinTable.bins, BinStorage.getElem_bins]
    rfl
  have hget := Histogram.getElem?_observed hbin hlow hhigh
  rw [← hvalue]
  exact (Option.some_inj.mp ((List.getElem?_eq_getElem hlen).symm.trans hget)).symm

theorem choose_eq [Random.RankSource σ] (s : σ) :
    d.choose s = (d.observationAt (Random.RankSource.draw d.size d.size_pos s).1,
      (Random.RankSource.draw d.size d.size_pos s).2) := by
  rw [← valueAt_eq]
  rfl

end Distribution
end TimingStats
