import Mathlib.Data.Int.Interval
import TimingStats.Proofs.Accumulator.Exactness
import TimingStats.Proofs.Distribution.Building
import TimingStats.Summary

/-! # Summaries never fault

There are no more bins than values of sixty-four bits, so the exact sums of a summary have room
whatever the doubles are that they add. The integers that a summary works out fit their words if the
observations can be counted in sixty-four bits. -/

namespace TimingStats

/-! ## The number of bins -/

theorem length_le_of_increasing {bs : List Bin} (h : bs.Pairwise fun a b => a.value < b.value) :
    bs.length ≤ 2 ^ 64 := by
  have hnodup : (bs.map fun b => b.value.toInt).Nodup := by
    rw [List.nodup_iff_pairwise_ne, List.pairwise_map]
    exact h.imp fun hlt => Int.ne_of_lt (Int64.lt_iff_toInt_lt.mp hlt)
  have hrange : (bs.map fun b => b.value.toInt).toFinset ⊆ Finset.Ico (-2 ^ 63) (2 ^ 63) := by
    intro i hi
    obtain ⟨b, -, rfl⟩ := List.mem_map.mp (List.mem_toFinset.mp hi)
    exact Finset.mem_Ico.mpr ⟨b.value.le_toInt, b.value.toInt_lt⟩
  calc bs.length = (bs.map fun b => b.value.toInt).toFinset.card := by
        rw [List.toFinset_card_of_nodup hnodup, List.length_map]
    _ ≤ (Finset.Ico (-2 ^ 63 : ℤ) (2 ^ 63)).card := Finset.card_le_card hrange
    _ = 2 ^ 64 := by rw [Int.card_Ico]; rfl

namespace Distribution

open Accumulator (addAll ofList)

/-! ## Exact sums -/

theorem foldlM_addAll (f : Bin → List Float) (bs : List Bin) (a : Accumulator) :
    bs.foldlM (fun sum b => sum.addAll (f b)) a = a.addAll (bs.flatMap f) := by
  induction bs generalizing a with
  | nil => rfl
  | cons b bs ih =>
    rw [List.foldlM_cons, List.flatMap_cons, Accumulator.addAll_append]
    exact bind_congr ih

theorem total_ok (d : Distribution) : ∃ a, d.total = .ok a := by
  have hbins := length_le_of_increasing d.sorted.increasing
  have hlen : (d.bins.flatMap fun b => limbs (b.value.toInt * b.count)).length =
      d.bins.length * 3 := by simp [limbs]
  unfold total
  rw [foldlM_addAll]
  exact Accumulator.ofList_ok (hlen.trans_le ((Nat.mul_le_mul_right 3 hbins).trans (by decide)))

theorem mean_ok (d : Distribution) : ∃ m, d.mean = .ok m := by
  obtain ⟨a, ha⟩ := d.total_ok
  refine ⟨a.toFloat / Float.ofNat d.size, ?_⟩
  rw [mean, ha]
  rfl

theorem deviation_ok (d : Distribution) (centre : Float) : ∃ x, d.deviation centre = .ok x := by
  have hlen : (d.squaredDistances centre).length ≤ 2 ^ 77 := by
    rw [squaredDistances, List.length_map]
    exact (length_le_of_increasing d.sorted.increasing).trans (by decide)
  obtain ⟨a, ha⟩ := Accumulator.ofList_ok hlen
  unfold deviation exactSum
  rw [ha]
  split
  · exact ⟨_, rfl⟩
  · exact ⟨_, rfl⟩

/-- A summary can always be made, from the mean and the deviation about it. -/
theorem summary_eq (d : Distribution) : ∃ m x, d.mean = .ok m ∧ d.deviation m = .ok x ∧
    d.summary = .ok {
      mean := m, median := d.median, stdDev := x, min := d.min, max := d.max
      p50 := d.percentiles.p50, p90 := d.percentiles.p90, p95 := d.percentiles.p95
      p99 := d.percentiles.p99, p999 := d.percentiles.p999
      sampleCount := d.size, distinctValues := d.distinct } := by
  obtain ⟨m, hm⟩ := d.mean_ok
  obtain ⟨x, hx⟩ := d.deviation_ok m
  refine ⟨m, x, hm, hx, ?_⟩
  unfold summary
  rw [hm]
  dsimp only [bind, Except.bind]
  rw [hx]
  rfl

theorem summary_ok (d : Distribution) : ∃ s, d.summary = .ok s ∧ s.sampleCount = d.size := by
  obtain ⟨m, x, -, -, hs⟩ := d.summary_eq
  exact ⟨_, hs, rfl⟩

end Distribution
end TimingStats
