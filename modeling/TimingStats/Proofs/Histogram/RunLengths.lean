import Mathlib.Data.List.Dedup
import Mathlib.Data.List.Sort
import TimingStats.Histogram

/-! # Bins as run lengths

The bins of a histogram are determined by its observations: the distinct values in increasing
order, each with the number of times that it occurs. An insertion adds one observation. -/

namespace TimingStats

/-- The distinct values of a list in increasing order, each with the number of its occurrences. -/
def runLengths (xs : List Int64) : List Bin :=
  (xs.dedup.insertionSort (· ≤ ·)).map fun v => ⟨v, xs.count v⟩

/-- Two sorted lists of the same values are equal. -/
theorem eq_of_perm_of_le {xs ys : List Int64} (h : xs.Perm ys) (hx : xs.Pairwise (· ≤ ·))
    (hy : ys.Pairwise (· ≤ ·)) : xs = ys :=
  h.eq_of_pairwise (fun _ _ _ _ hab hba => Int64.le_antisymm hab hba) hx hy

theorem runLengths_perm {xs ys : List Int64} (h : xs.Perm ys) : runLengths xs = runLengths ys := by
  have hsort : xs.dedup.insertionSort (· ≤ ·) = ys.dedup.insertionSort (· ≤ ·) := by
    refine eq_of_perm_of_le ?_ (List.pairwise_insertionSort _ _) (List.pairwise_insertionSort _ _)
    exact ((List.perm_insertionSort _ _).trans h.dedup).trans (List.perm_insertionSort _ _).symm
  unfold runLengths
  rw [hsort]
  exact List.map_congr_left fun v _ => by rw [h.count_eq]

namespace Histogram

/-- The observations that some bins stand for. -/
def observed (bs : List Bin) : List Int64 := bs.flatMap fun b => List.replicate b.count b.value

theorem mem_observed {bs : List Bin} (hpos : ∀ b ∈ bs, 0 < b.count) {v : Int64} :
    v ∈ observed bs ↔ v ∈ bs.map Bin.value := by
  unfold observed
  rw [List.mem_flatMap, List.mem_map]
  constructor
  · rintro ⟨b, hb, hv⟩
    exact ⟨b, hb, (List.eq_of_mem_replicate hv).symm⟩
  · rintro ⟨b, hb, rfl⟩
    exact ⟨b, hb, List.mem_replicate.mpr ⟨Nat.ne_of_gt (hpos b hb), rfl⟩⟩

theorem count_observed {bs : List Bin} (hinc : bs.Pairwise fun a b => a.value < b.value) :
    ∀ b ∈ bs, (observed bs).count b.value = b.count := by
  induction bs with
  | nil => simp
  | cons c cs ih =>
    obtain ⟨hc, hcs⟩ := List.pairwise_cons.mp hinc
    have hsplit : observed (c :: cs) = List.replicate c.count c.value ++ observed cs := rfl
    intro b hb
    rw [hsplit, List.count_append]
    rcases List.mem_cons.mp hb with rfl | hb
    · have hnot : b.value ∉ observed cs := by
        intro hmem
        obtain ⟨d, hd, hv⟩ := List.mem_flatMap.mp hmem
        have := hc d hd
        rw [List.eq_of_mem_replicate hv] at this
        exact Int64.lt_irrefl this
      rw [List.count_replicate_self, List.count_eq_zero.mpr hnot, Nat.add_zero]
    · have hne : c.value ≠ b.value := Int64.ne_of_lt (hc b hb)
      rw [List.count_replicate, if_neg (by simpa using hne), Nat.zero_add, ih hcs b hb]

theorem observed_insertBin_perm (v : Int64) (bs : List Bin) :
    (observed (insertBin v bs)).Perm (v :: observed bs) := by
  induction bs with
  | nil => exact .refl _
  | cons b bs ih =>
    unfold insertBin
    split
    · exact .refl _
    · split
      · rename_i heq
        subst heq
        exact .refl _
      · refine (ih.append_left _).trans ?_
        exact List.perm_middle

theorem observations_insert_perm (h : Histogram) (v : Int64) :
    (h.insert v).observations.Perm (v :: h.observations) := observed_insertBin_perm v h.bins

/-- The bins of a histogram are the run lengths of its observations. -/
theorem bins_eq_runLengths (h : Histogram) : h.bins = runLengths h.observations := by
  have hvalues : (h.bins.map Bin.value).Pairwise (· < ·) :=
    List.pairwise_map.mpr h.increasing
  have hperm : (h.bins.map Bin.value).Perm
      (h.observations.dedup.insertionSort (· ≤ ·)) := by
    refine List.Perm.trans ?_ (List.perm_insertionSort _ _).symm
    rw [List.perm_ext_iff_of_nodup (hvalues.imp fun hlt => Int64.ne_of_lt hlt)
      (List.nodup_dedup _)]
    intro v
    rw [List.mem_dedup]
    exact (mem_observed h.positive).symm
  have hsorted := eq_of_perm_of_le hperm (hvalues.imp fun hlt => Int64.le_of_lt hlt)
    (List.pairwise_insertionSort _ _)
  unfold runLengths
  rw [← hsorted, List.map_map]
  refine (List.map_id _).symm.trans (List.map_congr_left fun b hb => ?_)
  have hcount : h.observations.count b.value = b.count := count_observed h.increasing b hb
  rw [Function.comp_apply, hcount]
  rfl

end Histogram
end TimingStats
