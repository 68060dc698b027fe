import TimingStats.Proofs.OutlierWindow.Meeting

/-! # The first full window

The statistics of the first window come from two scans. Its greatest sample is flagged exactly if
it is above the bound of the others, which no other sample can be. -/

namespace TimingStats.OutlierWindow

variable {w : OutlierWindow} {samples : List Int64} {t : Float}

/-- What occurs once does not occur among the other samples. -/
theorem filter_ne_perm_eraseIdx {m : Int64} {i : Nat} (hi : samples[i]? = some m)
    (hcount : samples.count m = 1) : (samples.filter (· ≠ m)).Perm (samples.eraseIdx i) := by
  obtain ⟨hlt, rfl⟩ := List.getElem?_eq_some_iff.mp hi
  have hperm := List.getElem_cons_eraseIdx_perm hlt
  have hnot : samples[i] ∉ samples.eraseIdx i := by
    rw [← hperm.count_eq, List.count_cons_self] at hcount
    exact List.count_eq_zero.mp (by omega)
  have hkept : (samples.eraseIdx i).filter (· ≠ samples[i]) = samples.eraseIdx i := by
    rw [List.filter_eq_self]
    exact fun y hy => by simpa using fun he : y = samples[i] => hnot (he ▸ hy)
  have hfilter := hperm.symm.filter (· ≠ samples[i])
  rw [List.filter_cons, if_neg (by simp), hkept] at hfilter
  exact hfilter

theorem judgeAll_spec (ht : validTolerance w.tolerance = true)
    (hmin : w.samples.min? = some w.min) (hcount : w.minCount = w.samples.count w.min) :
    UpToDate (withNormal { w with max := (topTwo w.samples).max.value, flagged := none }
      (topTwo w.samples).max) := by
  have hne : w.samples ≠ [] := fun h => by simp [h] at hmin
  have hs := (topTwo_of w.samples).max
  have hmax := hs.max? hne
  exact
    { tolerance := ht
      min := hmin
      minCount := hcount
      maxNormal := hmax
      maxNormalCount := hs.count
      min_le := (List.min?_eq_some_iff.mp hmin).2 _ (List.max?_eq_some_iff.mp hmax).1
      max := rfl
      upperTolerance := rfl
      beyond := by simp [outlier, withNormal, rebound] }

theorem judgeOthers_spec (ht : validTolerance w.tolerance = true)
    (hmin : w.samples.min? = some w.min) (hcount : w.minCount = w.samples.count w.min)
    (hmany : 2 ≤ w.samples.length) (hone : (topTwo w.samples).max.count = 1) :
    let s := topTwo w.samples
    let others := withNormal { w with max := s.max.value, flagged := none } s.second
    Tallied others w.samples (w.samples.eraseIdx s.place) (some s.max.value) := by
  have hs := topTwo_of w.samples
  have hplace := hs.place (by omega)
  have hsecond := hs.second.perm (filter_ne_perm_eraseIdx hplace (hs.max.count ▸ hone))
  have hlen := List.le_length_eraseIdx w.samples (topTwo w.samples).place
  have hmax := hsecond.max? (List.ne_nil_of_length_pos (by omega))
  have hmem := List.eraseIdx_subset (List.max?_eq_some_iff.mp hmax).1
  exact
    { tolerance := ht
      min := hmin
      minCount := hcount
      maxNormal := hmax
      maxNormalCount := hsecond.count
      min_le := (List.min?_eq_some_iff.mp hmin).2 _ hmem
      max := rfl
      upperTolerance := rfl }

/-- A sample above all others is the one that the scan finds, and sets apart from them. -/
theorem topTwo_of_greatest {i : Nat} (hi : i < samples.length) {m : Int64}
    (hmax : (samples.eraseIdx i).max? = some m) (hlt : m < samples[i]) :
    (topTwo samples).max.value = samples[i] ∧ (topTwo samples).max.count = 1 ∧
      (topTwo samples).place = i ∧ (topTwo samples).second.value = m := by
  have hs := topTwo_of samples
  have hperm := List.getElem_cons_eraseIdx_perm hi
  obtain ⟨hgreatest, hone⟩ := max?_cons_of_lt hmax hlt
  have hne : samples ≠ [] := List.ne_nil_of_length_pos (by omega)
  have hvalue : (topTwo samples).max.value = samples[i] :=
    Option.some_inj.mp ((hs.max.max? hne).symm.trans (max?_perm hperm hgreatest))
  have hcount : (topTwo samples).max.count = 1 := by
    rw [hs.max.count, hvalue, ← hperm.count_eq, hone]
  have hplace := hs.place (by omega)
  have heq : (topTwo samples).place = i := by
    by_contra hne
    have hmem : samples[i] ∈ samples.eraseIdx i := by
      rw [List.mem_eraseIdx_iff_getElem?]
      exact ⟨_, hne, hvalue ▸ hplace⟩
    have := (List.max?_eq_some_iff.mp hmax).2 _ hmem
    grind
  refine ⟨hvalue, hcount, heq, ?_⟩
  have hsecond := hs.second.perm (filter_ne_perm_eraseIdx hplace (hs.max.count ▸ hcount))
  rw [heq] at hsecond
  have hne : samples.eraseIdx i ≠ [] := fun h => by simp [h] at hmax
  exact Option.some_inj.mp ((hsecond.max? hne).symm.trans hmax)

/-- The first window is judged by the bound of each sample's peers. -/
theorem judgeMax_spec (ht : validTolerance w.tolerance = true)
    (hmin : w.samples.min? = some w.min) (hcount : w.minCount = w.samples.count w.min)
    (hmany : 2 ≤ w.samples.length) :
    SameRing w w.judgeMax ∧ w.judgeMax.min = w.min ∧ UpToDate w.judgeMax ∧
      (∀ i ∈ w.judgeMax.flagged, i < w.samples.length) ∧
      ∀ i (hi : i < w.samples.length) m, (w.samples.eraseIdx i).max? = some m →
        toleranceBound w.min m w.tolerance < w.samples[i] → w.judgeMax.flagged = some i := by
  have hs := topTwo_of w.samples
  have hall := judgeAll_spec ht hmin hcount
  have hisolated : ∀ i (hi : i < w.samples.length) m, (w.samples.eraseIdx i).max? = some m →
      toleranceBound w.min m w.tolerance < w.samples[i] →
      (topTwo w.samples).max.count = 1 ∧ (topTwo w.samples).place = i ∧
        toleranceBound w.min (topTwo w.samples).second.value w.tolerance <
          (topTwo w.samples).max.value := by
    intro i hi m hm hx
    have hmem := List.eraseIdx_subset (List.max?_eq_some_iff.mp hm).1
    have hle := le_toleranceBound ((List.min?_eq_some_iff.mp hmin).2 _ hmem) ht
    obtain ⟨hv, hc, hp, h2⟩ := topTwo_of_greatest hi hm (by grind)
    exact ⟨hc, hp, by rw [hv, h2]; exact hx⟩
  unfold judgeMax
  dsimp only
  by_cases hone : (topTwo w.samples).max.count = 1
  · have hplace := hs.place (by omega)
    obtain ⟨hp, hv⟩ := List.getElem?_eq_some_iff.mp hplace
    have hothers := judgeOthers_spec ht hmin hcount hmany hone
    rw [if_pos hone]
    by_cases hlt : toleranceBound w.min (topTwo w.samples).second.value w.tolerance <
        (topTwo w.samples).max.value
    · rw [if_pos (by exact hlt)]
      refine ⟨⟨rfl, rfl, rfl⟩, rfl, ?_, fun i hi => Option.some_inj.mp hi ▸ hp, ?_⟩
      · have he : Exact _ _ _ _ := ⟨hothers, fun o ho => Option.some_inj.mp ho ▸ hlt⟩
        have hout : (some (topTwo w.samples).place).map (fun i => w.samples.getD i 0) =
            some (topTwo w.samples).max.value := by simp [hplace]
        rw [← hout] at he
        exact he.set_ring w.samples w.oldest (some (topTwo w.samples).place)
      · exact fun i hi m hm hx => congrArg some (hisolated i hi m hm hx).2.1
    · rw [if_neg (by exact hlt)]
      exact ⟨⟨rfl, rfl, rfl⟩, rfl, hall, by rintro i ⟨⟩,
        fun i hi m hm hx => absurd (hisolated i hi m hm hx).2.2 hlt⟩
  · rw [if_neg hone]
    exact ⟨⟨rfl, rfl, rfl⟩, rfl, hall, by rintro i ⟨⟩,
      fun i hi m hm hx => absurd (hisolated i hi m hm hx).1 hone⟩

end TimingStats.OutlierWindow
