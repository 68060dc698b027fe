import TimingStats.Proofs.Recorder.Fates

/-! # Larger tolerances

A larger tolerance has a larger margin over the same samples. Two runs with different tolerances do
not have the same samples flagged, so their bounds do not compare step by step. The rule asks for no
more than the samples of each block, and there a larger tolerance isolates less. -/

namespace TimingStats

namespace OutlierWindow

open Binary64

theorem exactMargin_mono_tolerance (spread : ℕ) {t u : ℚ} (ht : 0 ≤ t) (htu : t ≤ u) :
    exactMargin spread t ≤ exactMargin spread u := by
  have hs : 0 ≤ rounded (spread : ℚ) := rounded_nonneg (Nat.cast_nonneg spread)
  have hprod := mul_le_mul_of_nonneg_left htu hs
  exact Int.ceil_le_ceil (rounded_mono (mul_nonneg hs ht) hprod)

/-- Over the same samples a larger tolerance has a bound that is no lower. -/
theorem toleranceBound_mono_tolerance {lo hi : Int64} (h : lo ≤ hi) {t u : Float}
    (ht : validTolerance t = true) (hu : validTolerance u = true) (htu : t ≤ u) :
    toleranceBound lo hi t ≤ toleranceBound lo hi u := by
  obtain ⟨htf, htn⟩ := finite_of_validTolerance ht
  obtain ⟨huf, -⟩ := finite_of_validTolerance hu
  have hmargin := saturate_mono (exactMargin_mono_tolerance (hi.toInt - lo.toInt).toNat htn
    ((le_iff htf huf).mp htu))
  rw [toleranceBound_eq h ht, toleranceBound_eq h hu, Int64.le_iff_toInt_le]
  exact saturate_mono (by omega)

end OutlierWindow

namespace Offline

open Reference (lowest highest)

variable {t u : Float} {n i : Nat} {stream samples : List Int64}

theorem lowest_le_highest (samples : List Int64) : lowest samples ≤ highest samples := by
  by_cases hne : samples = []
  · subst hne
    decide
  · exact lowest_le hne _ (highest_mem hne)

section Tolerance

variable (ht : OutlierWindow.validTolerance t = true) (hu : OutlierWindow.validTolerance u = true)
  (htu : t ≤ u)
include ht hu htu

theorem Isolated.of_tolerance_le (h : Isolated u samples i) : Isolated t samples i :=
  Int64.lt_of_le_of_lt
    (OutlierWindow.toleranceBound_mono_tolerance (lowest_le_highest _) ht hu htu) h

theorem Dropped.of_tolerance_le (h : Dropped u n stream i) : Dropped t n stream i :=
  fun b hb hcover => (h b hb hcover).of_tolerance_le ht hu htu

theorem Flagged.of_tolerance_le (h : Flagged u n stream i) : Flagged t n stream i :=
  Dropped.of_tolerance_le ht hu htu h

theorem keptPlaces_sublist (n : Nat) (stream : List Int64) :
    (keptPlaces t n stream).Sublist (keptPlaces u n stream) := by
  refine List.monotone_filter_right _ fun i hkept => ?_
  rw [decide_eq_true_eq] at hkept ⊢
  exact mt (Dropped.of_tolerance_le ht hu htu) hkept

end Tolerance
end Offline

namespace Recorder

/-- **A larger tolerance loses nothing more.** Of two runs over one stream, the one with the larger
tolerance flags on arrival and loses only samples that the other one flags and loses, so its
distribution contains that of the other. -/
theorem finished_of_tolerance_le (n : Nat) (t u : Float) (stream : List Int64) (hn : 3 ≤ n)
    (ht : OutlierWindow.validTolerance t = true) (hu : OutlierWindow.validTolerance u = true)
    (htu : t ≤ u) (hlen : n ≤ stream.length) :
    ∃ run run' places places', Finished n t stream run places ∧
      Finished n u stream run' places' ∧
      (∀ i, Flags n u stream i → Flags n t stream i) ∧
      (∀ i, Loses n u stream i → Loses n t stream i) ∧
      (∀ i < stream.length, i ∉ places' → i ∉ places) ∧
      run.distribution.histogram.observations.Subperm
        run'.distribution.histogram.observations := by
  have hn' : 2 ≤ n := Nat.le_of_succ_le hn
  obtain ⟨run, hrun⟩ := finished hn' ht hlen
  obtain ⟨run', hrun'⟩ := finished hn' hu hlen
  have hsub := Offline.keptPlaces_sublist ht hu htu n stream
  refine ⟨run, run', _, _, hrun, hrun', fun i hi => ?_, fun i hi => ?_,
    fun i _ hi => mt (fun hmem => hsub.subset hmem) hi, ?_⟩
  · rw [flags_iff hn' ht hlen]
    exact ((flags_iff hn' hu hlen).mp hi).imp_right (Offline.Flagged.of_tolerance_le ht hu htu)
  · rw [loses_iff hn' ht hlen]
    exact ((loses_iff hn' hu hlen).mp hi).imp_right (Offline.Dropped.of_tolerance_le ht hu htu)
  · exact hrun.observations.subperm.trans
      ((hsub.map _).subperm.trans hrun'.observations.symm.subperm)

/-- A peak is lost with either tolerance, and a lesser one only with the smaller. -/
theorem finished_of_tolerance_le_two_peaks :
    let stream : List Int64 := [10, 11, 15, 11, 11, 12, 100, 12, 12, 11]
    ∃ run run' places places', Finished 3 1 stream run places ∧ Finished 3 4 stream run' places' ∧
      Loses 3 1 stream 6 ∧ Loses 3 4 stream 6 ∧ 2 ∉ places ∧ 2 ∈ places' ∧
      run.distribution.histogram.observations.Subperm
        run'.distribution.histogram.observations := by
  intro stream
  have ht : OutlierWindow.validTolerance 1 = true := by decide +kernel
  have hu : OutlierWindow.validTolerance 4 = true := by decide +kernel
  have hle : (1 : Float) ≤ 4 := by decide +kernel
  obtain ⟨run, run', places, places', hrun, hrun', -, hloses, -, hsub⟩ :=
    finished_of_tolerance_le 3 1 4 stream (by decide) ht hu hle (by decide)
  have hpeak : Loses 3 4 stream 6 :=
    (loses_iff (by decide) hu (by decide)).mpr (by decide +kernel)
  have hlesser : Loses 3 1 stream 2 :=
    (loses_iff (by decide) ht (by decide)).mpr (by decide +kernel)
  have hspared : ¬ Loses 3 4 stream 2 :=
    mt (loses_iff (by decide) hu (by decide)).mp (by decide +kernel)
  exact ⟨run, run', places, places', hrun, hrun', hloses 6 hpeak, hpeak,
    fun hmem => ((hrun.mem 2).mp hmem).2 hlesser, (hrun'.mem 2).mpr ⟨by decide, hspared⟩, hsub⟩

end Recorder
end TimingStats
