import TimingStats.Proofs.OutlierWindow.Meeting

/-! # Replacing the oldest sample

The new sample takes the place of the oldest once it has been met. If that one was flagged, the
unflagged samples are all that remain; otherwise it is taken out of the counts, and a statistic
whose last occurrence it was is scanned for. -/

namespace TimingStats

variable {xs : List Int64} {m x : Int64}

theorem min?_of_cons (h : (x :: xs).min? = some m) (hpos : 0 < xs.count m) :
    xs.min? = some m := by
  rw [List.min?_eq_some_iff] at h ⊢
  exact ⟨List.count_pos_iff.mp hpos, fun y hy => h.2 y (List.mem_cons_of_mem x hy)⟩

theorem max?_of_cons (h : (x :: xs).max? = some m) (hpos : 0 < xs.count m) :
    xs.max? = some m := by
  rw [List.max?_eq_some_iff] at h ⊢
  exact ⟨List.count_pos_iff.mp hpos, fun y hy => h.2 y (List.mem_cons_of_mem x hy)⟩

namespace OutlierWindow

variable {w : OutlierWindow} {all normal : List Int64} {out : Option Int64}

/-! ## Losing the oldest sample -/

theorem countDown_spec {lost v : Int64} {count : Nat} {xs : List Int64}
    (h : count = (lost :: xs).count v) : countDown count (lost = v) = .ok (xs.count v) := by
  unfold countDown
  rw [h]
  by_cases heq : lost = v
  · rw [heq, List.count_cons_self, decide_eq_true rfl]
    rfl
  · rw [decide_eq_false heq, List.count_cons_of_ne heq]
    rfl

/-- With fewer samples the bound does not rise, so the outlier stays above it. -/
theorem Exact.shrink {w' : OutlierWindow} {all' normal' : List Int64}
    (h : Exact w all normal out) (h' : Tallied w' all' normal' out)
    (ht : w'.tolerance = w.tolerance) (hall : all' ⊆ all) (hnormal : normal' ⊆ normal) :
    Exact w' all' normal' out := by
  have hlow : w.min ≤ w'.min :=
    (List.min?_eq_some_iff.mp h.min).2 _ (hall (List.min?_eq_some_iff.mp h'.min).1)
  have hhigh : w'.maxNormal ≤ w.maxNormal :=
    h.le_maxNormal _ (hnormal (List.max?_eq_some_iff.mp h'.maxNormal).1)
  refine ⟨h', fun o ho => ?_⟩
  have hmono := toleranceBound_mono hlow h'.min_le hhigh h.tolerance
  rw [← h.upperTolerance, ← ht, ← h'.upperTolerance] at hmono
  grind [h.beyond o ho]

theorem normals_sublist (samples : List Int64) (flagged : Option Nat) :
    (normals samples flagged).Sublist samples := by
  cases flagged with
  | none => exact .refl _
  | some i => exact List.eraseIdx_sublist samples i

theorem min_le_max_of_subset {xs ys : List Int64} {a b : Int64} (hmin : xs.min? = some a)
    (hmax : ys.max? = some b) (h : ys ⊆ xs) : a ≤ b :=
  (List.min?_eq_some_iff.mp hmin).2 b (h (List.max?_eq_some_iff.mp hmax).1)

theorem min?_least {xs : List Int64} (h : xs ≠ []) : xs.min? = some (least xs) := by
  obtain ⟨m, hm⟩ := Option.ne_none_iff_exists'.mp (mt List.min?_eq_none_iff.mp h)
  rw [hm, least_eq hm]

/-- Counts and extremes of the remaining samples bring the window up to date. -/
theorem Exact.upToDate_of_loss {lost : Int64} {w' : OutlierWindow}
    (h : Exact w (lost :: w.samples) (lost :: normals w.samples w.flagged) w.outlier)
    (hsame : SameRing w w') (hflag : w'.flagged = w.flagged)
    (hmin : w.samples.min? = some w'.min) (hminCount : w'.minCount = w.samples.count w'.min)
    (hmax : (normals w.samples w.flagged).max? = some w'.maxNormal)
    (hmaxCount : w'.maxNormalCount = (normals w.samples w.flagged).count w'.maxNormal)
    (hout : w'.max = w.outlier.getD w'.maxNormal)
    (hbound : w'.upperTolerance = toleranceBound w'.min w'.maxNormal w'.tolerance) :
    UpToDate w' := by
  have hsub := (normals_sublist w.samples w.flagged).subset
  have ht : Tallied w' w.samples (normals w.samples w.flagged) w.outlier :=
    { tolerance := hsame.tolerance ▸ h.tolerance
      min := hmin
      minCount := hminCount
      maxNormal := hmax
      maxNormalCount := hmaxCount
      min_le := min_le_max_of_subset hmin hmax hsub
      max := hout
      upperTolerance := hbound }
  unfold UpToDate outlier
  rw [hsame.samples, hflag]
  exact h.shrink ht hsame.tolerance (List.subset_cons_self ..) (List.subset_cons_self ..)

/-- The statistics are those of the remaining samples, whichever of them had to be scanned for. -/
theorem afterLoss_spec {lost : Int64}
    (h : Exact w (lost :: w.samples) (lost :: normals w.samples w.flagged) w.outlier)
    (hne : normals w.samples w.flagged ≠ []) :
    ∃ w', w.afterLoss lost = .ok w' ∧ SameRing w w' ∧ w'.flagged = w.flagged ∧ UpToDate w' := by
  have hne' : w.samples ≠ [] := fun he =>
    hne (List.subset_nil.mp (he ▸ (normals_sublist w.samples w.flagged).subset))
  have hmin_kept : 0 < w.samples.count w.min → w.samples.min? = some w.min :=
    min?_of_cons h.min
  have hmin_gone := min?_least hne'
  have hmax_kept : 0 < (normals w.samples w.flagged).count w.maxNormal →
      (normals w.samples w.flagged).max? = some w.maxNormal := max?_of_cons h.maxNormal
  have hscan := tallyMax_of (normals w.samples w.flagged)
  have hmax_gone := hscan.max? hne
  unfold afterLoss
  rw [countDown_spec h.minCount, countDown_spec h.maxNormalCount]
  by_cases hm : w.samples.count w.min = 0 <;>
    by_cases hn : (normals w.samples w.flagged).count w.maxNormal = 0
  · refine ⟨{ w with minCount := 0, maxNormalCount := 0 }.rescanMin.rescanMax, ?_,
      ⟨rfl, rfl, rfl⟩, rfl, ?_⟩
    · rw [hm, hn]
      rfl
    · exact h.upToDate_of_loss ⟨rfl, rfl, rfl⟩ rfl hmin_gone rfl hmax_gone hscan.count rfl rfl
  · have hmax := hmax_kept (Nat.pos_of_ne_zero hn)
    refine ⟨{ w with
      minCount := 0
      maxNormalCount := (normals w.samples w.flagged).count w.maxNormal }.rescanMin.rebound, ?_,
      ⟨rfl, rfl, rfl⟩, rfl, ?_⟩
    · simp [hm, hn, bind, Except.bind, pure, Except.pure]
    · exact h.upToDate_of_loss ⟨rfl, rfl, rfl⟩ rfl hmin_gone rfl hmax rfl h.max rfl
  · have hmin := hmin_kept (Nat.pos_of_ne_zero hm)
    refine ⟨{ w with minCount := w.samples.count w.min, maxNormalCount := 0 }.rescanMax, ?_,
      ⟨rfl, rfl, rfl⟩, rfl, ?_⟩
    · simp [hm, hn, bind, Except.bind, pure, Except.pure]
    · exact h.upToDate_of_loss ⟨rfl, rfl, rfl⟩ rfl hmin rfl hmax_gone hscan.count rfl rfl
  · have hmin := hmin_kept (Nat.pos_of_ne_zero hm)
    have hmax := hmax_kept (Nat.pos_of_ne_zero hn)
    refine ⟨{ w with
      minCount := w.samples.count w.min
      maxNormalCount := (normals w.samples w.flagged).count w.maxNormal }, ?_,
      ⟨rfl, rfl, rfl⟩, rfl, ?_⟩
    · simp [hm, hn, bind, Except.bind, pure, Except.pure]
    · exact h.upToDate_of_loss ⟨rfl, rfl, rfl⟩ rfl hmin rfl hmax rfl h.max h.upperTolerance

/-! ## The place of the oldest -/

theorem getD_cons_set_perm {samples : List Int64} {slot : Nat} (hslot : slot < samples.length)
    (x : Int64) : (samples.getD slot 0 :: samples.set slot x).Perm (x :: samples) := by
  have hget : samples.getD slot 0 = samples[slot] := by simp [hslot]
  have hset : (samples.set slot x).Perm (x :: samples.eraseIdx slot) :=
    List.set_perm_cons_eraseIdx hslot x
  rw [hget]
  exact (hset.cons _).trans
    ((List.Perm.swap ..).trans ((List.getElem_cons_eraseIdx_perm hslot).cons x))

/-- The same of the unflagged samples, if it is one of them that leaves. -/
theorem getD_cons_normals_perm {samples : List Int64} {flagged : Option Nat} {slot : Nat}
    (hslot : slot < samples.length) (hlt : ∀ i ∈ flagged, i < samples.length)
    (hne : flagged ≠ some slot) (x : Int64) :
    (samples.getD slot 0 :: normals (samples.set slot x) flagged).Perm
      (x :: normals samples flagged) := by
  have hall := getD_cons_set_perm hslot x
  cases flagged with
  | none => exact hall
  | some i =>
    have hi := hlt i rfl
    have hslot_ne : slot ≠ i := fun h => hne (h ▸ rfl)
    have hi' : i < (samples.set slot x).length := by simpa using hi
    have hsame : (samples.set slot x)[i] = samples[i] := List.getElem_set_ne hslot_ne hi'
    have hleft := List.getElem_cons_eraseIdx_perm hi'
    have hright := List.getElem_cons_eraseIdx_perm hi
    rw [hsame] at hleft
    -- put the flagged sample in front on both sides
    refine List.Perm.cons_inv (a := samples[i]) ?_
    exact (List.Perm.swap ..).trans ((hleft.cons _).trans
      (hall.trans ((hright.symm.cons x).trans (.swap ..))))

theorem normals_ne_nil {samples : List Int64} (hmany : 2 ≤ samples.length) (flagged : Option Nat) :
    normals samples flagged ≠ [] := by
  intro hnil
  have hlen := congrArg List.length hnil
  cases flagged with
  | none =>
    simp only [normals, List.length_nil] at hlen
    omega
  | some i =>
    have := List.le_length_eraseIdx samples i
    simp only [normals, List.length_nil] at hlen
    omega

theorem outlier_set {w : OutlierWindow} (hne : w.flagged ≠ some w.oldest) (x : Int64) :
    { w with samples := w.samples.set w.oldest x }.outlier = w.outlier := by
  unfold outlier
  cases hf : w.flagged with
  | none => rfl
  | some i =>
    have hi : w.oldest ≠ i := fun h => hne (h ▸ hf)
    simp [List.getD_eq_getElem?_getD, List.getElem?_set_ne hi]

/-- The outlier is never the minimum, so only the greatest sample changes when it leaves. -/
theorem Exact.upToDate_of_lost_outlier
    (h : Exact w (x :: w.samples) (x :: normals w.samples w.flagged) w.outlier)
    (hold : w.oldest < w.samples.length) (hlost : w.flagged = some w.oldest) (oldest : Nat) :
    UpToDate { w with
      samples := w.samples.set w.oldest x, oldest, flagged := none, max := w.maxNormal } := by
  have hnormal : (x :: normals w.samples w.flagged).Perm (w.samples.set w.oldest x) := by
    rw [hlost]
    exact (List.set_perm_cons_eraseIdx hold x).symm
  have ho : w.outlier = some (w.samples.getD w.oldest 0) := by simp [outlier, hlost]
  have hlow : w.min ≠ w.samples.getD w.oldest 0 := by
    have := h.maxNormal_lt _ ho
    have := h.min_le
    grind
  have h' := h.perm (getD_cons_set_perm hold x).symm hnormal
  have hcount := h'.minCount
  rw [List.count_cons_of_ne hlow.symm] at hcount
  have hmem := (List.mem_cons.mp (List.min?_eq_some_iff.mp h'.min).1).resolve_left hlow
  exact
    { tolerance := h.tolerance
      min := min?_of_cons h'.min (List.count_pos_iff.mpr hmem)
      minCount := hcount
      maxNormal := h'.maxNormal
      maxNormalCount := h'.maxNormalCount
      min_le := h.min_le
      max := rfl
      upperTolerance := h.upperTolerance
      beyond := by simp [outlier] }

/-- What is left of a window when its oldest sample has been replaced. -/
theorem replaceOldest_spec {isOutlier : Bool}
    (h : Exact w (x :: w.samples)
      ((if isOutlier then [] else [x]) ++ normals w.samples w.flagged)
      (if isOutlier then some x else w.outlier))
    (hmany : 2 ≤ w.samples.length) (hold : w.oldest < w.samples.length)
    (hlt : ∀ i ∈ w.flagged, i < w.samples.length) (hout : isOutlier = true → w.flagged = none) :
    ∃ w', w.replaceOldest x isOutlier = .ok w' ∧
      w'.samples = w.samples.set w.oldest x ∧
      w'.oldest = (w.oldest + 1) % w.samples.length ∧
      w'.tolerance = w.tolerance ∧
      w'.flagged = (if isOutlier then some w.oldest
        else if w.flagged = some w.oldest then none else w.flagged) ∧
      UpToDate w' := by
  have hall := getD_cons_set_perm hold x
  have hmany' : 2 ≤ (w.samples.set w.oldest x).length := by simpa using hmany
  unfold replaceOldest
  dsimp only
  cases isOutlier with
  | true =>
    have hnone := hout rfl
    have hget : w.samples.getD w.oldest 0 = w.samples[w.oldest] := by simp [hold]
    have hnormal : w.samples.Perm (w.samples.getD w.oldest 0 ::
        normals (w.samples.set w.oldest x) (some w.oldest)) := by
      rw [normals, List.eraseIdx_set_eq, hget]
      exact (List.getElem_cons_eraseIdx_perm hold).symm
    rw [hnone] at h ⊢
    have hnext := (h.perm hall.symm hnormal).set_ring (w.samples.set w.oldest x)
      ((w.oldest + 1) % w.samples.length) (some w.oldest)
    have hout : some ((w.samples.set w.oldest x).getD w.oldest 0) = some x := by simp [hold]
    rw [if_pos rfl, ← hout] at hnext
    obtain ⟨w', hok, hsame, hf, he⟩ := afterLoss_spec hnext (normals_ne_nil hmany' _)
    exact ⟨w', hok, hsame.samples, hsame.oldest, hsame.tolerance, hf, he⟩
  | false =>
    by_cases hlost : w.flagged = some w.oldest
    · rw [beq_iff_eq.mpr hlost, if_pos hlost]
      exact ⟨_, rfl, rfl, rfl, rfl, rfl, h.upToDate_of_lost_outlier hold hlost _⟩
    · have hnext := (h.perm hall.symm (getD_cons_normals_perm hold hlt hlost x).symm).set_ring
        (w.samples.set w.oldest x) ((w.oldest + 1) % w.samples.length) w.flagged
      have hout : outlier { w with
          samples := w.samples.set w.oldest x
          oldest := (w.oldest + 1) % w.samples.length
          flagged := w.flagged } = w.outlier := outlier_set hlost x
      rw [if_neg (by simp), ← hout] at hnext
      rw [beq_eq_false_iff_ne.mpr hlost, if_neg hlost]
      obtain ⟨w', hok, hsame, hf, he⟩ := afterLoss_spec hnext (normals_ne_nil hmany' _)
      exact ⟨w', hok, hsame.samples, hsame.oldest, hsame.tolerance, hf, he⟩

end OutlierWindow
end TimingStats
