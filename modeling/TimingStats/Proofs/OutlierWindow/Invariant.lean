import TimingStats.Proofs.OutlierWindow.Replacement
import TimingStats.Proofs.OutlierWindow.Seeding

/-! # The invariant of the window

A window is sound if its statistics are those of its own samples and its two indices are in range.
Opening a window makes it sound, a step keeps it so, and neither meets a fault. -/

namespace TimingStats.OutlierWindow

variable {w : OutlierWindow} {x : Int64}

structure Sound (w : OutlierWindow) : Prop where
  many : 2 ≤ w.samples.length
  oldest_lt : w.oldest < w.samples.length
  flagged_lt : ∀ i ∈ w.flagged, i < w.samples.length
  upToDate : UpToDate w

theorem ofSamples_spec {seed : List Int64} {t : Float} (hmany : 2 ≤ seed.length)
    (ht : validTolerance t = true) :
    ∃ w, ofSamples seed t = .ok w ∧ Sound w ∧ w.samples = seed ∧ w.oldest = 0 ∧
      w.tolerance = t ∧
      ∀ i (hi : i < seed.length) m, (seed.eraseIdx i).max? = some m →
        toleranceBound w.min m t < seed[i] → w.flagged = some i := by
  have hne : seed ≠ [] := List.ne_nil_of_length_pos (by omega)
  unfold ofSamples
  rw [if_pos ht]
  obtain ⟨hsame, hmin, hup, hlt, hflag⟩ := judgeMax_spec
    (w := rescanMin {
      samples := seed, oldest := 0, min := 0, minCount := 0, maxNormal := 0, maxNormalCount := 0
      max := 0, upperTolerance := 0, flagged := none, tolerance := t })
    ht (min?_least hne) rfl hmany
  refine ⟨_, rfl, ⟨?_, ?_, ?_, hup⟩, hsame.samples, hsame.oldest, hsame.tolerance, ?_⟩
  · rw [hsame.samples]
    exact hmany
  · rw [hsame.samples, hsame.oldest]
    exact Nat.lt_of_lt_of_le Nat.zero_lt_two hmany
  · rw [hsame.samples]
    exact hlt
  · rw [hmin]
    exact hflag

/-- An outlier that has been cleared is one of the unflagged samples. -/
theorem reached_append_normals_perm (hlt : ∀ i ∈ w.flagged, i < w.samples.length)
    (bound : Int64) {w' : OutlierWindow} (hsame : SameRing w w')
    (hf : w'.flagged = if (reached bound w.outlier).isSome then none else w.flagged) :
    ((reached bound w.outlier).toList ++ normals w.samples w.flagged).Perm
        (normals w'.samples w'.flagged) ∧
      unreached bound w.outlier = w'.outlier := by
  unfold outlier at hf ⊢
  rw [hf, hsame.samples]
  cases hi : w.flagged with
  | none => exact ⟨.refl _, rfl⟩
  | some i =>
    have hilt := hlt i hi
    have hget : w.samples.getD i 0 = w.samples[i] := by simp [hilt]
    rw [Option.map_some, hget]
    by_cases hle : w.samples[i] ≤ bound
    · rw [reached_of_le hle, unreached_of_le hle]
      exact ⟨List.getElem_cons_eraseIdx_perm hilt, rfl⟩
    · have hgt := Int64.not_le.mp hle
      rw [reached_of_lt hgt, unreached_of_lt hgt]
      exact ⟨.refl _, congrArg some hget.symm⟩

/-- What a step does: the verdict follows from the statistics before it, and the window afterwards
is sound again. -/
theorem apply_spec (h : Sound w) (x : Int64) :
    let cleared := reached
      (toleranceBound (Min.min w.min x) (Max.max w.maxNormal x) w.tolerance) w.outlier
    let isOutlier := decide (toleranceBound w.min w.max w.tolerance < x)
    ∃ w', w.apply x = .ok (w', .of isOutlier cleared) ∧ Sound w' ∧
      w'.samples = w.samples.set w.oldest x ∧ w'.oldest = (w.oldest + 1) % w.samples.length ∧
      w'.tolerance = w.tolerance ∧
      w'.flagged = (if isOutlier then some w.oldest
        else if cleared.isSome ∨ w.flagged = some w.oldest then none else w.flagged) := by
  have hup := h.upToDate
  have hflag : w.flagged.isSome = w.outlier.isSome := by simp [outlier]
  obtain ⟨w1, w2, v, hok1, hok2, hsame, hf, he⟩ := meet_spec hup hflag x
  obtain ⟨hperm, hout⟩ := reached_append_normals_perm h.flagged_lt _ hsame hf
  dsimp only
  generalize hbound : toleranceBound (Min.min w.min x) (Max.max w.maxNormal x) w.tolerance = bound
    at *
  generalize hisOutlier : decide (toleranceBound w.min w.max w.tolerance < x) = isOutlier at *
  have hnone : isOutlier = true → w2.flagged = none := by
    intro hb
    have hx : toleranceBound w.min w.max w.tolerance < x := by simpa [hb] using hisOutlier
    rw [hf, ← hbound, hup.reached_of_isOutlier hx, lost_flag hflag]
  have hlt : ∀ i ∈ w2.flagged, i < w2.samples.length := by
    intro i hi
    rw [hf] at hi
    rw [hsame.samples]
    split at hi
    · cases hi
    · exact h.flagged_lt i hi
  have hmeet : Exact w2 (x :: w2.samples)
      ((if isOutlier then [] else [x]) ++ normals w2.samples w2.flagged)
      (if isOutlier then some x else w2.outlier) := by
    rw [← hout, hsame.samples]
    rw [hsame.samples] at hperm
    exact he.perm (.refl _) (hperm.append_left _)
  have hmany : 2 ≤ w2.samples.length := hsame.samples ▸ h.many
  have hold : w2.oldest < w2.samples.length := by
    rw [hsame.samples, hsame.oldest]
    exact h.oldest_lt
  obtain ⟨w3, hok3, hs3, ho3, ht3, hf3, hup3⟩ := replaceOldest_spec hmeet hmany hold hlt hnone
  rw [hsame.samples, hsame.oldest] at hs3 ho3
  rw [hsame.oldest] at hf3
  have hlen : w3.samples.length = w.samples.length := by rw [hs3, List.length_set]
  refine ⟨w3, ?_, ⟨?_, ?_, ?_, hup3⟩, hs3, ho3, ht3.trans hsame.tolerance, ?_⟩
  · unfold apply
    rw [hok1]
    dsimp only [bind, Except.bind]
    rw [hok2]
    dsimp only
    rw [show (Verdict.of isOutlier (reached bound w.outlier)).isOutlier = isOutlier from rfl, hok3]
    rfl
  · rw [hlen]
    exact h.many
  · rw [ho3, hlen]
    exact Nat.mod_lt _ (Nat.lt_of_lt_of_le Nat.zero_lt_two h.many)
  · intro i hi
    rw [hf3] at hi
    rw [hlen, ← hsame.samples]
    split at hi
    · rw [← Option.some_inj.mp hi, ← hsame.oldest]
      exact hold
    · split at hi
      · cases hi
      · exact hlt i hi
  · rw [hf3, hf]
    cases reached bound w.outlier <;> simp

/-! ## Runs -/

def applyEach (w : OutlierWindow) : List Int64 → Except Fault (List Verdict × OutlierWindow)
  | [] => .ok ([], w)
  | x :: xs => do
    let (w, v) ← w.apply x
    let (vs, w) ← w.applyEach xs
    return (v :: vs, w)

def recent (w : OutlierWindow) : List Int64 := w.samples.drop w.oldest ++ w.samples.take w.oldest

theorem recent_replaced {w w' : OutlierWindow} (hold : w.oldest < w.samples.length)
    (hs : w'.samples = w.samples.set w.oldest x)
    (ho : w'.oldest = (w.oldest + 1) % w.samples.length) :
    w'.recent = w.recent.drop 1 ++ [x] := by
  have hdrop : w.samples.drop w.oldest = w.samples[w.oldest] :: w.samples.drop (w.oldest + 1) :=
    List.drop_eq_getElem_cons hold
  have hset : w.samples.set w.oldest x =
      w.samples.take w.oldest ++ x :: w.samples.drop (w.oldest + 1) := by
    rw [List.set_eq_take_append_cons_drop, if_pos hold]
  have htake : (w.samples.take w.oldest).length = w.oldest := by
    rw [List.length_take]
    omega
  unfold recent
  rw [hs, ho, hdrop, hset, List.cons_append, List.drop_one, List.tail_cons]
  rcases (Nat.succ_le_of_lt hold).lt_or_eq with hlt | heq
  · rw [Nat.mod_eq_of_lt hlt, List.drop_append, List.take_append, htake]
    simp [List.drop_eq_nil_of_le, List.take_of_length_le]
  · rw [Nat.succ_eq_add_one] at heq
    rw [heq, Nat.mod_self]
    simp

theorem length_recent (hold : w.oldest < w.samples.length) :
    w.recent.length = w.samples.length := by
  unfold recent
  rw [List.length_append, List.length_drop, List.length_take]
  omega

theorem recent_perm (w : OutlierWindow) : w.recent.Perm w.samples := by
  unfold recent
  exact (List.perm_append_comm).trans (.of_eq (List.take_append_drop ..))

/-- Windows that take in one sample after another hold the last of them. -/
theorem recent_append {stream : List Int64} {n : Nat} (hn : n = w.recent.length) (hpos : 0 < n)
    (h : w.recent = stream.drop (stream.length - n)) :
    w.recent.drop 1 ++ [x] = (stream ++ [x]).drop ((stream ++ [x]).length - n) := by
  have hle : n ≤ stream.length := by
    have := congrArg List.length h
    rw [List.length_drop] at this
    omega
  rw [h, List.drop_drop, List.length_append, List.length_singleton,
    List.drop_append_of_le_length (by omega)]
  congr 2
  omega

/-- A window that has taken in a stream with a tolerance. -/
structure Tracks (w : OutlierWindow) (n : Nat) (t : Float) (stream : List Int64) : Prop where
  sound : Sound w
  size : w.samples.length = n
  tolerance : w.tolerance = t
  recent : w.recent = stream.drop (stream.length - n)

variable {n : Nat} {t : Float} {stream : List Int64}

theorem Tracks.apply (h : Tracks w n t stream) (x : Int64) :
    ∃ w' v, w.apply x = .ok (w', v) ∧ Tracks w' n t (stream ++ [x]) := by
  obtain ⟨w', hok, hsound, hs, ho, ht, -⟩ := apply_spec h.sound x
  have hlen : w'.samples.length = n := by rw [hs, List.length_set, h.size]
  refine ⟨w', _, hok, hsound, hlen, ht.trans h.tolerance, ?_⟩
  have hold := h.sound.oldest_lt
  have hpos := h.sound.many
  rw [recent_replaced hold hs ho]
  exact recent_append (h.size ▸ (length_recent hold).symm) (by have := h.size; omega) h.recent

theorem Tracks.applyEach (h : Tracks w n t stream) (inputs : List Int64) :
    ∃ w' vs, w.applyEach inputs = .ok (vs, w') ∧ Tracks w' n t (stream ++ inputs) := by
  induction inputs generalizing w stream with
  | nil => exact ⟨w, [], rfl, by simpa using h⟩
  | cons x xs ih =>
    obtain ⟨w1, v, hok, h1⟩ := h.apply x
    obtain ⟨w2, vs, hok2, h2⟩ := ih h1
    refine ⟨w2, v :: vs, ?_, by simpa using h2⟩
    rw [OutlierWindow.applyEach, hok]
    dsimp only [bind, Except.bind]
    rw [hok2]
    rfl

theorem tracks_ofSamples {seed : List Int64} (hmany : 2 ≤ seed.length)
    (ht : validTolerance t = true) :
    ∃ w, ofSamples seed t = .ok w ∧ Tracks w seed.length t seed := by
  obtain ⟨w, hok, hsound, hs, ho, htol, -⟩ := ofSamples_spec hmany ht
  refine ⟨w, hok, hsound, congrArg List.length hs, htol, ?_⟩
  simp [OutlierWindow.recent, hs, ho]

/-! ## What the fields say -/

/-- The fields of a window, each by what it says of the stream. -/
structure Accurate (w : OutlierWindow) (n : Nat) (t : Float) (stream : List Int64) : Prop where
  size : w.samples.length = n
  oldest_lt : w.oldest < n
  /-- From the oldest on, the window holds the last samples in the order in which they came. -/
  recent : w.samples.drop w.oldest ++ w.samples.take w.oldest = stream.drop (stream.length - n)
  min : w.samples.min? = some w.min
  minCount : w.minCount = w.samples.count w.min
  max : w.samples.max? = some w.max
  maxNormal : (normals w.samples w.flagged).max? = some w.maxNormal
  maxNormalCount : w.maxNormalCount = (normals w.samples w.flagged).count w.maxNormal
  upperTolerance : w.upperTolerance = toleranceBound w.min w.maxNormal t
  min_le_maxNormal : w.min ≤ w.maxNormal
  maxNormal_le_max : w.maxNormal ≤ w.max
  maxNormal_le_upperTolerance : w.maxNormal ≤ w.upperTolerance
  flagged : ∀ i, w.flagged = some i → w.samples[i]? = some w.max ∧
    ∀ (j : Nat) y, w.samples[j]? = some y → (w.upperTolerance < y ↔ j = i)
  unflagged : w.flagged = none → w.max = w.maxNormal ∧ ∀ y ∈ w.samples, y ≤ w.upperTolerance

theorem UpToDate.flagged (h : UpToDate w) {i : Nat} (hi : w.flagged = some i)
    (hlt : i < w.samples.length) : w.samples[i] = w.max ∧ w.upperTolerance < w.max := by
  have ho : w.outlier = some w.samples[i] := by simp [outlier, hi, hlt]
  have hm := h.max
  rw [ho] at hm
  exact ⟨hm.symm, hm ▸ h.beyond _ ho⟩

theorem UpToDate.max?_samples (h : UpToDate w) (hlt : ∀ i ∈ w.flagged, i < w.samples.length) :
    w.samples.max? = some w.max := by
  have hn := h.maxNormal
  cases hi : w.flagged with
  | none =>
    have hm := h.max
    rw [outlier, hi] at hm
    rw [hi] at hn
    exact hm ▸ hn
  | some i =>
    obtain ⟨hv, hup⟩ := h.flagged hi (hlt i hi)
    have hmax := h.maxNormal_le
    rw [hi] at hn
    refine max?_perm (List.getElem_cons_eraseIdx_perm (hlt i hi)) ?_
    rw [hv]
    exact (max?_cons_of_lt hn (by grind)).1

theorem Tracks.accurate (h : Tracks w n t stream) : Accurate w n t stream := by
  obtain ⟨hsound, hsize, htol, hrecent⟩ := h
  have hup := hsound.upToDate
  have hle := hup.maxNormal_le
  exact
    { size := hsize
      oldest_lt := hsize ▸ hsound.oldest_lt
      recent := hrecent
      min := hup.min
      minCount := hup.minCount
      max := hup.max?_samples hsound.flagged_lt
      maxNormal := hup.maxNormal
      maxNormalCount := hup.maxNormalCount
      upperTolerance := htol ▸ hup.upperTolerance
      min_le_maxNormal := hup.min_le
      maxNormal_le_max := hup.maxNormal_le_max
      maxNormal_le_upperTolerance := hle
      flagged := by
        intro i hi
        obtain ⟨hv, hlt⟩ := hup.flagged hi (hsound.flagged_lt i hi)
        refine ⟨by rw [List.getElem?_eq_getElem (hsound.flagged_lt i hi), hv], ?_⟩
        intro j y hj
        constructor
        · intro hy
          by_contra hne
          have hmem : y ∈ normals w.samples w.flagged := by
            rw [hi]
            exact List.mem_eraseIdx_iff_getElem?.mpr ⟨j, hne, hj⟩
          grind [hup.le_maxNormal y hmem]
        · rintro rfl
          obtain ⟨_, rfl⟩ := List.getElem?_eq_some_iff.mp hj
          exact hv ▸ hlt
      unflagged := by
        intro hi
        have hm := hup.max
        have hall := hup.le_maxNormal
        rw [outlier, hi] at hm
        rw [hi] at hall
        exact ⟨hm, fun y hy => Int64.le_trans (hall y hy) hle⟩ }

/-- Every window that a run reaches is accurate, and no run meets a fault. -/
theorem applyEach_accurate (seed inputs : List Int64) (t : Float) (hmany : 3 ≤ seed.length)
    (ht : validTolerance t = true) :
    ∃ w₀ w vs, ofSamples seed t = .ok w₀ ∧ w₀.applyEach inputs = .ok (vs, w) ∧
      Accurate w seed.length t (seed ++ inputs) := by
  obtain ⟨w₀, hok₀, h₀⟩ := tracks_ofSamples (Nat.le_of_succ_le hmany) ht
  obtain ⟨w, vs, hok, h⟩ := h₀.applyEach inputs
  exact ⟨w₀, w, vs, hok₀, hok, h.accurate⟩

/-- A flagged seed whose flag is cleared and a sample that is flagged as it comes in. -/
theorem applyEach_accurate_flagging :
    3 ≤ [1, 2, 100].length ∧ validTolerance 1 = true ∧
      ∃ w₀ w vs, ofSamples [1, 2, 100] 1 = .ok w₀ ∧ w₀.applyEach [3, 300] = .ok (vs, w) ∧
        Accurate w 3 1 [1, 2, 100, 3, 300] :=
  have ht : validTolerance 1 = true := by decide +kernel
  ⟨by decide, ht, applyEach_accurate [1, 2, 100] [3, 300] 1 (by decide) ht⟩

end TimingStats.OutlierWindow
