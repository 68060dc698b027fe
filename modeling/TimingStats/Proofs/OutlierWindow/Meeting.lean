import TimingStats.Proofs.OutlierWindow.Statistics

/-! # Meeting a new sample

A step meets the new sample at the low end, then at the high end, before it takes the place of the
oldest. Each part is described by the samples that the statistics are of before and after. The flag
is lost when the bound that comes with the new sample reaches the outlier, and no fault occurs on
the way. -/

namespace TimingStats

variable {xs : List Int64} {m x : Int64}

/-! ## One sample more -/

theorem min?_cons_of_lt (h : xs.min? = some m) (hx : x < m) :
    (x :: xs).min? = some x ∧ (x :: xs).count x = 1 := by
  rw [List.min?_eq_some_iff] at h ⊢
  grind [List.count_eq_zero]

theorem min?_cons_of_le (h : xs.min? = some m) (hx : m ≤ x) : (x :: xs).min? = some m := by
  rw [List.min?_eq_some_iff] at h ⊢
  grind

theorem max?_cons_of_lt (h : xs.max? = some m) (hx : m < x) :
    (x :: xs).max? = some x ∧ (x :: xs).count x = 1 := by
  rw [List.max?_eq_some_iff] at h ⊢
  grind [List.count_eq_zero]

theorem max?_cons_of_le (h : xs.max? = some m) (hx : x ≤ m) : (x :: xs).max? = some m := by
  rw [List.max?_eq_some_iff] at h ⊢
  grind

/-- The verdict by what it says. -/
def Verdict.of (isOutlier : Bool) (cleared : Option Int64) : Verdict :=
  ⟨isOutlier, cleared.isSome, cleared.getD 0⟩

namespace OutlierWindow

variable {w : OutlierWindow} {all normal : List Int64} {out : Option Int64}

/-- Two windows that differ only in their statistics and their flag. -/
structure SameRing (w w' : OutlierWindow) : Prop where
  samples : w'.samples = w.samples
  oldest : w'.oldest = w.oldest
  tolerance : w'.tolerance = w.tolerance

theorem SameRing.refl (w : OutlierWindow) : SameRing w w := ⟨rfl, rfl, rfl⟩

theorem SameRing.trans {w w' w'' : OutlierWindow} (h : SameRing w w') (h' : SameRing w' w'') :
    SameRing w w'' :=
  ⟨h'.samples.trans h.samples, h'.oldest.trans h.oldest, h'.tolerance.trans h.tolerance⟩

/-! ## Clearing the flag -/

/-- The outlier, if a bound has reached it. -/
def reached (bound : Int64) (out : Option Int64) : Option Int64 := out.filter (· ≤ bound)

/-- The outlier, if it is still above a bound. -/
def unreached (bound : Int64) (out : Option Int64) : Option Int64 := out.filter (bound < ·)

section
variable {bound o : Int64}

@[simp] theorem reached_none : reached bound none = none := rfl

@[simp] theorem unreached_none : unreached bound none = none := rfl

theorem reached_of_le (h : o ≤ bound) : reached bound (some o) = some o := by
  simp [reached, h]

theorem unreached_of_le (h : o ≤ bound) : unreached bound (some o) = none := by
  simpa [unreached] using h

theorem reached_of_beyond {out : Option Int64} (h : ∀ o ∈ out, bound < o) :
    reached bound out = none ∧ unreached bound out = out := by
  cases out with
  | none => exact ⟨rfl, rfl⟩
  | some o => simpa [reached, unreached] using h o rfl

theorem reached_of_lt (h : bound < o) : reached bound (some o) = none := by
  simpa [reached] using h

theorem unreached_of_lt (h : bound < o) : unreached bound (some o) = some o := by
  simp [unreached, h]

end

/-- The outlier joins the unflagged samples, of which it is the greatest. -/
theorem clear_spec {o : Int64} {count : Nat} {normal' : List Int64}
    (h : Tallied w all normal (some o)) (hflag : w.flagged.isSome = true)
    (hle : w.maxNormal ≤ o) (hmax : normal'.max? = some o) (hcount : count = normal'.count o)
    (v : Verdict) :
    ∃ w', w.clear v count = .ok (w', .of v.isOutlier (some o)) ∧ SameRing w w' ∧
      w'.flagged = none ∧ Exact w' all normal' none := by
  have ho : w.max = o := h.max
  refine ⟨{ w with flagged := none }.withNormal ⟨w.max, count⟩, ?_, ⟨rfl, rfl, rfl⟩, rfl, ?_⟩
  · rw [clear, if_pos hflag, ← ho]
    rfl
  · refine ⟨⟨h.tolerance, h.min, h.minCount, ?_, ?_, ?_, rfl, rfl⟩, by simp⟩
    · rw [hmax, ← ho]
      rfl
    · rw [hcount, ← ho]
      rfl
    · exact Int64.le_trans h.min_le (ho ▸ hle)

theorem clearWithin_spec (h : Tallied w all normal out) (hflag : w.flagged.isSome = out.isSome)
    (hout : ∀ o ∈ out, w.maxNormal < o) (b : Bool) (before : Option Int64) :
    let cleared := reached w.upperTolerance out
    ∃ w', w.clearWithin (.of b before) = .ok (w', .of b (cleared.or before)) ∧ SameRing w w' ∧
      w'.flagged = (if cleared.isSome then none else w.flagged) ∧
      Exact w' all (cleared.toList ++ normal) (unreached w.upperTolerance out) := by
  unfold clearWithin
  cases out with
  | none =>
    have hnone : w.flagged.isSome = false := hflag
    exact ⟨w, by simp [hnone], .refl w, by simp, h, by simp⟩
  | some o =>
    have hsome : w.flagged.isSome = true := hflag
    have ho : w.max = o := h.max
    have hlt := hout o rfl
    rw [hsome, Bool.true_and, ho]
    dsimp only
    by_cases hle : o ≤ w.upperTolerance
    · obtain ⟨hmax, hcount⟩ := max?_cons_of_lt h.maxNormal hlt
      obtain ⟨w', hok, hsame, hf, he⟩ :=
        clear_spec h hsome (Int64.le_of_lt hlt) hmax hcount.symm (.of b before)
      rw [reached_of_le hle, unreached_of_le hle, decide_eq_true hle]
      exact ⟨w', hok, hsame, hf, he⟩
    · have hgt := Int64.not_le.mp hle
      rw [reached_of_lt hgt, unreached_of_lt hgt, decide_eq_false hle]
      exact ⟨w, rfl, .refl w, rfl, h, by simpa using hgt⟩

/-! ## Meeting a sample -/

theorem meetMin_spec (h : Exact w all normal out) (hflag : w.flagged.isSome = out.isSome)
    (x : Int64) :
    let bound := toleranceBound (Min.min w.min x) w.maxNormal w.tolerance
    ∃ w', w.meetMin x {} = .ok (w', .of false (reached bound out)) ∧ SameRing w w' ∧
      w'.flagged = (if (reached bound out).isSome then none else w.flagged) ∧
      Exact w' (x :: all) ((reached bound out).toList ++ normal) (unreached bound out) := by
  unfold meetMin
  by_cases hlt : x < w.min
  · obtain ⟨hmin, hcount⟩ := min?_cons_of_lt h.min hlt
    have hbound : Min.min w.min x = x := by grind
    have ht : Tallied { w with min := x, minCount := 1 }.rebound (x :: all) normal out :=
      { tolerance := h.tolerance, min := hmin, minCount := hcount.symm, maxNormal := h.maxNormal,
        maxNormalCount := h.maxNormalCount,
        min_le := Int64.le_trans (Int64.le_of_lt hlt) h.min_le, max := h.max,
        upperTolerance := rfl }
    rw [if_pos hlt, hbound]
    obtain ⟨w', hok, hsame, hw'⟩ := clearWithin_spec ht hflag h.maxNormal_lt false none
    rw [Option.or_none] at hok
    exact ⟨w', hok, ⟨hsame.samples, hsame.oldest, hsame.tolerance⟩, hw'⟩
  · have hle := Int64.not_lt.mp hlt
    have hbound : Min.min w.min x = w.min := by grind
    have hmin := min?_cons_of_le h.min hle
    obtain ⟨hr, hu⟩ := reached_of_beyond h.beyond
    dsimp only
    rw [if_neg hlt, hbound, ← h.upperTolerance, hr, hu]
    by_cases heq : x = w.min
    · rw [if_pos heq]
      exact ⟨_, rfl, ⟨rfl, rfl, rfl⟩, rfl,
        { h with min := hmin, minCount := by rw [heq, List.count_cons_self, h.minCount] }⟩
    · rw [if_neg heq]
      exact ⟨w, rfl, .refl w, rfl,
        { h with min := hmin, minCount := by rw [List.count_cons_of_ne heq, h.minCount] }⟩

/-- With none flagged, a sample above the others is an outlier or the greatest of them. -/
theorem raiseMax_spec (h : Exact w (x :: all) normal none) (hlt : w.maxNormal < x)
    (before : Option Int64) :
    let isOutlier := decide (w.upperTolerance < x)
    ∃ w', w.raiseMax x (.of false before) = (w', .of isOutlier before) ∧ SameRing w w' ∧
      w'.flagged = w.flagged ∧
      Exact w' (x :: all) ((if isOutlier then [] else [x]) ++ normal)
        (if isOutlier then some x else none) := by
  unfold raiseMax
  by_cases hout : w.upperTolerance < x
  · rw [if_pos hout, decide_eq_true hout]
    exact ⟨_, rfl, ⟨rfl, rfl, rfl⟩, rfl, { h with max := rfl, beyond := by simpa using hout }⟩
  · obtain ⟨hmax, hcount⟩ := max?_cons_of_lt h.maxNormal hlt
    rw [if_neg hout, decide_eq_false hout]
    exact ⟨_, rfl, ⟨rfl, rfl, rfl⟩, rfl,
      { h with
        maxNormal := hmax
        maxNormalCount := hcount.symm
        min_le := Int64.le_trans h.min_le (Int64.le_of_lt hlt)
        max := rfl
        upperTolerance := rfl
        beyond := by simp }⟩

theorem exceedMax_spec (h : Exact w (x :: all) normal out)
    (hflag : w.flagged.isSome = out.isSome) (hlt : w.max < x) (before : Option Int64) :
    let isOutlier := decide (toleranceBound w.min w.max w.tolerance < x)
    ∃ w', w.exceedMax x (.of false before) = .ok (w', .of isOutlier (out.or before)) ∧
      SameRing w w' ∧ w'.flagged = none ∧
      Exact w' (x :: all) ((if isOutlier then [] else [x]) ++ (out.toList ++ normal))
        (if isOutlier then some x else none) := by
  have hm := h.max
  unfold exceedMax
  cases out with
  | none =>
    have hnone : w.flagged = none := by simpa using hflag
    have hm : w.max = w.maxNormal := hm
    obtain ⟨w', hok, hsame, hf, he⟩ := raiseMax_spec h (hm ▸ hlt) before
    rw [hnone, hm, ← h.upperTolerance]
    exact ⟨w', congrArg Except.ok hok, hsame, hf.trans hnone, he⟩
  | some o =>
    have hsome : w.flagged.isSome = true := hflag
    have ho : w.max = o := hm
    have hon := h.maxNormal_lt o rfl
    obtain ⟨hmax, hcount⟩ := max?_cons_of_lt h.maxNormal hon
    obtain ⟨w1, hok, hsame, hf, he⟩ := clear_spec h.toTallied hsome (Int64.le_of_lt hon) hmax
      hcount.symm (.of false before)
    have hmax1 : w1.maxNormal = w.max := by
      rw [ho]
      exact Option.some_inj.mp (he.maxNormal.symm.trans hmax)
    have hmin1 : w1.min = w.min := Option.some_inj.mp (he.min.symm.trans h.min)
    have hupper : toleranceBound w.min w.max w.tolerance = w1.upperTolerance := by
      rw [he.upperTolerance, hmin1, hmax1, hsame.tolerance]
    obtain ⟨w2, hok2, hsame2, hf2, he2⟩ := raiseMax_spec he (hmax1 ▸ hlt) (some o)
    rw [hsome, if_pos rfl, hok, hupper]
    exact ⟨w2, congrArg Except.ok hok2, hsame.trans hsame2, hf2.trans hf, he2⟩

/-- A second occurrence of the greatest sample leaves none flagged. -/
theorem repeatMax_spec (h : Exact w (w.max :: all) normal out)
    (hflag : w.flagged.isSome = out.isSome) (before : Option Int64) :
    ∃ w', w.repeatMax (.of false before) = .ok (w', .of false (out.or before)) ∧
      SameRing w w' ∧ w'.flagged = none ∧
      Exact w' (w.max :: all) (w.max :: (out.toList ++ normal)) none := by
  have hm := h.max
  unfold repeatMax
  cases out with
  | none =>
    have hnone : w.flagged = none := by simpa using hflag
    have hm : w.max = w.maxNormal := hm
    have hmax : (w.max :: normal).max? = some w.maxNormal :=
      max?_cons_of_le h.maxNormal (hm ▸ Int64.le_refl _)
    rw [hnone]
    exact ⟨_, rfl, ⟨rfl, rfl, rfl⟩, rfl,
      { h with
        maxNormal := hmax
        maxNormalCount := by
          dsimp only [Option.toList_none, List.nil_append]
          rw [hm, List.count_cons_self, h.maxNormalCount] }⟩
  | some o =>
    have hsome : w.flagged.isSome = true := hflag
    have ho : w.max = o := hm
    have hon := h.maxNormal_lt o rfl
    obtain ⟨hmax, hcount⟩ := max?_cons_of_lt h.maxNormal hon
    have hmax : (o :: o :: normal).max? = some o := max?_cons_of_le hmax (Int64.le_refl o)
    rw [ho] at h ⊢
    rw [hsome, if_pos rfl]
    exact clear_spec h.toTallied hsome (Int64.le_of_lt hon) hmax
      (by rw [List.count_cons_self, hcount]) (.of false before)

/-- A sample below the greatest is unflagged, and the bound may rise with it. -/
theorem meetNormal_spec (h : Exact w (x :: all) normal out)
    (hflag : w.flagged.isSome = out.isSome) (hlt : x < w.max) (before : Option Int64) :
    let bound := toleranceBound w.min (Max.max w.maxNormal x) w.tolerance
    ∃ w', w.meetNormal x (.of false before) =
        .ok (w', .of false ((reached bound out).or before)) ∧ SameRing w w' ∧
      w'.flagged = (if (reached bound out).isSome then none else w.flagged) ∧
      Exact w' (x :: all) (x :: ((reached bound out).toList ++ normal)) (unreached bound out) := by
  have hmin : w.min ≤ x := (List.min?_eq_some_iff.mp h.min).2 x List.mem_cons_self
  unfold meetNormal
  by_cases hn : w.maxNormal < x
  · have hbound : Max.max w.maxNormal x = x := by grind
    obtain ⟨hmax, hcount⟩ := max?_cons_of_lt h.maxNormal hn
    have hlow : ∀ o ∈ out, x < o := fun o ho => by
      have hm := h.max
      rw [ho] at hm
      exact (show w.max = o from hm) ▸ hlt
    have hm : w.max = out.getD x := by
      cases out with
      | none => exact absurd hn (by rw [← show w.max = w.maxNormal from h.max]; grind)
      | some o => exact h.max
    have ht : Tallied (w.withNormal ⟨x, 1⟩) (x :: all) (x :: normal) out :=
      { h with
        maxNormal := hmax
        maxNormalCount := hcount.symm
        min_le := hmin
        max := hm
        upperTolerance := rfl }
    obtain ⟨w', hok, hsame, hf, he⟩ := clearWithin_spec ht hflag hlow false before
    dsimp only
    rw [if_pos hn, hbound]
    exact ⟨w', hok, ⟨hsame.samples, hsame.oldest, hsame.tolerance⟩, hf,
      he.perm (.refl _) List.perm_middle⟩
  · have hbound : Max.max w.maxNormal x = w.maxNormal := by grind
    have hmax := max?_cons_of_le h.maxNormal (Int64.not_lt.mp hn)
    obtain ⟨hr, hu⟩ := reached_of_beyond h.beyond
    dsimp only
    rw [if_neg hn, hbound, ← h.upperTolerance, hr, hu]
    by_cases hx : x = w.maxNormal
    · rw [if_pos hx]
      exact ⟨_, rfl, ⟨rfl, rfl, rfl⟩, rfl,
        { h with
          maxNormal := hmax
          maxNormalCount := by rw [hx]; simp [h.maxNormalCount] }⟩
    · rw [if_neg hx]
      exact ⟨w, rfl, .refl w, rfl,
        { h with
          maxNormal := hmax
          maxNormalCount := by simp [hx, h.maxNormalCount] }⟩

theorem Exact.le_bound_max (h : Exact w all normal out) :
    w.max ≤ toleranceBound w.min w.max w.tolerance :=
  le_toleranceBound (Int64.le_trans h.min_le h.maxNormal_le_max) h.tolerance

theorem Exact.reached_of_max_le (h : Exact w all normal out) {bound : Int64}
    (hle : w.max ≤ bound) : reached bound out = out ∧ unreached bound out = none := by
  cases out with
  | none => exact ⟨rfl, rfl⟩
  | some o =>
    have ho : w.max = o := h.max
    exact ⟨reached_of_le (ho ▸ hle), unreached_of_le (ho ▸ hle)⟩

/-- A sample above the bound of all is above the outlier, whose flag it takes. -/
theorem Exact.reached_of_isOutlier (h : Exact w all normal out)
    (hx : toleranceBound w.min w.max w.tolerance < x) :
    reached (toleranceBound (Min.min w.min x) (Max.max w.maxNormal x) w.tolerance) out = out := by
  have hmin := h.min_le
  have hnmax := h.maxNormal_le_max
  have hmaxle := h.le_bound_max
  have hlow : Min.min w.min x = w.min := by grind
  have hhigh : Max.max w.maxNormal x = x := by grind
  have hxb := le_toleranceBound (show w.min ≤ x by grind) h.tolerance
  rw [hlow, hhigh]
  exact (h.reached_of_max_le (by grind)).1

theorem lost_flag {f : Option Nat} (hflag : f.isSome = out.isSome) :
    (if out.isSome then none else f) = none := by
  rw [← hflag]
  cases f <;> rfl

theorem meetMax_spec (h : Exact w (x :: all) normal out) (hflag : w.flagged.isSome = out.isSome)
    (before : Option Int64) :
    let bound := toleranceBound w.min (Max.max w.maxNormal x) w.tolerance
    let isOutlier := decide (toleranceBound w.min w.max w.tolerance < x)
    ∃ w', w.meetMax x (.of false before) =
        .ok (w', .of isOutlier ((reached bound out).or before)) ∧ SameRing w w' ∧
      w'.flagged = (if (reached bound out).isSome then none else w.flagged) ∧
      Exact w' (x :: all)
        ((if isOutlier then [] else [x]) ++ ((reached bound out).toList ++ normal))
        (if isOutlier then some x else unreached bound out) := by
  have hmin : w.min ≤ x := (List.min?_eq_some_iff.mp h.min).2 x List.mem_cons_self
  have hmaxle := h.le_bound_max
  have hnmax := h.maxNormal_le_max
  unfold meetMax
  dsimp only
  by_cases hlt : w.max < x
  · have hbound : Max.max w.maxNormal x = x := by grind
    have hxb := le_toleranceBound hmin h.tolerance
    obtain ⟨hr, hu⟩ := h.reached_of_max_le (Int64.le_trans (Int64.le_of_lt hlt) hxb)
    obtain ⟨w', hok, hsame, hf, he⟩ := exceedMax_spec h hflag hlt before
    rw [if_pos hlt, hbound, hr, hu, lost_flag hflag]
    exact ⟨w', hok, hsame, hf, he⟩
  · have hnot : ¬ toleranceBound w.min w.max w.tolerance < x := by grind
    rw [if_neg hlt, decide_eq_false hnot]
    by_cases heq : x = w.max
    · subst heq
      have hbound : Max.max w.maxNormal w.max = w.max := by grind
      obtain ⟨hr, hu⟩ := h.reached_of_max_le hmaxle
      obtain ⟨w', hok, hsame, hf, he⟩ := repeatMax_spec h hflag before
      rw [if_pos rfl, hbound, hr, hu, lost_flag hflag]
      exact ⟨w', hok, hsame, hf, he⟩
    · have hxm : x < w.max := by grind
      rw [if_neg heq]
      exact meetNormal_spec h hflag hxm before

theorem isSome_flag {f : Option Nat} (hflag : f.isSome = out.isSome) (bound : Int64) :
    (if (reached bound out).isSome then none else f).isSome = (unreached bound out).isSome := by
  cases out with
  | none => exact hflag
  | some o =>
    by_cases hle : o ≤ bound
    · rw [reached_of_le hle, unreached_of_le hle]
      rfl
    · have hgt := Int64.not_le.mp hle
      rw [reached_of_lt hgt, unreached_of_lt hgt]
      exact hflag

/-- A new sample is judged by the bound of all samples before it, and clears the outlier by the
bound of the unflagged ones together with itself. -/
theorem meet_spec (h : Exact w all normal out) (hflag : w.flagged.isSome = out.isSome)
    (x : Int64) :
    let bound := toleranceBound (Min.min w.min x) (Max.max w.maxNormal x) w.tolerance
    let isOutlier := decide (toleranceBound w.min w.max w.tolerance < x)
    ∃ w' w'' v, w.meetMin x {} = .ok (w', v) ∧
      w'.meetMax x v = .ok (w'', .of isOutlier (reached bound out)) ∧ SameRing w w'' ∧
      w''.flagged = (if (reached bound out).isSome then none else w.flagged) ∧
      Exact w'' (x :: all)
        ((if isOutlier then [] else [x]) ++ ((reached bound out).toList ++ normal))
        (if isOutlier then some x else unreached bound out) := by
  have hmaxle := h.le_bound_max
  have hnmax := h.maxNormal_le_max
  have hmin := h.min_le
  obtain ⟨w1, hok1, hsame1, hf1, h1⟩ := meetMin_spec h hflag x
  have hflag1 := (congrArg Option.isSome hf1).trans (isSome_flag hflag _)
  by_cases hlt : x < w.min
  · -- a new minimum is below the high end and has been dealt with
    have hlow : Min.min w.min x = x := by grind
    have hhigh : Max.max w.maxNormal x = w.maxNormal := by grind
    have hnot : ¬ toleranceBound w.min w.max w.tolerance < x := by grind
    rw [hlow] at hok1 hf1 h1 hflag1
    obtain ⟨w2, hok2, hsame2, hf2, h2⟩ := meetMax_spec h1 hflag1
      (reached (toleranceBound x w.maxNormal w.tolerance) out)
    have hx1 : x = w1.min := Option.some_inj.mp ((min?_cons_of_lt h.min hlt).1.symm.trans h1.min)
    have hhigh1 : Max.max w1.maxNormal x = w1.maxNormal := by grind [h1.min_le]
    have hnot1 : ¬ toleranceBound w1.min w1.max w1.tolerance < x := by
      grind [h1.min_le, h1.maxNormal_le_max, h1.le_bound_max]
    obtain ⟨hr, hu⟩ := reached_of_beyond h1.beyond
    rw [hhigh1, ← h1.upperTolerance, hr] at hf2
    rw [hhigh1, ← h1.upperTolerance, hr, decide_eq_false hnot1] at hok2
    rw [hhigh1, ← h1.upperTolerance, hr, hu, decide_eq_false hnot1] at h2
    rw [hlow, hhigh, decide_eq_false hnot]
    exact ⟨w1, w2, _, hok1, hok2, hsame1.trans hsame2, hf2.trans hf1, h2⟩
  · -- nothing has changed at the low end
    have hle := Int64.not_lt.mp hlt
    have hlow : Min.min w.min x = w.min := by grind
    obtain ⟨hr, hu⟩ := reached_of_beyond h.beyond
    rw [hlow, ← h.upperTolerance, hr] at hok1 hf1
    rw [hlow, ← h.upperTolerance, hr, hu] at h1
    rw [hlow, ← h.upperTolerance, hu] at hflag1
    obtain ⟨w2, hok2, hsame2, hf2, h2⟩ := meetMax_spec h1 hflag1 none
    have hmin1 : w1.min = w.min :=
      Option.some_inj.mp (h1.min.symm.trans (min?_cons_of_le h.min hle))
    have hnormal1 : w1.maxNormal = w.maxNormal :=
      Option.some_inj.mp (h1.maxNormal.symm.trans h.maxNormal)
    have hmax1 : w1.max = w.max := by rw [h1.max, h.max, hnormal1]
    rw [hmin1, hnormal1, hmax1, hsame1.tolerance, Option.or_none] at hok2
    rw [hmin1, hnormal1, hsame1.tolerance] at hf2
    rw [hmin1, hnormal1, hmax1, hsame1.tolerance] at h2
    rw [hlow]
    exact ⟨w1, w2, _, hok1, hok2, hsame1.trans hsame2, by rw [hf2, hf1]; rfl, h2⟩

end OutlierWindow
end TimingStats
