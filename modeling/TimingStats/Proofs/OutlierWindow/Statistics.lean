import TimingStats.Proofs.OutlierWindow.ToleranceBound

/-! # Statistics of a window

The fields of a window that are kept up to date are functions of its samples: the least and the
greatest, how often they occur, and the bound that follows. `Tallied` says so with respect to two
lists, all the samples and the unflagged ones, because a step takes a new sample into account at
the low end before it does so at the high end, and drops the oldest one last. The scans compute
the same statistics from nothing. -/

namespace TimingStats

variable {xs ys : List Int64} {m x : Int64}

/-! ## Least and greatest -/

@[grind =] theorem int64_max_def (a b : Int64) : Max.max a b = if a ≤ b then b else a := rfl

@[grind =] theorem int64_min_def (a b : Int64) : Min.min a b = if a ≤ b then a else b := rfl

instance lawfulOrderMax : Std.LawfulOrderMax Int64 :=
  .of_max_le_iff (fun _ _ _ => by grind) (fun _ _ => by grind)

theorem min?_perm (h : xs.Perm ys) (hm : xs.min? = some m) : ys.min? = some m := by
  rw [List.min?_eq_some_iff] at hm ⊢
  exact ⟨h.mem_iff.mp hm.1, fun y hy => hm.2 y (h.mem_iff.mpr hy)⟩

theorem max?_perm (h : xs.Perm ys) (hm : xs.max? = some m) : ys.max? = some m := by
  rw [List.max?_eq_some_iff] at hm ⊢
  exact ⟨h.mem_iff.mp hm.1, fun y hy => hm.2 y (h.mem_iff.mpr hy)⟩

/-! ## Scans -/

/-- A tally of some samples. With none of them met it stands at the least integer. -/
structure Tally.Of (t : Tally) (xs : List Int64) : Prop where
  le : ∀ y ∈ xs, y ≤ t.value
  count : t.count = xs.count t.value
  low : t.count = 0 → t.value = Int64.minValue

theorem Tally.Of.nil : Tally.Of ⟨Int64.minValue, 0⟩ [] := ⟨by simp, rfl, fun _ => rfl⟩

theorem Tally.Of.perm {t : Tally} (h : t.Of xs) (hp : xs.Perm ys) : t.Of ys :=
  ⟨fun y hy => h.le y (hp.mem_iff.mpr hy), by rw [h.count, hp.count_eq], h.low⟩

theorem Tally.Of.meet {t : Tally} (h : t.Of xs) (x : Int64) : (t.meet x).Of (xs ++ [x]) := by
  obtain ⟨hle, hcount, hlow⟩ := h
  unfold Tally.meet
  split
  · rename_i hlt
    refine ⟨by grind, ?_, by simp⟩
    have hnot : x ∉ xs := fun hx => by grind
    simp [List.count_append, List.count_eq_zero.mpr hnot]
  · split
    · rename_i heq
      subst heq
      exact ⟨by grind, by simp [List.count_append, hcount], by simp⟩
    · rename_i hne
      refine ⟨by grind, ?_, hlow⟩
      simp [List.count_append, hcount, hne]

theorem Tally.Of.foldl {t : Tally} (h : t.Of xs) (ys : List Int64) :
    (ys.foldl Tally.meet t).Of (xs ++ ys) := by
  induction ys generalizing t xs with
  | nil => simpa using h
  | cons y ys ih => simpa using ih (h.meet y)

/-- Had the value of the tally not been met, nothing met could be below it. -/
theorem Tally.Of.count_pos {t : Tally} (h : t.Of xs) (hne : xs ≠ []) : 0 < t.count := by
  obtain ⟨y, hy⟩ := List.exists_mem_of_ne_nil xs hne
  refine Nat.pos_of_ne_zero fun hz => ?_
  have hyt : y = t.value := by
    have := h.le y hy
    have := Int64.minValue_le y
    have := h.low hz
    grind
  rw [h.count, List.count_eq_zero, ← hyt] at hz
  exact hz hy

theorem Tally.Of.max? {t : Tally} (h : t.Of xs) (hne : xs ≠ []) : xs.max? = some t.value := by
  have hpos := h.count_pos hne
  rw [h.count, List.count_pos_iff] at hpos
  exact List.max?_eq_some_iff.mpr ⟨hpos, h.le⟩

/-- The two greatest values of some samples, with a place of the first. -/
structure TopTwo.Of (s : TopTwo) (xs : List Int64) : Prop where
  max : s.max.Of xs
  second : s.second.Of (xs.filter (· ≠ s.max.value))
  place : 0 < s.max.count → xs[s.place]? = some s.max.value
  empty : s.max.count = 0 → xs = [] ∧ s.place = 0

theorem TopTwo.Of.meet {s : TopTwo} (h : s.Of xs) (x : Int64) :
    (s.meet (x, xs.length)).Of (xs ++ [x]) := by
  obtain ⟨hmax, hsecond, hplace, hempty⟩ := h
  have hmeet := hmax.meet x
  unfold Tally.meet at hmeet
  unfold TopTwo.meet
  split
  · rename_i hlt
    rw [if_pos hlt] at hmeet
    -- everything met so far is below the new value
    have hfilter : (xs ++ [x]).filter (· ≠ x) = xs := by
      have hne : ∀ y ∈ xs, y ≠ x := fun y hy => by grind [hmax.le y hy]
      simpa [List.filter_append] using hne
    refine ⟨hmeet, ?_, by simp, by simp⟩
    simp only [hfilter]
    split
    · exact hmax
    · obtain ⟨rfl, -⟩ := hempty (by omega)
      exact hsecond
  · rename_i hlt
    rw [if_neg hlt] at hmeet
    split
    · rename_i heq
      rw [if_pos heq] at hmeet
      refine ⟨hmeet, ?_, fun _ => ?_, by simp⟩
      · simpa [List.filter_append, List.filter_singleton, show x = s.max.value from heq]
          using hsecond
      · by_cases hz : s.max.count = 0
        · obtain ⟨rfl, hp⟩ := hempty hz
          simpa [hp] using heq
        · have hsome := hplace (by omega)
          have := (List.getElem?_eq_some_iff.mp hsome).1
          simpa [List.getElem?_append_left this] using hsome
    · rename_i hne
      rw [if_neg hne] at hmeet
      refine ⟨hmeet, ?_, fun hpos => ?_, fun hz => ?_⟩
      · simpa [List.filter_append, List.filter_singleton, show x ≠ s.max.value from hne]
          using hsecond.meet x
      · have hsome := hplace hpos
        have := (List.getElem?_eq_some_iff.mp hsome).1
        simpa [List.getElem?_append_left this] using hsome
      · have hlow := hmax.low hz
        have := Int64.minValue_le x
        grind

theorem TopTwo.Of.foldl {s : TopTwo} (h : s.Of xs) (ys : List Int64) :
    ((ys.zipIdx xs.length).foldl TopTwo.meet s).Of (xs ++ ys) := by
  induction ys generalizing s xs with
  | nil => simpa using h
  | cons y ys ih => simpa using ih (h.meet y)

namespace OutlierWindow

theorem least_eq (h : xs.min? = some m) : least xs = m := by
  have hl : (Int64.maxValue :: xs).min? = some (least xs) := rfl
  have := Int64.le_maxValue m
  rw [List.min?_eq_some_iff] at h hl
  grind

theorem topTwo_of (xs : List Int64) : (topTwo xs).Of xs := by
  have h : TopTwo.Of ⟨⟨Int64.minValue, 0⟩, 0, ⟨Int64.minValue, 0⟩⟩ [] :=
    ⟨.nil, .nil, by simp, by simp⟩
  simpa [topTwo] using h.foldl xs

theorem tallyMax_of (xs : List Int64) : (tallyMax xs).Of xs := by
  simpa [tallyMax] using Tally.Of.nil.foldl xs

/-! ## Statistics that are up to date -/

variable {w : OutlierWindow} {all normal : List Int64} {out : Option Int64}

/-- The statistics of a window are those of some samples, of which some are unflagged and one may
be the outlier. -/
structure Tallied (w : OutlierWindow) (all normal : List Int64) (out : Option Int64) : Prop where
  tolerance : validTolerance w.tolerance = true
  min : all.min? = some w.min
  minCount : w.minCount = all.count w.min
  maxNormal : normal.max? = some w.maxNormal
  maxNormalCount : w.maxNormalCount = normal.count w.maxNormal
  min_le : w.min ≤ w.maxNormal
  max : w.max = out.getD w.maxNormal
  upperTolerance : w.upperTolerance = toleranceBound w.min w.maxNormal w.tolerance

/-- The outlier is above the bound besides. -/
structure Exact (w : OutlierWindow) (all normal : List Int64) (out : Option Int64) : Prop
    extends Tallied w all normal out where
  beyond : ∀ o ∈ out, w.upperTolerance < o

def UpToDate (w : OutlierWindow) : Prop :=
  Exact w w.samples (normals w.samples w.flagged) w.outlier

theorem Tallied.le_maxNormal (h : Tallied w all normal out) : ∀ y ∈ normal, y ≤ w.maxNormal :=
  (List.max?_eq_some_iff.mp h.maxNormal).2

theorem Tallied.maxNormal_le (h : Tallied w all normal out) : w.maxNormal ≤ w.upperTolerance := by
  rw [h.upperTolerance]
  exact le_toleranceBound h.min_le h.tolerance

theorem Exact.maxNormal_lt (h : Exact w all normal out) : ∀ o ∈ out, w.maxNormal < o := by
  intro o ho
  have := h.maxNormal_le
  have := h.beyond o ho
  grind

theorem Exact.maxNormal_le_max (h : Exact w all normal out) : w.maxNormal ≤ w.max := by
  have hmax := h.max
  cases out with
  | none => rw [hmax]; exact Int64.le_refl _
  | some o => rw [hmax]; exact Int64.le_of_lt (h.maxNormal_lt o rfl)

theorem Tallied.perm {all' normal' : List Int64} (h : Tallied w all normal out)
    (ha : all.Perm all') (hn : normal.Perm normal') : Tallied w all' normal' out where
  tolerance := h.tolerance
  min := min?_perm ha h.min
  minCount := by rw [h.minCount, ha.count_eq]
  maxNormal := max?_perm hn h.maxNormal
  maxNormalCount := by rw [h.maxNormalCount, hn.count_eq]
  min_le := h.min_le
  max := h.max
  upperTolerance := h.upperTolerance

theorem Exact.perm {all' normal' : List Int64} (h : Exact w all normal out)
    (ha : all.Perm all') (hn : normal.Perm normal') : Exact w all' normal' out :=
  ⟨h.toTallied.perm ha hn, h.beyond⟩

/-- The statistics do not depend on what is kept of the samples themselves. -/
theorem Exact.set_ring (h : Exact w all normal out) (samples : List Int64) (oldest : Nat)
    (flagged : Option Nat) : Exact { w with samples, oldest, flagged } all normal out :=
  { tolerance := h.tolerance, min := h.min, minCount := h.minCount, maxNormal := h.maxNormal
    maxNormalCount := h.maxNormalCount, min_le := h.min_le, max := h.max
    upperTolerance := h.upperTolerance, beyond := h.beyond }

end OutlierWindow
end TimingStats
