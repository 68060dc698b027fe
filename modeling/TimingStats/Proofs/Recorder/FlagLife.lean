import TimingStats.Proofs.Recorder.OfflineRule

/-! # The life of a flag

A flag in the reference window marks the sample of the last window that is dropped so far. One step
of the reference makes up its mind about the same samples as the one block that comes with the
step. -/

namespace TimingStats.Offline

open Reference (lowest highest)

variable {t : Float} {n : Nat} {stream samples : List Int64} {x : Int64}

/-! ## Least and greatest of a block -/

theorem min?_eq_lowest (h : samples ≠ []) : samples.min? = some (lowest samples) := by
  obtain ⟨m, hm⟩ := Option.ne_none_iff_exists'.mp (mt List.min?_eq_none_iff.mp h)
  rw [hm, Reference.lowest_eq hm]

theorem max?_eq_highest (h : samples ≠ []) : samples.max? = some (highest samples) := by
  obtain ⟨m, hm⟩ := Option.ne_none_iff_exists'.mp (mt List.max?_eq_none_iff.mp h)
  rw [hm, Reference.highest_eq hm]

theorem lowest_le (h : samples ≠ []) : ∀ y ∈ samples, lowest samples ≤ y :=
  (List.min?_eq_some_iff.mp (min?_eq_lowest h)).2

theorem le_highest (h : samples ≠ []) : ∀ y ∈ samples, y ≤ highest samples :=
  (List.max?_eq_some_iff.mp (max?_eq_highest h)).2

theorem highest_mem (h : samples ≠ []) : highest samples ∈ samples :=
  (List.max?_eq_some_iff.mp (max?_eq_highest h)).1

theorem lowest_append (h : samples ≠ []) :
    lowest (samples ++ [x]) = Min.min (lowest samples) x := by
  have hmin := List.min?_eq_some_iff.mp (min?_eq_lowest h)
  refine Reference.lowest_eq (List.min?_eq_some_iff.mpr ?_)
  grind

theorem highest_append (h : samples ≠ []) :
    highest (samples ++ [x]) = Max.max (highest samples) x := by
  have hmax := List.max?_eq_some_iff.mp (max?_eq_highest h)
  refine Reference.highest_eq (List.max?_eq_some_iff.mpr ?_)
  grind

theorem eraseIdx_ne_nil (hmany : 2 ≤ samples.length) (i : Nat) : samples.eraseIdx i ≠ [] := by
  have hlen := List.le_length_eraseIdx samples i
  exact List.ne_nil_of_length_pos (by omega)

/-- A sample above the others is not the least. -/
theorem lowest_eraseIdx {i : Nat} (hi : i < samples.length) (hmany : 2 ≤ samples.length)
    (habove : highest (samples.eraseIdx i) < samples[i]) :
    lowest (samples.eraseIdx i) = lowest samples := by
  have hne := eraseIdx_ne_nil hmany i
  have hle : lowest (samples.eraseIdx i) ≤ samples[i] := by
    have := lowest_le hne _ (highest_mem hne)
    grind
  have hcons := min?_cons_of_le (min?_eq_lowest hne) hle
  exact (Reference.lowest_eq (min?_perm (List.getElem_cons_eraseIdx_perm hi) hcons)).symm

/-! ## The block that comes with a sample -/

theorem isolated_newest :
    Isolated t (samples ++ [x]) samples.length ↔
      OutlierWindow.toleranceBound (lowest samples) (highest samples) t < x := by
  unfold Isolated
  rw [List.eraseIdx_append_of_length_le (Nat.le_refl _)]
  simp

theorem isolated_flagged {i : Nat} (hi : i < samples.length) (hmany : 2 ≤ samples.length)
    (habove : highest (samples.eraseIdx i) < samples[i]) :
    Isolated t (samples ++ [x]) i ↔
      OutlierWindow.toleranceBound (Min.min (lowest samples) x)
        (Max.max (highest (samples.eraseIdx i)) x) t < samples[i] := by
  have hne := eraseIdx_ne_nil hmany i
  unfold Isolated
  rw [List.eraseIdx_append_of_lt_length hi, lowest_append hne, highest_append hne,
    lowest_eraseIdx hi hmany habove, getD_append_of_lt hi]
  simp [hi]

/-- For the first window it makes no difference whether the sample itself counts for the least. -/
theorem isolated_iff_standsOut (ht : OutlierWindow.validTolerance t = true) {i : Nat}
    (hi : i < samples.length) (hmany : 2 ≤ samples.length) :
    Isolated t samples i ↔ Reference.standsOut t samples i = true := by
  have hne := eraseIdx_ne_nil hmany i
  have hmem := highest_mem hne
  have hget : samples.getD i 0 = samples[i] := by simp [hi]
  have hself := OutlierWindow.le_toleranceBound (lowest_le hne _ hmem) ht
  have hall := OutlierWindow.le_toleranceBound
    (lowest_le (List.ne_nil_of_length_pos (by omega)) _ (List.eraseIdx_subset hmem)) ht
  unfold Isolated Reference.standsOut
  rw [decide_eq_true_iff, hget]
  constructor
  · intro hlt
    rwa [lowest_eraseIdx hi hmany (by grind)] at hlt
  · intro hlt
    rwa [lowest_eraseIdx hi hmany (by grind)]

/-! ## Flags as marks -/

/-- The flag is on the one sample of the last window that is dropped so far, and that sample is
above the others. -/
structure Marks (r : Reference) (t : Float) (n : Nat) (stream : List Int64) : Prop where
  le : n ≤ stream.length
  recent : r.recent = stream.drop (stream.length - n)
  flag : ∀ p, r.flag = some p ↔ p < n ∧ Dropped t n stream (stream.length - n + p)

variable {r : Reference}

theorem Marks.length (h : Marks r t n stream) : r.recent.length = n := by
  have := h.le
  rw [h.recent, List.length_drop]
  omega

theorem Marks.ne_nil (h : Marks r t n stream) (hn : 2 ≤ n) : r.recent ≠ [] :=
  List.ne_nil_of_length_pos (by rw [h.length]; omega)

theorem Marks.dropped_newest (h : Marks r t n stream) (x : Int64) :
    Dropped t n (stream ++ [x]) stream.length ↔ (r.verdict t x).isOutlier = true := by
  have hle := h.le
  have hback : stream.length - (stream.length - n) = r.recent.length := by
    rw [h.length]
    omega
  rw [dropped_append hle, ← h.recent, hback, isolated_newest]
  unfold Reference.verdict
  rw [decide_eq_true_iff]
  exact ⟨fun hd => hd.2 (Nat.sub_le ..) (Nat.lt_succ_self _),
    fun hx => ⟨Offline.dropped_newest hle, fun _ _ => hx⟩⟩

theorem verdict_flagged {p : Nat} (hf : r.flag = some p) (hp : p < r.recent.length) (x : Int64) :
    (r.verdict t x).cleared =
      if r.recent[p] ≤ OutlierWindow.toleranceBound (Min.min (lowest r.recent) x)
        (Max.max (highest (r.recent.eraseIdx p)) x) t then some r.recent[p] else none := by
  have ho : r.outlier = some r.recent[p] := by simp [Reference.outlier, hf, hp]
  have hn : r.normals = r.recent.eraseIdx p := by rw [Reference.normals, hf]; rfl
  unfold Reference.verdict Verdict.cleared
  dsimp only
  rw [ho, hn, Option.filter_some]
  split <;> simp_all

theorem verdict_unflagged (hf : r.flag = none) (x : Int64) : (r.verdict t x).cleared = none := by
  have ho : r.outlier = none := by simp [Reference.outlier, hf]
  unfold Reference.verdict Verdict.cleared
  rw [ho]
  rfl

theorem clearsPrevious_eq (v : Verdict) : v.clearsPrevious = v.cleared.isSome := by
  unfold Verdict.cleared
  split <;> simp_all

/-- An earlier sample is still dropped if its flag has not been cleared. -/
theorem Marks.dropped_earlier (h : Marks r t n stream) (hn : 2 ≤ n)
    (habove : ∀ o ∈ r.outlier, highest r.normals < o) (x : Int64) {p : Nat} (hp : p < n) :
    Dropped t n (stream ++ [x]) (stream.length - n + p) ↔
      r.flag = some p ∧ (r.verdict t x).cleared = none := by
  have hle := h.le
  have hlen := h.length
  have hp' : p < r.recent.length := hlen ▸ hp
  have hback : stream.length - n + p - (stream.length - n) = p := by omega
  rw [dropped_append hle, ← h.recent, hback]
  constructor
  · rintro ⟨hd, hiso⟩
    have hf := (h.flag p).mpr ⟨hp, hd⟩
    have ho : r.outlier = some r.recent[p] := by simp [Reference.outlier, hf, hp']
    have hgreat := habove _ ho
    rw [Reference.normals, hf] at hgreat
    have hiso := (isolated_flagged hp' (hlen ▸ hn) hgreat).mp (hiso (by omega) (by omega))
    refine ⟨hf, ?_⟩
    rw [verdict_flagged hf hp', if_neg (by grind)]
  · rintro ⟨hf, hc⟩
    have ho : r.outlier = some r.recent[p] := by simp [Reference.outlier, hf, hp']
    have hgreat := habove _ ho
    rw [Reference.normals, hf] at hgreat
    refine ⟨((h.flag p).mp hf).2, fun _ _ => (isolated_flagged hp' (hlen ▸ hn) hgreat).mpr ?_⟩
    rw [verdict_flagged hf hp'] at hc
    by_contra hlt
    rw [if_pos (Int64.not_lt.mp hlt)] at hc
    cases hc

/-- A new outlier is above the bound that it brings for the flagged sample, which it clears. -/
theorem Marks.cleared_of_isOutlier (h : Marks r t n stream) (hn : 2 ≤ n)
    (ht : OutlierWindow.validTolerance t = true) {x : Int64}
    (hx : (r.verdict t x).isOutlier = true) {p : Nat} (hf : r.flag = some p) :
    (r.verdict t x).cleared ≠ none := by
  have hp' : p < r.recent.length := h.length ▸ ((h.flag p).mp hf).1
  have hne := h.ne_nil hn
  have hx : OutlierWindow.toleranceBound (lowest r.recent) (highest r.recent) t < x :=
    of_decide_eq_true hx
  have hall := OutlierWindow.le_toleranceBound (lowest_le hne _ (highest_mem hne)) ht
  have hget := le_highest hne _ (List.getElem_mem hp')
  have hbound : Max.max (highest (r.recent.eraseIdx p)) x ≤
      OutlierWindow.toleranceBound (Min.min (lowest r.recent) x)
        (Max.max (highest (r.recent.eraseIdx p)) x) t :=
    OutlierWindow.le_toleranceBound (by grind) ht
  rw [verdict_flagged hf hp', if_pos (by grind)]
  simp

theorem Marks.next (h : Marks r t n stream) (hn : 2 ≤ n)
    (ht : OutlierWindow.validTolerance t = true)
    (habove : ∀ o ∈ r.outlier, highest r.normals < o) (x : Int64) :
    Marks (r.next t x) t n (stream ++ [x]) := by
  have hle := h.le
  have hlen := h.length
  have hstart : (stream ++ [x]).length - n = stream.length - n + 1 := by
    rw [List.length_append, List.length_singleton]
    omega
  refine ⟨by simp; omega, ?_, fun p => ?_⟩
  · rw [hstart, List.drop_append_of_le_length (by omega), ← List.drop_drop, ← h.recent]
    rfl
  · have hflag : (r.next t x).flag =
        if (r.verdict t x).isOutlier then some (n - 1)
        else if (r.verdict t x).clearsPrevious ∨ r.flag = some 0 then none
        else r.flag.map (· - 1) := by rw [← hlen]; rfl
    have hlt : ∀ q, r.flag = some q → q < n := fun q hq => ((h.flag q).mp hq).1
    have hcleared := fun q hb hq => h.cleared_of_isOutlier hn ht (x := x) (p := q) hb hq
    have hsome := Option.isSome_iff_ne_none (o := (r.verdict t x).cleared)
    rw [hflag, hstart, clearsPrevious_eq]
    clear hflag
    by_cases hlast : p = n - 1
    · -- the place of the new sample
      have hplace : stream.length - n + 1 + p = stream.length := by omega
      rw [hplace, h.dropped_newest]
      cases hf : r.flag <;> grind
    · by_cases hp : p < n
      · have hplace : stream.length - n + 1 + p = stream.length - n + (p + 1) := by omega
        rw [hplace, h.dropped_earlier hn habove x (by omega)]
        cases hf : r.flag <;> grind
      · cases hf : r.flag <;> grind

/-- The place whose sample a step clears. -/
def newlyKept (t : Float) (n : Nat) (stream : List Int64) (r : Reference) (x : Int64) :
    Option Nat :=
  if (r.verdict t x).cleared = none then none else r.flag.map (stream.length - n + ·)

theorem Marks.newlyKept_iff (h : Marks r t n stream) (hn : 2 ≤ n)
    (habove : ∀ o ∈ r.outlier, highest r.normals < o) (x : Int64) (i : Nat) :
    newlyKept t n stream r x = some i ↔
      i < stream.length ∧ Dropped t n stream i ∧ ¬ Dropped t n (stream ++ [x]) i := by
  have hle := h.le
  have hearlier := fun p hp => h.dropped_earlier hn habove x (p := p) hp
  unfold newlyKept
  constructor
  · intro heq
    by_cases hc : (r.verdict t x).cleared = none
    · rw [if_pos hc] at heq
      cases heq
    · rw [if_neg hc] at heq
      obtain ⟨p, hf, rfl⟩ := Option.map_eq_some_iff.mp heq
      obtain ⟨hp, hd⟩ := (h.flag p).mp hf
      exact ⟨by omega, hd, fun hd' => hc ((hearlier p hp).mp hd').2⟩
  · rintro ⟨hi, hd, hkept⟩
    rcases Nat.lt_or_ge i (stream.length - n) with hlt | hge
    · exact absurd ((dropped_append hle).mpr ⟨hd, fun hback => absurd hlt (by omega)⟩) hkept
    · obtain ⟨p, rfl⟩ := Nat.exists_eq_add_of_le hge
      have hp : p < n := by omega
      have hf := (h.flag p).mpr ⟨hp, hd⟩
      rw [if_neg fun hc => hkept ((hearlier p hp).mpr ⟨hf, hc⟩), hf, Option.map_some]

theorem Marks.map_newlyKept (h : Marks r t n stream) (x : Int64) :
    (newlyKept t n stream r x).map (stream.getD · 0) = (r.verdict t x).cleared := by
  unfold newlyKept
  by_cases hc : (r.verdict t x).cleared = none
  · rw [if_pos hc, hc]
    rfl
  · rw [if_neg hc]
    cases hf : r.flag with
    | none => exact absurd (verdict_unflagged hf x) hc
    | some p =>
      have hp : p < r.recent.length := h.length ▸ ((h.flag p).mp hf).1
      have hget : stream.getD (stream.length - n + p) 0 = r.recent[p] := by
        simp only [h.recent, List.getElem_drop]
        have hlt : stream.length - n + p < stream.length := by
          rw [h.recent, List.length_drop] at hp
          omega
        simp [hlt]
      have hv := verdict_flagged (t := t) hf hp x
      split at hv
      · rw [hv, ← hget]
        rfl
      · exact absurd hv hc

theorem Marks.keptPlaces_append (h : Marks r t n stream) (hn : 2 ≤ n)
    (habove : ∀ o ∈ r.outlier, highest r.normals < o) (x : Int64) :
    (keptPlaces t n (stream ++ [x])).Perm
      ((if (r.verdict t x).isOutlier then [] else [stream.length]) ++
        ((newlyKept t n stream r x).toList ++ keptPlaces t n stream)) := by
  have hperm := Offline.keptPlaces_append h.le (h.newlyKept_iff hn habove x)
  simpa only [h.dropped_newest] using hperm

/-- What a step lets into the distribution is what the rule keeps with the new sample. -/
theorem Marks.kept_append (h : Marks r t n stream) (hn : 2 ≤ n)
    (habove : ∀ o ∈ r.outlier, highest r.normals < o) (x : Int64) :
    (kept t n (stream ++ [x])).Perm
      ((if (r.verdict t x).isOutlier then [] else [x]) ++
        ((r.verdict t x).cleared.toList ++ kept t n stream)) := by
  have hperm := Offline.kept_append h.le (h.newlyKept_iff hn habove x)
  rw [h.map_newlyKept] at hperm
  simpa only [h.dropped_newest] using hperm

end TimingStats.Offline
