import Mathlib.Data.List.Sort
import TimingStats.Proofs.Recorder.Reports

/-! # Translation of a stream

One number is added to all samples of a stream, and none leaves the range. The bound of a block may
leave it, and is then brought back. No sample can tell: whether a sample is above a bound that has
been brought back is whether it is above the exact one, and that moves with the block. So each
sample of the moved stream has the fate of the one that it comes from. -/

namespace TimingStats

def moved (offset : Int) (x : Int64) : Int64 := Int64.ofInt (x.toInt + offset)

/-- No sample leaves the range when the number is added. -/
def Movable (offset : Int) (xs : List Int64) : Prop :=
  ∀ x ∈ xs, fitsInt64 (x.toInt + offset) = true

instance (offset : Int) (xs : List Int64) : Decidable (Movable offset xs) :=
  List.decidableBAll _ xs

def Recorded.moved (offset : Int) : Recorded → Recorded
  | .seeding => .seeding
  | .accepted cleared => .accepted (cleared.map (TimingStats.moved offset))
  | .rejected cleared => .rejected (cleared.map (TimingStats.moved offset))

def Bin.moved (offset : Int) (b : Bin) : Bin := ⟨TimingStats.moved offset b.value, b.count⟩

variable {offset : Int} {xs : List Int64}

theorem moved_injective (offset : Int) : Function.Injective (moved offset) := by
  intro x y h
  unfold moved at h
  rw [Int64.ofInt_add, Int64.ofInt_add, Int64.ofInt_toInt, Int64.ofInt_toInt] at h
  exact (Int64.add_left_inj _).mp h

theorem Movable.toInt (h : Movable offset xs) {x : Int64} (hx : x ∈ xs) :
    (moved offset x).toInt = x.toInt + offset := toInt_ofInt_of_fits (h x hx)

theorem Movable.subset (h : Movable offset xs) {ys : List Int64} (hsub : ys ⊆ xs) :
    Movable offset ys := fun y hy => h y (hsub hy)

theorem Movable.le_iff (h : Movable offset xs) {x y : Int64} (hx : x ∈ xs) (hy : y ∈ xs) :
    moved offset x ≤ moved offset y ↔ x ≤ y := by
  rw [Int64.le_iff_toInt_le, Int64.le_iff_toInt_le, h.toInt hx, h.toInt hy,
    Int.add_le_add_iff_right]

theorem Movable.runLengths (h : Movable offset xs) :
    runLengths (xs.map (moved offset)) = (runLengths xs).map (Bin.moved offset) := by
  have hinj := moved_injective offset
  have hsort : (xs.dedup.insertionSort (· ≤ ·)).map (moved offset) =
      (xs.dedup.map (moved offset)).insertionSort (· ≤ ·) :=
    List.map_insertionSort (· ≤ ·) (· ≤ ·) (moved offset) _ fun x hx y hy =>
      (h.le_iff (List.mem_dedup.mp hx) (List.mem_dedup.mp hy)).symm
  unfold TimingStats.runLengths
  rw [List.dedup_map_of_injective hinj, ← hsort, List.map_map, List.map_map]
  refine List.map_congr_left fun v _ => ?_
  simp only [Function.comp_apply, Bin.moved, List.count_map_of_injective xs _ hinj]

/-! ## Bounds -/

/-- A sample is above a number that has been brought into range if it is above the number. -/
theorem saturate_lt_iff {m : Int} {x : Int64} (h : Int64.minValue.toInt ≤ m) :
    saturate m < x ↔ m < x.toInt := by
  have hx := x.toInt_le
  rw [Int64.lt_iff_toInt_lt, toInt_saturate]
  omega

/-- Whether a sample is above a bound, in exact arithmetic. -/
theorem OutlierWindow.toleranceBound_lt_iff {lo hi x : Int64} (h : lo ≤ hi) {t : Float}
    (ht : validTolerance t = true) :
    toleranceBound lo hi t < x ↔ hi.toInt +
      (saturate (exactMargin (hi.toInt - lo.toInt).toNat (Binary64.toRat t))).toInt < x.toInt := by
  have hz : (saturate 0).toInt = 0 := by decide
  have hmargin := saturate_mono
    (exactMargin_nonneg (hi.toInt - lo.toInt).toNat (finite_of_validTolerance ht).2)
  have hlow := hi.minValue_le_toInt
  rw [toleranceBound_eq h ht, saturate_lt_iff (by omega)]

namespace Offline

open Reference (lowest highest)

variable {t : Float} {n i : Nat} {stream samples : List Int64}

theorem lowest_mem (h : samples ≠ []) : lowest samples ∈ samples :=
  (List.min?_eq_some_iff.mp (min?_eq_lowest h)).1

theorem lowest_moved (h : Movable offset samples) (hne : samples ≠ []) :
    lowest (samples.map (moved offset)) = moved offset (lowest samples) := by
  refine Reference.lowest_eq (List.min?_eq_some_iff.mpr ⟨List.mem_map_of_mem (lowest_mem hne), ?_⟩)
  rw [List.forall_mem_map]
  exact fun y hy => (h.le_iff (lowest_mem hne) hy).mpr (lowest_le hne y hy)

theorem highest_moved (h : Movable offset samples) (hne : samples ≠ []) :
    highest (samples.map (moved offset)) = moved offset (highest samples) := by
  refine Reference.highest_eq
    (List.max?_eq_some_iff.mpr ⟨List.mem_map_of_mem (highest_mem hne), ?_⟩)
  rw [List.forall_mem_map]
  exact fun y hy => (h.le_iff hy (highest_mem hne)).mpr (le_highest hne y hy)

/-! ## The rule -/

section Moved

variable (ht : OutlierWindow.validTolerance t = true)
include ht

/-- The spread of the others is the same, so the margin is. -/
theorem isolated_moved (h : Movable offset samples) (hmany : 2 ≤ samples.length)
    (hi : i < samples.length) :
    Isolated t (samples.map (moved offset)) i ↔ Isolated t samples i := by
  have hne := eraseIdx_ne_nil hmany i
  have hothers : Movable offset (samples.eraseIdx i) := h.subset List.eraseIdx_subset
  have hlow := lowest_mem hne
  have hhigh := highest_mem hne
  have hle := lowest_le hne _ hhigh
  have hspread : (highest (samples.eraseIdx i)).toInt + offset -
      ((lowest (samples.eraseIdx i)).toInt + offset) =
      (highest (samples.eraseIdx i)).toInt - (lowest (samples.eraseIdx i)).toInt := by omega
  have hget : (samples.map (moved offset)).getD i 0 = moved offset samples[i] := by simp [hi]
  unfold Isolated
  rw [List.eraseIdx_map, lowest_moved hothers hne, highest_moved hothers hne, hget,
    OutlierWindow.toleranceBound_lt_iff hle ht,
    OutlierWindow.toleranceBound_lt_iff ((hothers.le_iff hlow hhigh).mpr hle) ht,
    hothers.toInt hlow, hothers.toInt hhigh, h.toInt (List.getElem_mem hi), hspread]
  have hget' : samples.getD i 0 = samples[i] := by simp [hi]
  rw [hget']
  omega

variable (hn : 2 ≤ n) (h : Movable offset stream)
include hn h

theorem dropped_moved (hlen : n ≤ stream.length) :
    Dropped t n (stream.map (moved offset)) i ↔ Dropped t n stream i := by
  unfold Dropped
  rw [List.length_map]
  refine forall₂_congr fun b hb => imp_congr_right fun hcover => ?_
  have hend := end_le_of_mem_blocks hlen hb
  have hlong : n ≤ b.length := by
    unfold blocks at hb
    rcases List.mem_cons.mp hb with rfl | hb
    · exact Nat.le_refl n
    · obtain ⟨start, -, rfl⟩ := List.mem_map.mp hb
      exact Nat.le_succ n
  have hsize : (b.samples stream).length = b.length := by
    rw [Block.samples, List.length_take, List.length_drop]
    omega
  have hmap : b.samples (stream.map (moved offset)) = (b.samples stream).map (moved offset) := by
    rw [Block.samples, Block.samples, List.map_take, List.map_drop]
  have hmovable : Movable offset (b.samples stream) :=
    h.subset fun y hy => List.mem_of_mem_drop (List.mem_of_mem_take hy)
  obtain ⟨hfrom, hto⟩ := hcover
  rw [hmap, isolated_moved ht hmovable (by omega) (by omega)]

theorem dropped_take_moved {m : Nat} (hm : n ≤ m) (hlen : m ≤ stream.length) :
    Dropped t n ((stream.map (moved offset)).take m) i ↔ Dropped t n (stream.take m) i := by
  rw [← List.map_take]
  refine dropped_moved ht hn (h.subset (List.take_subset m stream)) ?_
  rw [List.length_take]
  omega

theorem flagged_moved (hlen : n ≤ stream.length) (hi : i < stream.length) :
    Flagged t n (stream.map (moved offset)) i ↔ Flagged t n stream i :=
  dropped_take_moved ht hn h (Nat.le_max_left ..) (Nat.max_le.mpr ⟨hlen, hi⟩)

theorem clearedBy_moved (hi : i < stream.length) (hlate : n ≤ i) :
    clearedBy t n (stream.map (moved offset)) i = clearedBy t n stream i := by
  unfold clearedBy
  congr 1
  funext j
  simp only [dropped_take_moved ht hn h hlate (Nat.le_of_lt hi),
    dropped_take_moved ht hn h (Nat.le_succ_of_le hlate) hi]

/-- A report is the same but for the sample that has been cleared, which is the moved one. -/
theorem report_moved (hi : i < stream.length) :
    report t n (stream.map (moved offset)) i = (report t n stream i).moved offset := by
  unfold report
  dsimp only
  by_cases hseed : i < n
  · rw [if_pos hseed, if_pos hseed]
    rfl
  · have hlate := Nat.le_of_not_lt hseed
    have hcleared : (clearedBy t n stream i).map ((stream.map (moved offset)).getD · 0) =
        ((clearedBy t n stream i).map (stream.getD · 0)).map (moved offset) := by
      rw [Option.map_map]
      refine Option.map_congr fun j hj => ?_
      have hlt := Nat.lt_trans (lt_of_clearedBy hj) hi
      simp [hlt]
    rw [if_neg hseed, if_neg hseed, clearedBy_moved ht hn h hi hlate, hcleared]
    simp only [flagged_moved ht hn h (Nat.le_of_lt (Nat.lt_of_le_of_lt hlate hi)) hi]
    split <;> rfl

theorem reports_moved :
    reports t n (stream.map (moved offset)) = (reports t n stream).map (Recorded.moved offset) := by
  unfold reports
  rw [List.length_map, List.map_map]
  exact List.map_congr_left fun i hi => report_moved ht hn h (List.mem_range.mp hi)

theorem stats_moved : stats t n (stream.map (moved offset)) = stats t n stream := by
  unfold stats accepted
  rw [List.length_map]
  by_cases hshort : stream.length < n
  · rw [if_pos hshort, if_pos hshort]
  · have hlen := Nat.le_of_not_lt hshort
    rw [if_neg hshort, if_neg hshort, RecorderStats.mk.injEq]
    have hflag := fun i (hi : i ∈ List.range stream.length) =>
      flagged_moved ht hn h hlen (List.mem_range.mp hi)
    refine ⟨rfl, List.countP_congr fun i hi => ?_, List.countP_congr fun i hi => ?_,
      List.countP_congr fun i hi => ?_⟩ <;>
    simp only [hflag i hi, dropped_moved ht hn h hlen]

theorem kept_moved (hlen : n ≤ stream.length) :
    kept t n (stream.map (moved offset)) = (kept t n stream).map (moved offset) := by
  have hplaces : keptPlaces t n (stream.map (moved offset)) = keptPlaces t n stream := by
    unfold keptPlaces
    rw [List.length_map]
    simp only [dropped_moved ht hn h hlen]
  unfold kept
  rw [hplaces, List.map_map]
  refine List.map_congr_left fun i hi => ?_
  simp [(mem_keptPlaces.mp hi).1]

end Moved

theorem kept_subset : kept t n stream ⊆ stream := by
  intro x hx
  obtain ⟨i, hi, rfl⟩ := List.mem_map.mp hx
  have hlt := (mem_keptPlaces.mp hi).1
  simp [hlt]

end Offline

/-! ## Runs -/

namespace Recorder

variable {n : Nat} {t : Float} {stream : List Int64} {r r' : Recorder}

/-- With a full window, the bins are those of the samples that the rule keeps. -/
theorem Running.bins {w : OutlierWindow} (h : Running r n t stream w) :
    (r.builder.finish h.numBins_pos).bins = runLengths (Offline.kept t n stream) :=
  (r.builder.bins_finish h.numBins_pos).trans
    ((Histogram.bins_eq_runLengths r.builder.histogram).trans (runLengths_perm h.inserted))

/-- The two recorders end alike: without a full window neither can be finished, and with one they
give distributions of which the second is the first moved. -/
theorem Recording.finish_moved (h : Recording r n t stream)
    (h' : Recording r' n t (stream.map (moved offset))) (hstats : r'.stats = r.stats) (hn : 2 ≤ n)
    (ht : OutlierWindow.validTolerance t = true) (hfits : Movable offset stream) :
    (stream.length < n → r.finish = .error (.notEnoughSamples stream.length n) ∧
        r'.finish = .error (.notEnoughSamples stream.length n)) ∧
      (n ≤ stream.length → ∃ run run', r.finish = .ok run ∧ r'.finish = .ok run' ∧
        run'.stats = run.stats ∧
        run'.distribution.bins = run.distribution.bins.map (Bin.moved offset)) := by
  have hlen : (stream.map (moved offset)).length = stream.length := List.length_map _
  rcases h with hseed | ⟨w, hrun⟩ <;> rcases h' with hseed' | ⟨w', hrun'⟩
  · have hshort := hseed.short
    exact ⟨fun _ => ⟨hseed.finish, hlen ▸ hseed'.finish⟩, fun hle => absurd hshort (by omega)⟩
  · exact absurd (hlen ▸ hrun'.marks.le) (Nat.not_le_of_lt hseed.short)
  · exact absurd (hlen ▸ hseed'.short) (Nat.not_lt_of_le hrun.marks.le)
  · have hle := hrun.marks.le
    have hkept := hfits.subset (Offline.kept_subset (t := t) (n := n))
    refine ⟨fun hshort => absurd hle (by omega), fun _ =>
      ⟨_, _, hrun.finish, hrun'.finish, hstats, ?_⟩⟩
    rw [hrun'.bins, hrun.bins, Offline.kept_moved ht hn hfits hle, hkept.runLengths]

/-- **Recording commutes with translation.** A stream and the stream moved get the same reports, but
that a cleared sample is the moved one, and the same counters after each sample. They end alike,
with the bins of one distribution those of the other moved. -/
theorem recordEach_moved (n : Nat) (t : Float) (offset : Int) (stream : List Int64) (hn : 3 ≤ n)
    (ht : OutlierWindow.validTolerance t = true) (hfits : Movable offset stream) :
    ∃ outs r r', (new n t).recordEach stream = .ok (outs, r) ∧
      (new n t).recordEach (stream.map (moved offset)) =
        .ok (outs.map (Recorded.moved offset), r') ∧
      r'.stats = r.stats ∧
      (∀ m, ∃ r₁ r₂, (new n t).recordEach (stream.take m) = .ok (outs.take m, r₁) ∧
        (new n t).recordEach ((stream.map (moved offset)).take m) =
          .ok ((outs.map (Recorded.moved offset)).take m, r₂) ∧
        r₂.stats = r₁.stats) ∧
      (stream.length < n → r.finish = .error (.notEnoughSamples stream.length n) ∧
        r'.finish = .error (.notEnoughSamples stream.length n)) ∧
      (n ≤ stream.length → ∃ run run', r.finish = .ok run ∧ r'.finish = .ok run' ∧
        run'.stats = run.stats ∧
        run'.distribution.bins = run.distribution.bins.map (Bin.moved offset)) := by
  have hn' : 2 ≤ n := Nat.le_of_succ_le hn
  obtain ⟨r, hok, hr, hstats⟩ := recordEach_by_rule hn' ht stream
  obtain ⟨r', hok', hr', hstats'⟩ := recordEach_by_rule hn' ht (stream.map (moved offset))
  rw [Offline.reports_moved ht hn' hfits] at hok'
  rw [Offline.stats_moved ht hn' hfits, ← hstats] at hstats'
  refine ⟨_, r, r', hok, hok', hstats', fun m => ?_, hr.finish_moved hr' hstats' hn' ht hfits⟩
  have hpart := hfits.subset (List.take_subset m stream)
  obtain ⟨r₁, hok₁, -, hstats₁⟩ := recordEach_by_rule hn' ht (stream.take m)
  obtain ⟨r₂, hok₂, -, hstats₂⟩ := recordEach_by_rule hn' ht ((stream.take m).map (moved offset))
  rw [Offline.reports_take] at hok₁
  rw [Offline.reports_moved ht hn' hpart, Offline.reports_take, List.map_take,
    List.map_take] at hok₂
  rw [Offline.stats_moved ht hn' hpart, ← hstats₁] at hstats₂
  exact ⟨r₁, r₂, hok₁, hok₂, hstats₂⟩

/-- A stream from the least sample up. Its peak comes twice. -/
def fromLeast : List Int64 :=
  [-9223372036854775808, -9223372036854775807, -9223372036854775708, -9223372036854775806,
    -9223372036854775708, -9223372036854775750]

/-- Moved to the upper end, the peak is at the greatest sample and the last bound is brought back
into range. The first peak is still flagged, and still cleared by the second. -/
theorem recordEach_moved_across :
    let high : List Int64 := [9223372036854775707, 9223372036854775708, 9223372036854775807,
      9223372036854775709, 9223372036854775807, 9223372036854775765]
    let bound := fun r : Recorder => r.window.map OutlierWindow.upperTolerance
    ∃ outs r r' run run', (new 3 1).recordEach fromLeast = .ok (outs, r) ∧
      outs[4]? = some (.accepted (some (-9223372036854775708))) ∧
      (new 3 1).recordEach high = .ok (outs.map (Recorded.moved 18446744073709551515), r') ∧
      bound r = some (-9223372036854775610) ∧ bound r' = some Int64.maxValue ∧
      r.stats.rejected = 1 ∧ r'.stats = r.stats ∧
      r.finish = .ok run ∧ r'.finish = .ok run' ∧ run'.distribution.bins =
        run.distribution.bins.map (Bin.moved 18446744073709551515) := by
  intro high bound
  have hhigh : fromLeast.map (moved 18446744073709551515) = high := by decide
  obtain ⟨outs, r, r', hok, hok', hstats, -, -, hfull⟩ :=
    recordEach_moved 3 1 18446744073709551515 fromLeast (by decide) (by decide +kernel)
      (by decide +kernel)
  obtain ⟨run, run', hfinish, hfinish', -, hbins⟩ := hfull (by decide)
  have hseen : ((new 3 1).recordEach fromLeast).toOption.map (fun p =>
        (p.1[4]?, bound p.2, p.2.stats.rejected)) =
      some (some (.accepted (some (-9223372036854775708))), some (-9223372036854775610), 1) := by
    decide +kernel
  have hseen' : ((new 3 1).recordEach
      (fromLeast.map (moved 18446744073709551515))).toOption.map (fun p => bound p.2) =
      some (some Int64.maxValue) := by decide +kernel
  rw [hok] at hseen
  rw [hok'] at hseen'
  rw [hhigh] at hok'
  obtain ⟨hout, hrest⟩ := Prod.mk.inj (Option.some.inj hseen)
  obtain ⟨hbound, hrejected⟩ := Prod.mk.inj hrest
  exact ⟨outs, r, r', run, run', hok, hout, hok', hbound, Option.some.inj hseen', hrejected, hstats,
    hfinish, hfinish', hbins⟩

end Recorder
end TimingStats
