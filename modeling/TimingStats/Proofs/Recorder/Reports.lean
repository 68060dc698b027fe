import TimingStats.Proofs.Recorder.Counters

/-! # Reports by the rule

The rule for whole streams also says what is reported of a sample: apply it to the stream as far as
it has come. A sample is flagged on arrival if it is dropped then, and it clears an earlier one that
is no longer dropped. The counters count such places. So whatever holds of the rule for all streams
holds of every step of a recorder. -/

namespace TimingStats

namespace Offline

variable {t : Float} {n : Nat} {stream later : List Int64} {x : Int64} {i m : Nat}

/-- A sample is flagged on arrival if it is dropped as far as the stream goes then. The samples of
the first window arrive together. -/
def Flagged (t : Float) (n : Nat) (stream : List Int64) (i : Nat) : Prop :=
  Dropped t n (stream.take (max n (i + 1))) i

instance (t : Float) (n : Nat) (stream : List Int64) (i : Nat) :
    Decidable (Flagged t n stream i) := inferInstanceAs (Decidable (Dropped ..))

/-- The place of the sample that is no longer dropped when the one at a place arrives. -/
def clearedBy (t : Float) (n : Nat) (stream : List Int64) (i : Nat) : Option Nat :=
  (List.range i).find? fun j =>
    Dropped t n (stream.take i) j ∧ ¬ Dropped t n (stream.take (i + 1)) j

/-- What becomes of the sample at a place when it arrives. -/
def report (t : Float) (n : Nat) (stream : List Int64) (i : Nat) : Recorded :=
  let cleared := (clearedBy t n stream i).map (stream.getD · 0)
  if i < n then .seeding
  else if Flagged t n stream i then .rejected cleared
  else .accepted cleared

def reports (t : Float) (n : Nat) (stream : List Int64) : List Recorded :=
  (List.range stream.length).map (report t n stream)

/-- How many samples are let through on arrival. -/
def accepted (t : Float) (n : Nat) (stream : List Int64) : Nat :=
  (List.range stream.length).countP fun i => ¬ Flagged t n stream i

def stats (t : Float) (n : Nat) (stream : List Int64) : RecorderStats :=
  if stream.length < n then ⟨stream.length, 0, 0, 0⟩
  else
    { recorded := stream.length
      accepted := accepted t n stream
      rejected := (List.range stream.length).countP fun i => Flagged t n stream i
      rehabilitated := (List.range stream.length).countP fun i =>
        ¬ Dropped t n stream i ∧ Flagged t n stream i }

/-! ## Earlier parts of a stream -/

theorem samples_take {b : Block} (h : b.start + b.length ≤ m) :
    b.samples (stream.take m) = b.samples stream := by
  unfold Block.samples
  rw [List.drop_take, List.take_take, Nat.min_eq_left (by omega)]

/-- What the whole stream drops, it dropped all along. -/
theorem Dropped.take (h : Dropped t n stream i) (hn : n ≤ m) (hm : m ≤ stream.length) :
    Dropped t n (stream.take m) i := by
  intro b hb hcover
  rw [List.length_take, Nat.min_eq_left hm] at hb
  rw [samples_take (end_le_of_mem_blocks hn hb)]
  refine h b ?_ hcover
  unfold blocks at hb ⊢
  rcases List.mem_cons.mp hb with rfl | hb
  · exact List.mem_cons_self
  · obtain ⟨start, hstart, rfl⟩ := List.mem_map.mp hb
    rw [List.mem_range] at hstart
    exact List.mem_cons_of_mem _ (List.mem_map_of_mem (List.mem_range.mpr (by omega)))

theorem Dropped.flagged (h : Dropped t n stream i) (hn : n ≤ stream.length)
    (hi : i < stream.length) : Flagged t n stream i :=
  h.take (Nat.le_max_left _ _) (Nat.max_le.mpr ⟨hn, hi⟩)

/-- What is flagged on arrival stays dropped, if no later sample clears it. -/
theorem Flagged.dropped (h : Flagged t n stream i) (hn : n ≤ stream.length)
    (hi : i < stream.length)
    (hstays : ∀ j, n ≤ j → j < stream.length → i < j → Dropped t n (stream.take j) i →
      Dropped t n (stream.take (j + 1)) i) : Dropped t n stream i := by
  have hdropped : ∀ m, max n (i + 1) ≤ m → m ≤ stream.length →
      Dropped t n (stream.take m) i := by
    intro m hm
    induction m, hm using Nat.le_induction with
    | base => exact fun _ => h
    | succ m hm ih =>
      intro hle
      exact hstays m (by omega) (by omega) (by omega) (ih (by omega))
  have hall := hdropped stream.length (by omega) (Nat.le_refl _)
  rwa [List.take_length] at hall

theorem flagged_append (hn : n ≤ stream.length) (hi : i < stream.length) :
    Flagged t n (stream ++ later) i ↔ Flagged t n stream i := by
  unfold Flagged
  rw [List.take_append_of_le_length (Nat.max_le.mpr ⟨hn, hi⟩)]

/-- In the first window flagged and dropped are the same. -/
theorem flagged_window (h : stream.length = n) (hi : i < n) :
    Flagged t n stream i ↔ Dropped t n stream i := by
  unfold Flagged
  rw [Nat.max_eq_left hi, List.take_of_length_le (Nat.le_of_eq h)]

theorem clearedBy_append (hi : i < stream.length) :
    clearedBy t n (stream ++ later) i = clearedBy t n stream i := by
  unfold clearedBy
  rw [List.take_append_of_le_length hi, List.take_append_of_le_length (Nat.le_of_lt hi)]

theorem lt_of_clearedBy {j : Nat} (h : clearedBy t n stream i = some j) : j < i :=
  List.mem_range.mp (List.mem_of_find?_eq_some h)

theorem report_rejected_iff :
    (∃ cleared, report t n stream i = .rejected cleared) ↔ n ≤ i ∧ Flagged t n stream i := by
  rw [← Nat.not_lt]
  unfold report
  dsimp only
  split
  · simp [*]
  · split <;> simp [*]

theorem getElem?_reports {out : Recorded} :
    (reports t n stream)[i]? = some out ↔ i < stream.length ∧ report t n stream i = out := by
  unfold reports
  rw [List.getElem?_map, Option.map_eq_some_iff]
  constructor
  · rintro ⟨j, hj, rfl⟩
    obtain ⟨hlt, rfl⟩ := List.getElem?_eq_some_iff.mp hj
    rw [List.length_range] at hlt
    rw [List.getElem_range]
    exact ⟨hlt, rfl⟩
  · rintro ⟨hlt, rfl⟩
    exact ⟨i, List.getElem?_range hlt, rfl⟩

/-- A report does not depend on what comes later. -/
theorem report_append (later : List Int64) (hi : i < stream.length) :
    report t n (stream ++ later) i = report t n stream i := by
  have hcleared : (clearedBy t n stream i).map ((stream ++ later).getD · 0) =
      (clearedBy t n stream i).map (stream.getD · 0) := by
    refine Option.map_congr fun j hj => ?_
    have hlt := Nat.lt_trans (lt_of_clearedBy hj) hi
    simp [List.getElem?_append_left hlt]
  unfold report
  dsimp only
  rw [clearedBy_append hi, hcleared]
  by_cases hseed : i < n
  · rw [if_pos hseed, if_pos hseed]
  · simp only [flagged_append (Nat.le_of_not_lt (by omega : ¬ stream.length < n)) hi]

theorem reports_take (t : Float) (n m : Nat) (stream : List Int64) :
    reports t n (stream.take m) = (reports t n stream).take m := by
  unfold reports
  rw [← List.map_take, List.take_range, List.length_take, Nat.min_comm m]
  refine List.map_congr_left fun i hi => ?_
  have hlt : i < (stream.take m).length := by
    rw [List.length_take, Nat.min_comm]
    exact List.mem_range.mp hi
  rw [← report_append (stream.drop m) hlt, List.take_append_drop]

theorem length_keptPlaces (t : Float) (n : Nat) (stream : List Int64) :
    (keptPlaces t n stream).length =
      (List.range stream.length).countP fun i => ¬ Dropped t n stream i :=
  List.countP_eq_length_filter.symm

/-- Of the samples that are kept, some were let through on arrival and the others later. -/
theorem length_kept_eq (hn : n ≤ stream.length) :
    (kept t n stream).length = accepted t n stream +
      (List.range stream.length).countP fun i => ¬ Dropped t n stream i ∧ Flagged t n stream i := by
  have hsplit := List.countP_eq_countP_filter_add (List.range stream.length)
    (fun i => decide (¬ Dropped t n stream i)) fun i => decide (¬ Flagged t n stream i)
  rw [List.countP_filter, List.countP_filter] at hsplit
  rw [kept, List.length_map, length_keptPlaces, hsplit]
  refine congrArg₂ (· + ·) (List.countP_congr fun i hi => ?_) (List.countP_congr fun i _ => ?_)
  · have hflagged := fun h : Dropped t n stream i => h.flagged hn (List.mem_range.mp hi)
    simp only [Bool.and_eq_true, decide_eq_true_eq]
    exact and_iff_right_of_imp (mt hflagged)
  · simp

/-! ## One sample more -/

section Newest

variable {r : Reference} (h : Marks r t n stream) (hn : 2 ≤ n)
  (habove : ∀ o ∈ r.outlier, Reference.highest r.normals < o)
include h

theorem Marks.flagged_newest :
    Flagged t n (stream ++ [x]) stream.length ↔ (r.verdict t x).isOutlier = true := by
  have hall : (stream ++ [x]).take (max n (stream.length + 1)) = stream ++ [x] :=
    List.take_of_length_le (by simp)
  rw [Flagged, hall, h.dropped_newest]

theorem Marks.accepted_append :
    accepted t n (stream ++ [x]) =
      accepted t n stream + (if (r.verdict t x).isOutlier then 0 else 1) := by
  unfold accepted
  rw [List.length_append, List.length_singleton, List.range_succ, List.countP_append]
  refine congrArg₂ (· + ·) (List.countP_congr fun i hi => ?_) ?_
  · simp only [flagged_append h.le (List.mem_range.mp hi)]
  · rw [List.countP_singleton]
    simp only [h.flagged_newest]
    cases (r.verdict t x).isOutlier <;> rfl

include hn habove

theorem Marks.clearedBy_newest :
    clearedBy t n (stream ++ [x]) stream.length = newlyKept t n stream r x := by
  have hiff := h.newlyKept_iff hn habove x
  have hall : (stream ++ [x]).take (stream.length + 1) = stream ++ [x] :=
    List.take_of_length_le (by simp)
  unfold clearedBy
  rw [hall, List.take_left]
  cases hfind : (List.range stream.length).find? fun j =>
      decide (Dropped t n stream j ∧ ¬ Dropped t n (stream ++ [x]) j) with
  | some j =>
    have hnew := List.find?_some hfind
    rw [decide_eq_true_eq] at hnew
    exact ((hiff j).mpr ⟨List.mem_range.mp (List.mem_of_find?_eq_some hfind), hnew⟩).symm
  | none =>
    rw [List.find?_eq_none] at hfind
    refine (Option.eq_none_iff_forall_ne_some.mpr fun j hj => ?_).symm
    obtain ⟨hlt, hnew⟩ := (hiff j).mp hj
    exact hfind j (List.mem_range.mpr hlt) (decide_eq_true hnew)

/-- The verdict over a sample is the report that the rule makes of it. -/
theorem Marks.report_newest :
    report t n (stream ++ [x]) stream.length =
      if (r.verdict t x).isOutlier then .rejected (r.verdict t x).cleared
      else .accepted (r.verdict t x).cleared := by
  have hcleared : (newlyKept t n stream r x).map ((stream ++ [x]).getD · 0) =
      (r.verdict t x).cleared := by
    rw [← h.map_newlyKept x]
    exact Option.map_congr fun j hj => getD_append_of_lt ((h.newlyKept_iff hn habove x j).mp hj).1
  unfold report
  dsimp only
  rw [h.clearedBy_newest hn habove, hcleared, if_neg (Nat.not_lt.mpr h.le)]
  simp only [h.flagged_newest]

end Newest

end Offline

namespace Recorder

open Offline (Dropped Flagged report reports accepted)

variable {r : Recorder} {n : Nat} {t : Float} {stream : List Int64}

/-! ## States -/

/-- A recorder whose counters are those of the rule. The samples let through on arrival are counted;
the other counters follow from them and from what is kept. -/
def Judged (r : Recorder) (n : Nat) (t : Float) (stream : List Int64) : Prop :=
  (Seeding r n t stream ∧ r.stats = ⟨stream.length, 0, 0, 0⟩) ∨
    ∃ w lost, Running r n t stream w ∧ Counted r n stream.length lost ∧
      r.stats.accepted = accepted t n stream

theorem judged_new (hn : 0 < n) : Judged (new n t) n t [] := .inl ⟨seeding_new hn, rfl⟩

theorem Judged.recording (h : Judged r n t stream) : Recording r n t stream := by
  rcases h with ⟨h, -⟩ | ⟨w, -, h, -⟩
  · exact .inl h
  · exact .inr ⟨w, h⟩

theorem Judged.tallied (h : Judged r n t stream) : ∃ lost, Tallied r n t stream lost := by
  rcases h with ⟨hseed, hstats⟩ | ⟨w, lost, hrun, hcounted, -⟩
  · exact ⟨0, .inl ⟨hseed, hstats, rfl⟩⟩
  · exact ⟨lost, .inr ⟨w, hrun, hcounted⟩⟩

/-- What a first window lets through is what the rule keeps of it. -/
theorem accepted_opened {w : OutlierWindow} (h : Running (r.opened w) n t stream w)
    (hs : w.samples = stream) (hlen : stream.length = n)
    (hstats : r.stats = ⟨stream.length, 0, 0, 0⟩) (hins : r.inserted = []) :
    (r.opened w).stats.accepted = accepted t n stream := by
  have hsize := (counted_opened h hs hlen hstats hins).size
  rw [size_eq_length, h.inserted.length_eq, RecorderStats.kept] at hsize
  have hback : (r.opened w).stats.rehabilitated = 0 :=
    (stats_insertSeed r w.outlier w.samples).2.1.trans (congrArg RecorderStats.rehabilitated hstats)
  have hkept : (Offline.kept t n stream).length = accepted t n stream := by
    rw [Offline.kept, List.length_map, Offline.length_keptPlaces]
    refine List.countP_congr fun i hi => ?_
    simp only [Offline.flagged_window hlen (hlen ▸ List.mem_range.mp hi)]
  omega

theorem Judged.record (h : Judged r n t stream) (hn : 2 ≤ n)
    (ht : OutlierWindow.validTolerance t = true) (x : Int64) :
    ∃ r', r.record x = .ok (report t n (stream ++ [x]) stream.length, r') ∧
      Judged r' n t (stream ++ [x]) := by
  have hlen : (stream ++ [x]).length = stream.length + 1 := by simp
  rcases h with ⟨hseed, hstats⟩ | ⟨w, lost, hrun, hcounted, hacc⟩
  · have hreport : report t n (stream ++ [x]) stream.length = .seeding := if_pos hseed.short
    have hstats' : (r.stored x).stats = ⟨(stream ++ [x]).length, 0, 0, 0⟩ := by
      rw [stored, hstats, hlen]
    rw [hreport]
    rcases hseed.record hn ht x with ⟨hok, hseed'⟩ | ⟨w, hok, hs, hrun⟩
    · exact ⟨_, hok, .inl ⟨hseed', hstats'⟩⟩
    · have hfull : (stream ++ [x]).length = n := by
        have hshort := hseed.short
        have hle := hrun.marks.le
        omega
      exact ⟨_, hok, .inr ⟨w, 0, hrun, counted_opened hrun hs hfull hstats' hseed.inserted,
        accepted_opened hrun hs hfull hstats' hseed.inserted⟩⟩
  · obtain ⟨w', hok, hview, hrun'⟩ := hrun.record hn ht x
    have hreport := hrun.marks.report_newest hn (highest_normals_lt hrun.sound) (x := x)
    have hacc' := congrArg RecorderStats.accepted
      (stats_settle (r.advanced w') x (w.view.verdict t x))
    refine ⟨_, ?_, .inr ⟨w', _, hrun', hcounted.settle hrun hn ht x hview, ?_⟩⟩
    · rw [hok, hreport, ← settle_report (r.advanced w')]
    · rw [hacc', hrun.marks.accepted_append, ← hacc]
      rfl

theorem Judged.recordEach (h : Judged r n t stream) (hn : 2 ≤ n)
    (ht : OutlierWindow.validTolerance t = true) (xs : List Int64) :
    ∃ r', r.recordEach xs = .ok ((List.range' stream.length xs.length).map
      (report t n (stream ++ xs)), r') ∧ Judged r' n t (stream ++ xs) := by
  induction xs generalizing r stream with
  | nil => exact ⟨r, rfl, by simpa using h⟩
  | cons x xs ih =>
    obtain ⟨r1, hok, h1⟩ := h.record hn ht x
    obtain ⟨r2, hrest, h2⟩ := ih h1
    have hfirst : report t n (stream ++ [x]) stream.length =
        report t n (stream ++ x :: xs) stream.length := by
      rw [← Offline.report_append xs (by simp)]
      simp
    refine ⟨r2, ?_, by simpa using h2⟩
    rw [recordEach_cons hok hrest, hfirst]
    simp [List.range'_succ]

theorem Judged.stats (h : Judged r n t stream) : r.stats = Offline.stats t n stream := by
  unfold Offline.stats
  rcases h with ⟨hseed, hstats⟩ | ⟨w, lost, hrun, ⟨hrec, hjudged, -, hsize, -⟩, hacc⟩
  · rw [if_pos hseed.short, hstats]
  · have hn := hrun.marks.le
    have hkept := Offline.length_kept_eq (t := t) hn
    have hcount := (List.range stream.length).length_eq_countP_add_countP fun i =>
      decide (Flagged t n stream i)
    have hnot : (List.range stream.length).countP (fun i => decide ¬ Flagged t n stream i) =
        accepted t n stream := rfl
    simp only [List.length_range, decide_eq_true_eq] at hcount
    rw [size_eq_length, hrun.inserted.length_eq, RecorderStats.kept] at hsize
    rw [if_neg (Nat.not_lt.mpr hn)]
    have hrej : r.stats.rejected =
        (List.range stream.length).countP fun i => decide (Flagged t n stream i) := by omega
    have hback : r.stats.rehabilitated = (List.range stream.length).countP fun i =>
        decide (¬ Dropped t n stream i ∧ Flagged t n stream i) := by omega
    rw [← hacc, ← hrej, ← hback, ← hrec]

/-! ## Runs -/

/-- A run makes the reports of the rule, and its counters are those of the rule. -/
theorem recordEach_judged (hn : 2 ≤ n) (ht : OutlierWindow.validTolerance t = true)
    (stream : List Int64) :
    ∃ r, (new n t).recordEach stream = .ok (reports t n stream, r) ∧ Judged r n t stream := by
  obtain ⟨r, hok, h⟩ := (judged_new (t := t) (by omega : 0 < n)).recordEach hn ht stream
  rw [List.nil_append] at hok h
  refine ⟨r, ?_, h⟩
  rw [hok, reports, List.range_eq_range']
  rfl

/-- **A run is told by the rule**: its reports, its counters, and whether it can be finished. -/
theorem recordEach_by_rule (hn : 2 ≤ n) (ht : OutlierWindow.validTolerance t = true)
    (stream : List Int64) :
    ∃ r, (new n t).recordEach stream = .ok (reports t n stream, r) ∧
      Recording r n t stream ∧ r.stats = Offline.stats t n stream := by
  obtain ⟨r, hok, h⟩ := recordEach_judged hn ht stream
  exact ⟨r, hok, h.recording, h.stats⟩

end Recorder
end TimingStats
