import TimingStats.Proofs.Recorder.Reports

/-! # Fates of samples

What becomes of a sample can be read off the run: from its report or the flag on the first window,
and from where the flag is when a later report says that it has been cleared. The rule tells the
same of all samples at once. -/

namespace TimingStats.Recorder

open Offline (Dropped Flagged keptPlaces)

variable {r : Recorder} {n : Nat} {t : Float} {stream : List Int64} {i j m : Nat}

/-- The place in the stream of the sample that carries the flag, once some number of samples have
been recorded. -/
def flaggedPlace (r : Recorder) (count : Nat) : Option Nat :=
  r.window.bind fun w => w.view.flag.map (count - w.samples.length + ·)

/-- A sample is flagged on arrival if it is rejected, or if the first window opens with the flag on
it. -/
def Flags (n : Nat) (t : Float) (stream : List Int64) (i : Nat) : Prop :=
  (∃ outs r cleared, (new n t).recordEach stream = .ok (outs, r) ∧
      outs[i]? = some (.rejected cleared)) ∨
    (i < n ∧ ∃ r, (new n t).recordAll (stream.take n) = .ok r ∧ r.flaggedPlace n = some i)

/-- A sample clears an earlier one if that carries the flag and the report has it that the flagged
sample is cleared. -/
def Clears (n : Nat) (t : Float) (stream : List Int64) (i j : Nat) : Prop :=
  ∃ r x out r', (new n t).recordAll (stream.take j) = .ok r ∧ r.flaggedPlace j = some i ∧
    stream[j]? = some x ∧ r.record x = .ok (out, r') ∧ out.cleared ≠ none

/-- A sample is lost if it is flagged on arrival and nothing clears it. -/
def Loses (n : Nat) (t : Float) (stream : List Int64) (i : Nat) : Prop :=
  Flags n t stream i ∧ ∀ j, ¬ Clears n t stream i j

/-- A finished run with the places of the samples in its distribution: those that are not lost. -/
structure Finished (n : Nat) (t : Float) (stream : List Int64) (run : RecordedRun)
    (places : List Nat) : Prop where
  finished : ∃ outs r, (new n t).recordEach stream = .ok (outs, r) ∧ r.finish = .ok run
  once : places.Nodup
  mem : ∀ i, i ∈ places ↔ i < stream.length ∧ ¬ Loses n t stream i
  observations : run.distribution.histogram.observations.Perm (places.map (stream.getD · 0))

/-! ## The flag -/

theorem Running.flaggedPlace_eq {w : OutlierWindow} (h : Running r n t stream w) :
    r.flaggedPlace stream.length = w.view.flag.map (stream.length - n + ·) := by
  have hsize : w.samples.length = n :=
    (OutlierWindow.length_recent h.sound.oldest_lt).symm.trans h.marks.length
  unfold flaggedPlace
  rw [h.window, Option.bind_some, hsize]

/-- With a full window the flag is on the one sample that is dropped so far and still in it. -/
theorem Running.flaggedPlace_iff {w : OutlierWindow} (h : Running r n t stream w) :
    r.flaggedPlace stream.length = some i ↔
      stream.length - n ≤ i ∧ i < stream.length ∧ Dropped t n stream i := by
  have hle := h.marks.le
  rw [h.flaggedPlace_eq, Option.map_eq_some_iff]
  constructor
  · rintro ⟨p, hp, rfl⟩
    obtain ⟨hlt, hd⟩ := (h.marks.flag p).mp hp
    exact ⟨Nat.le_add_right .., by omega, hd⟩
  · rintro ⟨hge, hlt, hd⟩
    obtain ⟨p, rfl⟩ := Nat.exists_eq_add_of_le hge
    exact ⟨p, (h.marks.flag p).mpr ⟨by omega, hd⟩, rfl⟩

/-- A step that reports a cleared sample clears the one with the flag. -/
theorem Running.cleared_iff {w : OutlierWindow} (h : Running r n t stream w) (hn : 2 ≤ n)
    (ht : OutlierWindow.validTolerance t = true) (x : Int64) :
    ∃ out r', r.record x = .ok (out, r') ∧
      ((r.flaggedPlace stream.length = some i ∧ out.cleared ≠ none) ↔
        i < stream.length ∧ Dropped t n stream i ∧ ¬ Dropped t n (stream ++ [x]) i) := by
  obtain ⟨w', hok, -, -⟩ := h.record hn ht x
  refine ⟨((r.advanced w').settle x (w.view.verdict t x)).1, _, hok, ?_⟩
  rw [← h.marks.newlyKept_iff hn (highest_normals_lt h.sound) x i, settle_cleared,
    h.flaggedPlace_eq]
  unfold Offline.newlyKept
  split <;> simp [*]

section Rule

variable (hn : 2 ≤ n) (ht : OutlierWindow.validTolerance t = true)
include hn ht

theorem recordAll_take (hm : n ≤ m) (hlen : m ≤ stream.length) :
    ∃ r w, (new n t).recordAll (stream.take m) = .ok r ∧ Running r n t (stream.take m) w := by
  obtain ⟨r, hok, hrec, -⟩ := recordEach_by_rule hn ht (stream.take m)
  rcases hrec with hseed | ⟨w, hrun⟩
  · have hshort := hseed.short
    rw [List.length_take] at hshort
    omega
  · exact ⟨r, w, recordAll_of_recordEach hok, hrun⟩

/-- Before the first window is full nothing carries a flag. -/
theorem window_take_of_lt (hm : m < n) (hok : (new n t).recordAll (stream.take m) = .ok r) :
    r.window = none := by
  obtain ⟨r', hok', hrec, -⟩ := recordEach_by_rule hn ht (stream.take m)
  obtain rfl := Except.ok.inj (hok.symm.trans (recordAll_of_recordEach hok'))
  rcases hrec with hseed | ⟨w, hrun⟩
  · exact hseed.window
  · have hle := hrun.marks.le
    rw [List.length_take] at hle
    omega

theorem flaggedPlace_take (hm : n ≤ m) (hlen : m ≤ stream.length)
    (hok : (new n t).recordAll (stream.take m) = .ok r) :
    r.flaggedPlace m = some i ↔ m - n ≤ i ∧ i < m ∧ Dropped t n (stream.take m) i := by
  obtain ⟨r', w, hok', hrun⟩ := recordAll_take hn ht hm hlen
  obtain rfl := Except.ok.inj (hok.symm.trans hok')
  have hiff := hrun.flaggedPlace_iff (i := i)
  rwa [List.length_take, Nat.min_eq_left hlen] at hiff

/-- The step that records a sample of the stream, and what it clears. -/
theorem record_take (hnj : n ≤ j) (hj : j < stream.length) : ∃ r out r',
    (new n t).recordAll (stream.take j) = .ok r ∧ r.record stream[j] = .ok (out, r') ∧
      ((r.flaggedPlace j = some i ∧ out.cleared ≠ none) ↔
        i < j ∧ Dropped t n (stream.take j) i ∧ ¬ Dropped t n (stream.take (j + 1)) i) := by
  obtain ⟨r, w, hok, hrun⟩ := recordAll_take hn ht hnj (Nat.le_of_lt hj)
  obtain ⟨out, r', hrecord, hiff⟩ := hrun.cleared_iff hn ht stream[j] (i := i)
  rw [List.length_take, Nat.min_eq_left (Nat.le_of_lt hj), ← List.take_succ_eq_append_getElem hj]
    at hiff
  exact ⟨r, out, r', hok, hrecord, hiff⟩

/-- A sample is cleared at the step from which on it is no longer dropped. -/
theorem clears_iff : Clears n t stream i j ↔ n ≤ j ∧ j < stream.length ∧ i < j ∧
    Dropped t n (stream.take j) i ∧ ¬ Dropped t n (stream.take (j + 1)) i := by
  constructor
  · rintro ⟨r, x, out, r', hok, hplace, hx, hrecord, hcleared⟩
    obtain ⟨hj, rfl⟩ := List.getElem?_eq_some_iff.mp hx
    have hnj : n ≤ j := by
      by_contra hshort
      have hnone := window_take_of_lt hn ht (Nat.lt_of_not_le hshort) hok
      rw [flaggedPlace, hnone] at hplace
      cases hplace
    obtain ⟨r₁, out₁, r₁', hok₁, hrecord₁, hiff⟩ := record_take hn ht hnj hj
    obtain rfl := Except.ok.inj (hok.symm.trans hok₁)
    obtain ⟨rfl, rfl⟩ := Prod.mk.inj (Except.ok.inj (hrecord.symm.trans hrecord₁))
    exact ⟨hnj, hj, hiff.mp ⟨hplace, hcleared⟩⟩
  · rintro ⟨hnj, hj, hcleared⟩
    obtain ⟨r, out, r', hok, hrecord, hiff⟩ := record_take hn ht hnj hj
    obtain ⟨hplace, hout⟩ := hiff.mpr hcleared
    exact ⟨r, stream[j], out, r', hok, hplace, List.getElem?_eq_getElem hj, hrecord, hout⟩

theorem rejected_iff : (∃ outs r cleared, (new n t).recordEach stream = .ok (outs, r) ∧
    outs[i]? = some (.rejected cleared)) ↔ n ≤ i ∧ i < stream.length ∧ Flagged t n stream i := by
  obtain ⟨r, hok, -, -⟩ := recordEach_by_rule hn ht stream
  rw [and_left_comm, ← Offline.report_rejected_iff]
  constructor
  · rintro ⟨outs, r', cleared, hok', hi⟩
    obtain ⟨rfl, rfl⟩ := Prod.mk.inj (Except.ok.inj (hok.symm.trans hok'))
    obtain ⟨hlt, heq⟩ := Offline.getElem?_reports.mp hi
    exact ⟨hlt, cleared, heq⟩
  · rintro ⟨hlt, cleared, heq⟩
    exact ⟨_, r, cleared, hok, Offline.getElem?_reports.mpr ⟨hlt, heq⟩⟩

variable (hlen : n ≤ stream.length)
include hlen

theorem opened_flag_iff (hi : i < n) : (∃ r, (new n t).recordAll (stream.take n) = .ok r ∧
    r.flaggedPlace n = some i) ↔ Flagged t n stream i := by
  obtain ⟨r, -, hok, -⟩ := recordAll_take hn ht (Nat.le_refl n) hlen
  rw [Flagged, Nat.max_eq_left hi]
  constructor
  · rintro ⟨r', hok', hplace⟩
    exact ((flaggedPlace_take hn ht (Nat.le_refl n) hlen hok').mp hplace).2.2
  · intro hd
    exact ⟨r, hok, (flaggedPlace_take hn ht (Nat.le_refl n) hlen hok).mpr ⟨by omega, hi, hd⟩⟩

theorem flags_iff : Flags n t stream i ↔ i < stream.length ∧ Flagged t n stream i := by
  rw [Flags, rejected_iff hn ht]
  constructor
  · rintro (⟨-, hlt, hf⟩ | ⟨hi, hflag⟩)
    · exact ⟨hlt, hf⟩
    · exact ⟨by omega, (opened_flag_iff hn ht hlen hi).mp hflag⟩
  · rintro ⟨hlt, hf⟩
    rcases Nat.lt_or_ge i n with hi | hi
    · exact .inr ⟨hi, (opened_flag_iff hn ht hlen hi).mpr hf⟩
    · exact .inl ⟨hi, hlt, hf⟩

theorem loses_iff : Loses n t stream i ↔ i < stream.length ∧ Dropped t n stream i := by
  have hclears : ∀ j, Clears n t stream i j ↔ _ := fun j => clears_iff hn ht
  unfold Loses
  simp only [flags_iff hn ht hlen, hclears]
  constructor
  · rintro ⟨⟨hi, hf⟩, hnever⟩
    refine ⟨hi, hf.dropped hlen hi fun j hnj hj hij hd => ?_⟩
    by_contra hkept
    exact hnever j ⟨hnj, hj, hij, hd, hkept⟩
  · rintro ⟨hi, hd⟩
    refine ⟨⟨hi, hd.flagged hlen hi⟩, ?_⟩
    rintro j ⟨hnj, hj, -, -, hkept⟩
    exact hkept (hd.take (Nat.le_succ_of_le hnj) hj)

/-- A run that fills the window finishes with the places that the rule keeps. -/
theorem finished : ∃ run, Finished n t stream run (keptPlaces t n stream) := by
  obtain ⟨r, hok, hrec, -⟩ := recordEach_by_rule hn ht stream
  rcases hrec with hseed | ⟨w, hrun⟩
  · exact absurd hseed.short (by omega)
  · refine ⟨_, ⟨_, r, hok, hrun.finish⟩, Offline.nodup_keptPlaces, fun i => ?_, ?_⟩
    · rw [Offline.mem_keptPlaces, loses_iff hn ht hlen, not_and]
      exact and_congr_right fun hi => ⟨fun hk _ => hk, fun hk => hk hi⟩
    · rw [Builder.observations_finish]
      exact hrun.inserted

end Rule

end TimingStats.Recorder
