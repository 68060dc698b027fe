import TimingStats.Proofs.Bencher.Calls

/-! # What a bencher counts

The counters of a bencher are those of its calls, whatever the stopwatch reads: one sample for each
timed routine, and the warm-ups besides. The first samples fill the window of the recorder, so the
calls that make them answer so. With a full window the bencher can be finished, and the result says
what the counters say. -/

namespace TimingStats

namespace Offline

variable {t : Float} {n : Nat} {stream : List Int64} {i : Nat}

theorem report_seeding_iff : report t n stream i = .seeding ↔ i < n := by
  unfold report
  dsimp only
  split
  · simp [*]
  · split <;> simp [*]

theorem stats_recorded : (stats t n stream).recorded = stream.length := by
  unfold stats
  split <;> rfl

end Offline

/-- A result says what the counters of its bencher say: all durations are recorded, and those that
are kept are summarised. The sums and differences of counters can be taken. -/
structure BenchmarkResult.Agrees (result : BenchmarkResult) (b : Bencher) : Prop where
  iterations : result.iterations = b.iterations
  stats : result.run.stats = b.stats
  recorded : result.run.stats.recorded = b.measured
  sampleCount : result.summary.sampleCount = result.run.distribution.size
  size : result.run.distribution.size = result.run.stats.kept
  settled : result.run.stats.kept + result.run.stats.dropped = b.measured
  countDropped : result.run.stats.countDropped = .ok result.run.stats.dropped
  countKept : b.measured < UInt64.size → result.run.stats.countKept = .ok result.run.stats.kept

namespace Bencher

open Offline (report reports)
open Recorder (Judged)

variable {m : Type → Type} {n : Nat} {t : Float} {b : Bencher} {stream : List Int64}

/-- The state of a bencher after some calls, with what they answered. -/
structure Accounted (n : Nat) (t : Float) (calls : List (Call m)) (ds : List Int64)
    (answers : List (Option Recorded)) (b : Bencher) : Prop where
  measured : b.measured = timed calls
  /-- There are never more warm-ups than iterations. -/
  countMeasured : b.countMeasured = .ok b.measured
  recorded : b.stats.recorded = timed calls
  iterations : b.iterations = timed calls + untimed calls
  /-- While the routines can be counted in sixty-four bits, so can all that is counted of them. -/
  fits : timed calls + untimed calls < UInt64.size →
    b.iterations < UInt64.size ∧ b.warmups < UInt64.size ∧ b.measured < UInt64.size ∧
      b.stats.Fits
  /-- The recorder has been given the durations, and the answers are its reports. -/
  given : ∃ reports, (Recorder.new n t).recordEach ds = .ok (reports, b.recorder) ∧
    ∀ j call, calls[j]? = some call → call.answers = true →
      answers[j]? = some reports[timed (calls.take j)]?
  /-- A call answers that its sample fills the window just if it is one of the first. -/
  seeding : ∀ j call, calls[j]? = some call → call.answers = true →
    ∃ out, answers[j]? = some (some out) ∧ (out = .seeding ↔ timed (calls.take j) < n)
  refused : timed calls < n → b.finish = .ok (.error (.notEnoughSamples (timed calls) n))
  finish_iff : (∃ result, b.finish = .ok (.ok result)) ↔ n ≤ timed calls
  agrees : ∀ result, b.finish = .ok (.ok result) → result.Agrees b

/-! ## Answers -/

theorem timed_take_add {calls : List (Call m)} {j : Nat} {call : Call m}
    (h : calls[j]? = some call) : timed (calls.take j) + call.timed ≤ timed calls := by
  induction calls generalizing j with
  | nil => cases h
  | cons first calls ih =>
    cases j with
    | zero =>
      cases h
      rw [List.take_zero, timed, timed]
      omega
    | succ j =>
      have := ih h
      rw [List.take_succ_cons, timed, timed]
      omega

theorem getElem?_answers (calls : List (Call m)) (reports : List Recorded) (j : Nat) :
    (answers calls reports)[j]? =
      calls[j]?.map fun call => call.answer (reports.drop (timed (calls.take j))) := by
  induction calls generalizing reports j with
  | nil => rfl
  | cons call calls ih =>
    cases j with
    | zero => rfl
    | succ j =>
      rw [answers, List.getElem?_cons_succ, ih, List.getElem?_cons_succ, List.take_succ_cons, timed]
      simp only [List.drop_drop]

theorem getElem?_answers_of_answers {calls : List (Call m)} {reports : List Recorded} {j : Nat}
    {call : Call m} (h : calls[j]? = some call) (hanswers : call.answers = true) :
    (answers calls reports)[j]? = some reports[timed (calls.take j)]? := by
  rw [getElem?_answers, h, Option.map_some, Call.answer, if_pos hanswers, List.head?_drop]

/-! ## Finishing -/

theorem finish_of_seeding (h : b.recorder.Seeding n t stream) :
    b.finish = .ok (.error (.notEnoughSamples stream.length n)) := by
  unfold finish
  rw [h.finish]

/-- With a full window there is a result, which the counters of the recorder tell of. -/
theorem finish_of_running {w : OutlierWindow} {lost : Nat}
    (hrun : b.recorder.Running n t stream w) (hcounted : b.recorder.Counted n stream.length lost)
    (hmeasured : b.measured = stream.length) :
    ∃ result, b.finish = .ok (.ok result) ∧ result.Agrees b := by
  obtain ⟨s, hs, hcount⟩ := (b.recorder.builder.finish hrun.numBins_pos).summary_ok
  have htrue := hcounted.truthful
  have hrecorded : b.recorder.stats.recorded = b.measured := hcounted.recorded.trans hmeasured.symm
  refine ⟨⟨⟨b.recorder.builder.finish hrun.numBins_pos, b.recorder.stats⟩, s, b.iterations⟩, ?_, ?_⟩
  · unfold finish
    rw [hrun.finish]
    dsimp only
    rw [hs]
    rfl
  · exact {
      iterations := rfl
      stats := rfl
      recorded := hrecorded
      sampleCount := hcount
      size := (b.recorder.builder.size_finish hrun.numBins_pos).trans htrue.size
      settled := htrue.settled.trans hrecorded
      countDropped := htrue.countDropped
      countKept := fun hlt => htrue.countKept (hrecorded ▸ hlt) }

/-! ## Runs -/

/-- The recorder of a bencher decides how it finishes. -/
theorem finish_spec (h : Judged b.recorder n t stream) (hmeasured : b.measured = stream.length) :
    (stream.length < n → b.finish = .ok (.error (.notEnoughSamples stream.length n))) ∧
    (n ≤ stream.length → ∃ result, b.finish = .ok (.ok result) ∧ result.Agrees b) := by
  rcases h with ⟨hseed, -⟩ | ⟨w, lost, hrun, hcounted, -⟩
  · exact ⟨fun _ => finish_of_seeding hseed,
      fun hfull => absurd hseed.short (Nat.not_lt.mpr hfull)⟩
  · exact ⟨fun hshort => absurd hrun.marks.le (Nat.not_le.mpr hshort),
      fun _ => finish_of_running hrun hcounted hmeasured⟩

theorem seeding_of_answers {calls : List (Call m)} {ds : List Int64}
    (hlen : ds.length = timed calls) {j : Nat} {call : Call m} (h : calls[j]? = some call)
    (hanswers : call.answers = true) :
    ∃ out, (answers calls (reports t n ds))[j]? = some (some out) ∧
      (out = .seeding ↔ timed (calls.take j) < n) := by
  have hlt : timed (calls.take j) < ds.length := by
    have hone := Call.timed_of_answers hanswers
    have hle := timed_take_add h
    omega
  refine ⟨report t n ds (timed (calls.take j)), ?_, Offline.report_seeding_iff⟩
  rw [getElem?_answers_of_answers h hanswers, Offline.getElem?_reports.mpr ⟨hlt, rfl⟩]

/-- What a bencher counts follows from its calls and from what its recorder has been given. -/
theorem accounted_of_judged {calls : List (Call m)} {ds : List Int64}
    (hlen : ds.length = timed calls)
    (hok : (Recorder.new n t).recordEach ds = .ok (reports t n ds, b.recorder))
    (h : Judged b.recorder n t ds) (hiterations : b.iterations = timed calls + untimed calls)
    (hwarmups : b.warmups = untimed calls) :
    Accounted n t calls ds (answers calls (reports t n ds)) b := by
  have hmeasured : b.measured = timed calls := by
    rw [measured, hiterations, hwarmups, Nat.add_sub_cancel]
  have hle : b.warmups ≤ b.iterations := by omega
  obtain ⟨hrefused, hfinished⟩ := finish_spec h (hmeasured.trans hlen.symm)
  rw [hlen] at hrefused hfinished
  have hfinish : ∀ result, b.finish = .ok (.ok result) → n ≤ timed calls := by
    intro result hresult
    by_contra hshort
    rw [hrefused (Nat.lt_of_not_le hshort)] at hresult
    cases hresult
  exact {
    measured := hmeasured
    countMeasured := if_pos hle
    recorded := (congrArg RecorderStats.recorded h.stats).trans (Offline.stats_recorded.trans hlen)
    iterations := hiterations
    fits := fun hlt => by
      obtain ⟨lost, htallied⟩ := h.tallied
      exact ⟨by omega, by omega, by omega, htallied.fits (by omega)⟩
    given := ⟨reports t n ds, hok, fun _ _ hcall hanswers =>
      getElem?_answers_of_answers hcall hanswers⟩
    seeding := fun _ _ hcall hanswers => seeding_of_answers hlen hcall hanswers
    refused := hrefused
    finish_iff := ⟨fun ⟨result, hresult⟩ => hfinish result hresult, fun hfull =>
      (hfinished hfull).imp fun _ hresult => hresult.1⟩
    agrees := fun result hresult => by
      obtain ⟨result', hresult', hagrees⟩ := hfinished (hfinish result hresult)
      cases hresult.symm.trans hresult'
      exact hagrees }

/-- **Counters follow the calls.** In any monad, calls run what they would run without a bencher,
and what the bencher makes of the durations is accounted for, whatever the stopwatch reads. -/
theorem performAll_accounted [Monad m] [LawfulMonad m] (n : Nat) (t : Float) (watch : Stopwatch m)
    (calls : List (Call m)) (hn : 3 ≤ n) (ht : OutlierWindow.validTolerance t = true) :
    ∃ outcome : List.Vector Int64 (timed calls) → List (Option Recorded) × Bencher,
      performAll watch calls (new n t) = (fun ds => .ok (outcome ds)) <$> timeAll watch calls ∧
      ∀ ds, Accounted n t calls ds.toList (outcome ds).1 (outcome ds).2 := by
  have hn' : 2 ≤ n := Nat.le_of_succ_le hn
  have hnew : Judged (new n t).recorder n t [] := Recorder.judged_new (by omega)
  choose r hok hr using fun ds : List.Vector Int64 (timed calls) =>
    Recorder.recordEach_judged hn' ht ds.toList
  refine ⟨fun ds => (answers calls (reports t n ds.toList),
    ⟨r ds, 0 + (timed calls + untimed calls), 0 + untimed calls⟩), ?_, fun ds => ?_⟩
  · rw [performAll_eq hnew hn' ht]
    refine congrArg (· <$> timeAll watch calls) (funext fun ds => ?_)
    unfold accountAll
    rw [show (new n t).recorder.recordEach ds.toList = _ from hok ds]
    rfl
  · exact accounted_of_judged ds.toList_length (hok ds) (hr ds) (Nat.zero_add _) (Nat.zero_add _)

/-- A stopwatch that reads durations off a list. -/
def scripted : Stopwatch (StateM (List Int64)) := fun work => do
  work
  modifyGet fun ds => (ds.headD 0, ds.tail)

/-- Seven timed routines among six warm-ups. The peak of the first window is cleared when its value
comes again, and the last sample is held back. -/
theorem performAll_accounted_scripted :
    let calls : List (Call (StateM (List Int64))) :=
      [.warmup 5 (pure ()), .run 2 (pure ()), .iter (pure ()), .warmup 1 (pure ()),
        .iterWithSetup (pure 7) fun _ => pure (), .run 2 (pure ()), .iter (pure ())]
    ∃ answers b, (performAll scripted calls (new 3 1)).run [10, 11, 100, 12, 100, 11, 500] =
        (.ok (answers, b), []) ∧
      answers = [none, none, some .seeding, none, some (.accepted none), none,
        some (.rejected none)] ∧
      b.measured = 7 ∧ b.iterations = 13 ∧
      ∃ result, b.finish = .ok (.ok result) ∧ result.summary.sampleCount = 6 := by
  intro calls
  obtain ⟨outcome, hrun, haccounted⟩ :=
    performAll_accounted 3 1 scripted calls (by decide) (by decide +kernel)
  have hseen : ((performAll scripted calls (new 3 1)).run
      [10, 11, 100, 12, 100, 11, 500]).1.toOption.map (fun r => (r.1, r.2.stats)) =
      some ([none, none, some .seeding, none, some (.accepted none), none,
        some (.rejected none)], ⟨7, 5, 2, 1⟩) := by decide +kernel
  let ds := ((timeAll scripted calls).run [10, 11, 100, 12, 100, 11, 500]).1
  have hds : (performAll scripted calls (new 3 1)).run [10, 11, 100, 12, 100, 11, 500] =
      (.ok (outcome ds), []) := by
    rw [hrun]
    rfl
  rw [hds] at hseen
  obtain ⟨hanswers, hstats⟩ := Prod.mk.inj (Option.some.inj hseen)
  have h := haccounted ds
  obtain ⟨result, hresult⟩ := h.finish_iff.mpr (by decide)
  have hagrees := h.agrees result hresult
  refine ⟨_, _, hds, hanswers, h.measured, h.iterations, result, hresult, ?_⟩
  rw [hagrees.sampleCount, hagrees.size, hagrees.stats, hstats]
  rfl

end Bencher
end TimingStats
