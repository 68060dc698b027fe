import TimingStats.Proofs.Recorder.Insertions

/-! # Counters

While the first window fills, a recorder only counts its samples. From then on each sample is
accepted or rejected when it is judged. What has been rejected and not cleared is flagged still, or
has left the window flagged. -/

namespace TimingStats

namespace Offline

variable {r : Reference} {t : Float} {n : Nat} {stream : List Int64}

/-- A step flags the new sample or none. The flag before it is cleared, goes on, or is lost with the
oldest sample. -/
theorem Marks.flag_balance (h : Marks r t n stream) (hn : 2 ≤ n)
    (ht : OutlierWindow.validTolerance t = true) (x : Int64) :
    (if (r.verdict t x).isOutlier then 1 else 0) + (if r.flag.isSome then 1 else 0) =
      (if (r.verdict t x).cleared.isSome then 1 else 0) +
        (if (r.next t x).flag.isSome then 1 else 0) +
        (if r.flag = some 0 ∧ (r.verdict t x).cleared = none then 1 else 0) := by
  have hnext : (r.next t x).flag =
      if (r.verdict t x).isOutlier then some (r.recent.length - 1)
      else if (r.verdict t x).clearsPrevious ∨ r.flag = some 0 then none
      else r.flag.map (· - 1) := rfl
  rw [hnext, clearsPrevious_eq]
  cases hf : r.flag with
  | none =>
    rw [verdict_unflagged hf x]
    cases (r.verdict t x).isOutlier <;> rfl
  | some p =>
    cases hout : (r.verdict t x).isOutlier with
    | true =>
      -- A new outlier never leaves the flag before it where it is.
      obtain ⟨v, hv⟩ := Option.ne_none_iff_exists'.mp (h.cleared_of_isOutlier hn ht hout hf)
      rw [hv]
      simp
    | false =>
      cases hc : (r.verdict t x).cleared with
      | some v => simp
      | none => by_cases hp : p = 0 <;> simp [hp]

end Offline

/-- The counters and the number of kept samples are numbers of sixty-four bits. -/
structure RecorderStats.Fits (s : RecorderStats) : Prop where
  recorded : s.recorded < UInt64.size
  accepted : s.accepted < UInt64.size
  rejected : s.rejected < UInt64.size
  rehabilitated : s.rehabilitated < UInt64.size
  kept : s.kept < UInt64.size

namespace Recorder

variable {r r' : Recorder} {n : Nat} {t : Float} {stream : List Int64} {lost : Nat}

def flagging (r : Recorder) : Bool := r.window.any fun w => w.outlier.isSome

/-- Whether the flagged sample is the next to leave the window. -/
def parting (r : Recorder) : Bool := r.window.any fun w => w.flagged == some w.oldest

/-- The number of flagged samples that leave the window uncleared while some samples are
recorded. -/
def losses (r : Recorder) : List Int64 → Nat
  | [] => 0
  | x :: xs =>
    match r.record x with
    | .error _ => 0
    | .ok (out, r') => (if r.parting ∧ out.cleared = none then 1 else 0) + r'.losses xs

theorem flagging_of_window {w : OutlierWindow} (h : r.window = some w) :
    r.flagging = w.view.flag.isSome := by
  rw [flagging, h, Option.any_some, OutlierWindow.outlier, Option.isSome_map]
  exact (Option.isSome_map ..).symm

theorem parting_iff {w : OutlierWindow} (h : r.window = some w) (hw : w.Sound) :
    r.parting = true ↔ w.view.flag = some 0 := by
  rw [parting, h, Option.any_some, beq_iff_eq, OutlierWindow.view, Option.map_eq_some_iff]
  constructor
  · exact fun hf => ⟨w.oldest, hf, (OutlierWindow.age_eq_zero hw.oldest_lt).mpr rfl⟩
  · rintro ⟨i, hf, hage⟩
    rw [hf, (OutlierWindow.age_eq_zero hw.oldest_lt).mp hage]

theorem size_eq_length (r : Recorder) : r.builder.size = r.inserted.length :=
  (Histogram.length_observed _).symm

/-! ## The first window -/

theorem stats_insertSeed (r : Recorder) (held : Option Int64) (xs : List Int64) :
    (r.insertSeed held xs).stats.recorded = r.stats.recorded ∧
      (r.insertSeed held xs).stats.rehabilitated = r.stats.rehabilitated ∧
      (r.insertSeed held xs).stats.accepted = r.stats.accepted + (released held xs).length ∧
      (r.insertSeed held xs).stats.accepted + (r.insertSeed held xs).stats.rejected =
        r.stats.accepted + r.stats.rejected + xs.length := by
  induction xs generalizing r held with
  | nil => cases held <;> exact ⟨rfl, rfl, rfl, rfl⟩
  | cons x xs ih =>
    unfold insertSeed
    rw [released_cons]
    split
    · obtain ⟨hrec, hback, hacc, hsum⟩ := ih _ none
      refine ⟨hrec, hback, hacc, ?_⟩
      rw [hsum, List.length_cons]
      dsimp only
      omega
    · obtain ⟨hrec, hback, hacc, hsum⟩ := ih _ held
      refine ⟨hrec, hback, ?_, ?_⟩
      · rw [hacc, List.length_cons]
        dsimp only
        omega
      · rw [hsum, List.length_cons]
        dsimp only
        omega

/-! ## States -/

/-- The counters of a recorder whose window is full, after so many samples and losses. -/
structure Counted (r : Recorder) (n count lost : Nat) : Prop where
  recorded : r.stats.recorded = count
  judged : r.stats.accepted + r.stats.rejected = count
  rejected : r.stats.rejected =
    r.stats.rehabilitated + (if r.flagging then 1 else 0) + lost
  size : r.builder.size = r.stats.kept
  /-- At most one sample of the first window is rejected. -/
  seeded : n ≤ r.stats.accepted + 1

/-- A first window accepts all its samples but the flagged one. -/
theorem counted_opened {w : OutlierWindow} (h : Running (r.opened w) n t stream w)
    (hs : w.samples = stream) (hn : stream.length = n)
    (hstats : r.stats = ⟨stream.length, 0, 0, 0⟩) (hins : r.inserted = []) :
    Counted (r.opened w) n stream.length 0 := by
  have hreleased := (released_perm hs (hs ▸ h.sound.flagged_lt)).length_eq
  have hstart := stats_insertSeed r w.outlier stream
  have hperm := inserted_insertSeed r w.outlier stream
  rw [hins, List.append_nil] at hperm
  rw [hstats, hreleased] at hstart
  obtain ⟨hrec, hback, hacc, hsum⟩ :
      (r.opened w).stats.recorded = stream.length ∧ (r.opened w).stats.rehabilitated = 0 ∧
        (r.opened w).stats.accepted = 0 + (OutlierWindow.normals stream w.flagged).length ∧
        (r.opened w).stats.accepted + (r.opened w).stats.rejected = 0 + 0 + stream.length := by
    rw [opened, hs]
    exact hstart
  have hsize : (r.opened w).builder.size = (OutlierWindow.normals stream w.flagged).length := by
    rw [size_eq_length, ← hreleased, ← hperm.length_eq, opened, hs]
    rfl
  have hlength : (OutlierWindow.normals stream w.flagged).length +
      (if (r.opened w).flagging then 1 else 0) = stream.length := by
    rw [flagging_of_window (r := r.opened w) rfl, OutlierWindow.view, Option.isSome_map]
    cases hf : w.flagged with
    | none => rfl
    | some i =>
      have hi := hs ▸ h.sound.flagged_lt i hf
      rw [OutlierWindow.normals, List.length_eraseIdx_of_lt hi]
      exact Nat.sub_one_add_one (Nat.ne_of_gt (Nat.zero_lt_of_lt hi))
  have hflag : (if (r.opened w).flagging then 1 else 0) ≤ 1 := by split <;> decide
  refine ⟨hrec, by omega, by omega, ?_, by omega⟩
  rw [hsize, RecorderStats.kept]
  omega

/-! ## One sample more -/

theorem stats_settle (r : Recorder) (x : Int64) (v : Verdict) :
    (r.settle x v).2.stats =
      { r.stats with
        accepted := r.stats.accepted + (if v.isOutlier then 0 else 1)
        rejected := r.stats.rejected + (if v.isOutlier then 1 else 0)
        rehabilitated := r.stats.rehabilitated + (if v.cleared.isSome then 1 else 0) } := by
  unfold settle rehabilitate
  cases v.isOutlier <;> cases v.cleared <;> rfl

theorem size_settle (r : Recorder) (x : Int64) (v : Verdict) :
    (r.settle x v).2.builder.size =
      r.builder.size + (if v.cleared.isSome then 1 else 0) + (if v.isOutlier then 0 else 1) := by
  rw [size_eq_length, (inserted_settle r x v).length_eq, size_eq_length, List.length_append,
    List.length_append]
  cases v.isOutlier <;> cases v.cleared <;> simp <;> omega

theorem Counted.settle {w w' : OutlierWindow} (h : Counted r n stream.length lost)
    (hrun : Running r n t stream w) (hn : 2 ≤ n) (ht : OutlierWindow.validTolerance t = true)
    (x : Int64) (hview : w'.view = w.view.next t x) :
    Counted ((r.advanced w').settle x (w.view.verdict t x)).2 n (stream ++ [x]).length
      (lost + if r.parting ∧ (w.view.verdict t x).cleared = none then 1 else 0) := by
  have hbalance := hrun.marks.flag_balance hn ht x
  have hflag' : ((r.advanced w').settle x (w.view.verdict t x)).2.flagging =
      (w.view.next t x).flag.isSome := by
    rw [flagging_of_window (window_settle (r.advanced w') x _), hview]
  have hstats := stats_settle (r.advanced w') x (w.view.verdict t x)
  have hsize := size_settle (r.advanced w') x (w.view.verdict t x)
  have hsize₀ : (r.advanced w').builder.size = r.stats.kept := h.size
  obtain ⟨hrec, hjudged, hrejected, -, hseeded⟩ := h
  simp only [parting_iff hrun.window hrun.sound, ← flagging_of_window hrun.window, ← hflag']
    at hbalance ⊢
  have hone : (if (w.view.verdict t x).isOutlier then 0 else 1) +
      (if (w.view.verdict t x).isOutlier then 1 else 0) = 1 := by split <;> rfl
  have hrec' := congrArg RecorderStats.recorded hstats
  have hacc' := congrArg RecorderStats.accepted hstats
  have hrej' := congrArg RecorderStats.rejected hstats
  have hback' := congrArg RecorderStats.rehabilitated hstats
  generalize ((r.advanced w').settle x (w.view.verdict t x)).2 = s at *
  dsimp only [advanced] at hrec' hacc' hrej' hback'
  rw [List.length_append, List.length_singleton]
  refine ⟨by omega, by omega, by omega, ?_, by omega⟩
  rw [hsize, hsize₀, RecorderStats.kept, RecorderStats.kept]
  omega

/-- A recorder with its losses so far. Without a window it has only counted its samples. -/
def Tallied (r : Recorder) (n : Nat) (t : Float) (stream : List Int64) (lost : Nat) : Prop :=
  (Seeding r n t stream ∧ r.stats = ⟨stream.length, 0, 0, 0⟩ ∧ lost = 0) ∨
    ∃ w, Running r n t stream w ∧ Counted r n stream.length lost

theorem Tallied.record (h : Tallied r n t stream lost) (hn : 2 ≤ n)
    (ht : OutlierWindow.validTolerance t = true) (x : Int64) :
    ∃ out r', r.record x = .ok (out, r') ∧ Tallied r' n t (stream ++ [x])
      (lost + if r.parting ∧ out.cleared = none then 1 else 0) := by
  rcases h with ⟨hseed, hstats, rfl⟩ | ⟨w, hrun, hcounted⟩
  · have hstay : ¬ (r.parting = true ∧ Recorded.seeding.cleared = none) := by
      rw [parting, hseed.window]
      simp
    have hstats' : (r.stored x).stats = ⟨(stream ++ [x]).length, 0, 0, 0⟩ := by
      rw [stored, hstats, List.length_append, List.length_singleton]
    rcases hseed.record hn ht x with ⟨hok, hseed'⟩ | ⟨w, hok, hs, hrun⟩
    · exact ⟨_, _, hok, .inl ⟨hseed', hstats', by rw [if_neg hstay]⟩⟩
    · have hfull : (stream ++ [x]).length = n := by
        have hshort := hseed.short
        have hle := hrun.marks.le
        rw [List.length_append, List.length_singleton] at hle ⊢
        omega
      refine ⟨_, _, hok, .inr ⟨w, hrun, ?_⟩⟩
      rw [if_neg hstay]
      exact counted_opened hrun hs hfull hstats' hseed.inserted
  · obtain ⟨w', hok, hview, hrun'⟩ := hrun.record hn ht x
    let settled := (r.advanced w').settle x (w.view.verdict t x)
    refine ⟨settled.1, settled.2, hok, .inr ⟨w', hrun', ?_⟩⟩
    rw [settle_cleared]
    exact hcounted.settle hrun hn ht x hview

theorem Tallied.recordEach (h : Tallied r n t stream lost) (hn : 2 ≤ n)
    (ht : OutlierWindow.validTolerance t = true) (xs : List Int64) :
    ∃ outs r', r.recordEach xs = .ok (outs, r') ∧
      Tallied r' n t (stream ++ xs) (lost + r.losses xs) := by
  induction xs generalizing r stream lost with
  | nil => exact ⟨[], r, rfl, by simpa [losses] using h⟩
  | cons x xs ih =>
    obtain ⟨out, r1, hok, h1⟩ := h.record hn ht x
    obtain ⟨outs, r2, hrest, h2⟩ := ih h1
    refine ⟨out :: outs, r2, recordEach_cons hok hrest, ?_⟩
    rw [losses, hok, ← Nat.add_assoc]
    simpa using h2

/-! ## Runs -/

/-- What the counters of a recorder say once its window is full. -/
structure Truthful (r : Recorder) (lost : Nat) : Prop where
  cleared : r.stats.rehabilitated ≤ r.stats.rejected
  judged : r.stats.accepted + r.stats.rejected = r.stats.recorded
  settled : r.stats.kept + r.stats.dropped = r.stats.recorded
  size : r.builder.size = r.stats.kept
  dropped : r.stats.dropped = (if r.flagging then 1 else 0) + lost
  countDropped : r.stats.countDropped = .ok r.stats.dropped
  countKept : r.stats.recorded < UInt64.size → r.stats.countKept = .ok r.stats.kept

theorem Counted.truthful {count : Nat} (h : Counted r n count lost) : Truthful r lost := by
  obtain ⟨hrec, hjudged, hrejected, hsize, -⟩ := h
  have hle : r.stats.rehabilitated ≤ r.stats.rejected := by omega
  refine ⟨hle, hjudged.trans hrec.symm, ?_, hsize, ?_, ?_, fun hlt => ?_⟩
  · dsimp only [RecorderStats.kept, RecorderStats.dropped]
    omega
  · dsimp only [RecorderStats.dropped]
    omega
  · rw [RecorderStats.countDropped, if_pos hle]
  · rw [RecorderStats.countKept, if_pos]
    dsimp only [RecorderStats.kept]
    omega

theorem Seeding.finish (h : Seeding r n t stream) :
    r.finish = .error (.notEnoughSamples stream.length n) := by
  unfold Recorder.finish
  rw [h.window, h.seed, h.windowSize]

theorem Seeding.isEmpty (h : Seeding r n t stream) : r.builder.isEmpty = true := by
  have hsize := (size_eq_length r).trans (congrArg List.length h.inserted)
  by_contra hne
  have hbins : r.builder.histogram.bins ≠ [] := fun hnil =>
    hne (beq_iff_eq.mpr (BinTable.bins_eq_nil_iff.mp hnil))
  exact Nat.ne_of_gt (r.builder.histogram.size_pos hbins) hsize

theorem Tallied.recorded (h : Tallied r n t stream lost) : r.stats.recorded = stream.length := by
  rcases h with ⟨-, hstats, -⟩ | ⟨w, -, hcounted⟩
  · rw [hstats]
  · exact hcounted.recorded

/-- No counter exceeds the number of samples. -/
theorem Tallied.fits (h : Tallied r n t stream lost) (hlt : stream.length < UInt64.size) :
    r.stats.Fits := by
  rcases h with ⟨-, hstats, -⟩ | ⟨w, -, hrec, hjudged, hrejected, -, -⟩
  · rw [hstats]
    have hzero : 0 < UInt64.size := by decide
    exact ⟨hlt, hzero, hzero, hzero, hzero⟩
  · refine ⟨by omega, by omega, by omega, by omega, ?_⟩
    rw [RecorderStats.kept]
    omega

/-- **The counters tell the truth.** After any calls, a recorder that has been given fewer samples
than its window takes has only counted them, and cannot be finished. From then on its counters
account for all samples, and it can be finished. A ledger shows what has been inserted, and when:
no sample twice, every accepted one at once, and a rejected one only when it is cleared. -/
theorem counters_truthful (n : Nat) (t : Float) (calls : List Call) (hn : 3 ≤ n)
    (ht : OutlierWindow.validTolerance t = true) :
    let stream := calls.flatMap Call.samples
    ∃ r reports ledger, (new n t).performAll calls = .ok r ∧
      (new n t).recordEach stream = .ok (reports, r) ∧
      r.stats.recorded = stream.length ∧
      (stream.length < UInt64.size → r.stats.Fits) ∧
      (r.stats.recorded < n →
        r.stats = ⟨stream.length, 0, 0, 0⟩ ∧ r.builder.isEmpty = true) ∧
      (n ≤ r.stats.recorded →
        Truthful r ((new n t).losses stream) ∧ ∃ run, r.finish = .ok run ∧ run.stats = r.stats) ∧
      Ledger n t stream reports ledger ∧
      (∀ i cleared, reports[i]? = some (.rejected cleared) → ∀ e ∈ ledger, e.sample = i →
        i < e.call ∧ ∃ out, reports[e.call]? = some out ∧ out.cleared = stream[i]?) ∧
      (∀ got need, r.finish = .error (.notEnoughSamples got need) ↔
        r.stats.recorded < n ∧ got = r.stats.recorded ∧ need = n) ∧
      ∀ e, r.finish ≠ .error (.distribution e) := by
  intro stream
  have hn' : 2 ≤ n := Nat.le_of_succ_le hn
  have hpos : 0 < n := by omega
  obtain ⟨reports, r, ledger, hok, hbooked⟩ := (booked_new (t := t) hpos).recordEach hn' ht stream
  obtain ⟨reports', r', hok', htallied⟩ :=
    Tallied.recordEach (.inl ⟨seeding_new hpos, rfl, rfl⟩) hn' ht stream
  obtain ⟨rfl, rfl⟩ := Prod.mk.inj (Except.ok.inj (hok.symm.trans hok'))
  rw [Nat.zero_add] at htallied
  simp only [List.nil_append] at hbooked htallied
  have hrec := htallied.recorded
  refine ⟨r, reports, ledger, (performAll_eq _ _).trans hbooked.reached, hok, hrec, htallied.fits,
    ?_, ?_, hbooked.sound, fun i cleared hi => hbooked.sound.rejected hi, ?_⟩
  · intro hshort
    rcases htallied with ⟨hseed, hstats, -⟩ | ⟨w, hrun, -⟩
    · exact ⟨hstats, hseed.isEmpty⟩
    · exact absurd hrun.marks.le (by omega)
  · intro hfull
    rcases htallied with ⟨hseed, -, -⟩ | ⟨w, hrun, hcounted⟩
    · exact absurd hseed.short (by omega)
    · exact ⟨hcounted.truthful, _, hrun.finish, rfl⟩
  · rcases htallied with ⟨hseed, -, -⟩ | ⟨w, hrun, -⟩
    · have hshort := hseed.short
      rw [hseed.finish, hrec]
      refine ⟨fun got need => ?_, fun e he => nomatch he⟩
      simp only [Except.error.injEq, RecorderError.notEnoughSamples.injEq]
      exact ⟨fun h => ⟨hshort, h.1.symm, h.2.symm⟩, fun h => ⟨h.2.1.symm, h.2.2.symm⟩⟩
    · have hfull := hrun.marks.le
      rw [hrun.finish]
      refine ⟨fun got need => iff_of_false (fun he => nomatch he) ?_, fun e he => nomatch he⟩
      omega

/-- The peak of the first window is cleared when its value comes again; a later one is dropped. -/
theorem counters_truthful_peaks :
    ∃ r, (new 3 1).performAll
        [.extend [10, 11, 100], .record 12, .extend [100, 11, 500, 13], .extend [12, 10]] = .ok r ∧
      r.stats = ⟨10, 8, 2, 1⟩ ∧ r.builder.size = 9 ∧ r.flagging = false ∧ r.stats.dropped = 1 := by
  obtain ⟨r, reports, ledger, hok, -, -, -, -, hfull, -⟩ :=
    counters_truthful 3 1
      [.extend [10, 11, 100], .record 12, .extend [100, 11, 500, 13], .extend [12, 10]]
      (by decide) (by decide +kernel)
  have hseen : ((new 3 1).performAll
      [.extend [10, 11, 100], .record 12, .extend [100, 11, 500, 13],
        .extend [12, 10]]).toOption.map (fun r => (r.stats, r.flagging)) =
      some (⟨10, 8, 2, 1⟩, false) := by decide +kernel
  rw [hok] at hseen
  obtain ⟨hstats, hflag⟩ := Prod.mk.inj (Option.some.inj hseen)
  have hthree : 3 ≤ r.stats.recorded := by rw [hstats]; decide
  obtain ⟨htrue, -⟩ := hfull hthree
  refine ⟨r, hok, hstats, ?_, hflag, ?_⟩
  · rw [htrue.size, hstats]
    rfl
  · have hlost : (new 3 1).losses ([.extend [10, 11, 100], .record 12, .extend [100, 11, 500, 13],
        .extend [12, 10]].flatMap Call.samples) = 1 := by decide +kernel
    rw [htrue.dropped, hflag, hlost]
    rfl

end Recorder
end TimingStats
