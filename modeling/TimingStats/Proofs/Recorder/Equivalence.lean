import TimingStats.Proofs.Distribution.Building
import TimingStats.Proofs.Recorder.FlagLife
import TimingStats.Recorder

/-! # The recorder keeps what the rule keeps

While the first window fills, the recorder only stores samples. From then on its window carries the
marks of the samples that are dropped so far, and its builder holds those that are kept. Each
recorded sample preserves this. -/

namespace TimingStats.Recorder

open Offline (kept Marks)

variable {r : Recorder} {n : Nat} {t : Float} {stream : List Int64}

def inserted (r : Recorder) : List Int64 := r.builder.histogram.observations

/-! ## Inserting -/

/-- The samples of the first window without the held one. -/
def released (held : Option Int64) (xs : List Int64) : List Int64 :=
  match held with
  | none => xs
  | some v => xs.erase v

theorem released_cons (held : Option Int64) (x : Int64) (xs : List Int64) :
    released held (x :: xs) = if held = some x then xs else x :: released held xs := by
  cases held with
  | none => rfl
  | some v =>
    simp only [released, Option.some_inj]
    split
    · rename_i heq
      subst heq
      exact List.erase_cons_head v xs
    · rename_i hne
      exact List.erase_cons_tail (by simpa using Ne.symm hne)

theorem inserted_insertSeed (r : Recorder) (held : Option Int64) (xs : List Int64) :
    (r.insertSeed held xs).inserted.Perm (released held xs ++ r.inserted) := by
  induction xs generalizing r held with
  | nil => cases held <;> exact .refl _
  | cons x xs ih =>
    unfold insertSeed
    rw [released_cons]
    split
    · exact ih _ none
    · exact (ih _ held).trans (((r.builder.observations_insert x).append_left _).trans
        List.perm_middle)

theorem inserted_rehabilitate (r : Recorder) (cleared : Option Int64) :
    (r.rehabilitate cleared).inserted.Perm (cleared.toList ++ r.inserted) := by
  cases cleared with
  | none => exact .refl _
  | some v => exact r.builder.observations_insert v

theorem inserted_settle (r : Recorder) (x : Int64) (v : Verdict) :
    (r.settle x v).2.inserted.Perm
      ((if v.isOutlier then [] else [x]) ++ (v.cleared.toList ++ r.inserted)) := by
  have hback := inserted_rehabilitate r v.cleared
  unfold settle
  dsimp only
  split
  · exact hback
  · exact (Builder.observations_insert _ x).trans (hback.cons x)

theorem window_settle (r : Recorder) (x : Int64) (v : Verdict) :
    (r.settle x v).2.window = r.window := by
  unfold settle rehabilitate
  cases v.cleared <;> cases v.isOutlier <;> rfl

/-! ## States of a recording -/

/-- A recorder whose first window is not yet full. -/
structure Seeding (r : Recorder) (n : Nat) (t : Float) (stream : List Int64) : Prop where
  windowSize : r.windowSize = n
  tolerance : r.tolerance = t
  window : r.window = none
  seed : r.seed = stream
  short : stream.length < n
  inserted : r.inserted = []

/-- A recorder whose window carries the marks and whose builder holds what is kept. -/
structure Running (r : Recorder) (n : Nat) (t : Float) (stream : List Int64) (w : OutlierWindow) :
    Prop where
  window : r.window = some w
  sound : w.Sound
  tolerance : w.tolerance = t
  marks : Marks w.view t n stream
  inserted : r.inserted.Perm (kept t n stream)
  nonempty : r.inserted ≠ []

theorem seeding_new (hn : 0 < n) : Seeding (new n t) n t [] :=
  ⟨rfl, rfl, rfl, rfl, hn, rfl⟩

theorem highest_normals_lt {w : OutlierWindow} (h : w.Sound) :
    ∀ o ∈ w.view.outlier, Reference.highest w.view.normals < o := by
  rw [OutlierWindow.view_outlier h, OutlierWindow.highest_view_normals h]
  exact h.upToDate.maxNormal_lt

/-- The flag of the first window marks the isolated sample. -/
theorem marks_start {w : OutlierWindow} (hview : w.view = Reference.start t stream)
    (hflag : ∀ i, w.flagged = some i ↔ i < stream.length ∧ Reference.standsOut t stream i = true)
    (hold : w.oldest = 0) (hmany : 2 ≤ stream.length)
    (ht : OutlierWindow.validTolerance t = true) :
    Marks w.view t stream.length stream := by
  refine ⟨Nat.le_refl _, by rw [hview, Nat.sub_self]; rfl, fun p => ?_⟩
  have hage : w.view.flag = w.flagged := by
    have := OutlierWindow.age_of_oldest_zero hold
    rw [OutlierWindow.view, this, Option.map_id_apply]
  rw [hage, hflag, Nat.sub_self, Nat.zero_add]
  refine and_congr_right fun hp => ?_
  rw [Offline.dropped_window rfl hp, Offline.isolated_iff_standsOut ht hp hmany]

/-- What the first window releases is what the rule keeps of it. -/
theorem released_perm {w : OutlierWindow} (hs : w.samples = stream)
    (hlt : ∀ i ∈ w.flagged, i < stream.length) :
    (released w.outlier stream).Perm (OutlierWindow.normals stream w.flagged) := by
  unfold OutlierWindow.outlier
  cases hf : w.flagged with
  | none => exact .refl _
  | some i =>
    have hi := hlt i hf
    have hget : w.samples.getD i 0 = stream[i] := by simp [hs, hi]
    have hmem : stream[i] ∈ stream := List.getElem_mem hi
    rw [Option.map_some, hget]
    exact List.Perm.cons_inv ((List.perm_cons_erase hmem).symm.trans
      (List.getElem_cons_eraseIdx_perm hi).symm)

def stored (r : Recorder) (x : Int64) : Recorder :=
  { r with
    stats := { r.stats with recorded := r.stats.recorded + 1 }
    seed := r.seed ++ [x] }

/-- The recorder over whose first window a window has been opened. -/
def opened (r : Recorder) (w : OutlierWindow) : Recorder :=
  { r.insertSeed w.outlier w.samples with window := some w }

theorem openWindow_spec (hseed : r.seed = stream) (htol : r.tolerance = t)
    (hins : r.inserted = []) (hmany : 2 ≤ stream.length)
    (ht : OutlierWindow.validTolerance t = true) :
    ∃ w, r.openWindow = .ok (r.opened w) ∧ w.samples = stream ∧
      Running (r.opened w) stream.length t stream w := by
  obtain ⟨w, hok, hsound, hs, ho, hwt, hflag⟩ := OutlierWindow.ofSamples_spec hmany ht
  have hiff := OutlierWindow.flagged_iff_standsOut hmany hsound hs hwt hflag
  have hmarks := marks_start (OutlierWindow.view_start hs ho hiff) hiff ho hmany ht
  have hreleased := released_perm hs (hs ▸ hsound.flagged_lt)
  have hkept : (Offline.kept t stream.length stream).Perm
      (OutlierWindow.normals stream w.flagged) := by
    apply Offline.kept_window
    intro i
    refine (hiff i).trans (and_congr_right fun hi => ?_)
    rw [Offline.dropped_window rfl hi, Offline.isolated_iff_standsOut ht hi hmany]
  have hinserted : (r.insertSeed w.outlier w.samples).inserted.Perm
      (OutlierWindow.normals stream w.flagged) := by
    have := inserted_insertSeed r w.outlier w.samples
    rw [hins, List.append_nil, hs] at this
    rw [hs]
    exact this.trans hreleased
  refine ⟨w, ?_, hs, ?_⟩
  · unfold openWindow
    rw [hseed, htol, hok]
    rfl
  · exact
      { window := rfl
        sound := hsound
        tolerance := hwt
        marks := hmarks
        inserted := hinserted.trans hkept.symm
        nonempty := fun hnil => OutlierWindow.normals_ne_nil hmany w.flagged
          (List.nil_perm.mp (hnil ▸ hinserted)) }

/-! ## Recording -/

/-- The recorder with one sample more counted, and its window after that sample. -/
def advanced (r : Recorder) (w : OutlierWindow) : Recorder :=
  { r with
    stats := { r.stats with recorded := r.stats.recorded + 1 }
    window := some w }

/-- With a full window a sample is settled by the verdict of the reference. -/
theorem Running.record {w : OutlierWindow} (h : Running r n t stream w) (hn : 2 ≤ n)
    (ht : OutlierWindow.validTolerance t = true) (x : Int64) :
    ∃ w', r.record x = .ok ((r.advanced w').settle x (w.view.verdict t x)) ∧
      w'.view = w.view.next t x ∧
      Running ((r.advanced w').settle x (w.view.verdict t x)).2 n t (stream ++ [x]) w' := by
  obtain ⟨w', hok, hsound, htol, hview⟩ := OutlierWindow.apply_view h.sound x
  have habove := highest_normals_lt h.sound
  have hmarks := h.marks.next hn ht habove x
  have hkept := h.marks.kept_append hn habove x
  rw [h.tolerance] at hok hview
  have hins := inserted_settle (r.advanced w') x (w.view.verdict t x)
  refine ⟨w', ?_, hview, ?_⟩
  · unfold Recorder.record
    rw [h.window]
    dsimp only
    rw [hok]
    rfl
  · exact
      { window := window_settle (r.advanced w') x _
        sound := hsound
        tolerance := htol.trans h.tolerance
        marks := hview ▸ hmarks
        inserted := (hins.trans ((h.inserted.append_left _).append_left _)).trans hkept.symm
        nonempty := fun hnil => by
          rw [hnil, List.nil_perm, List.append_eq_nil_iff, List.append_eq_nil_iff] at hins
          exact h.nonempty hins.2.2 }

/-- Without a window a sample is stored, and the last of them opens one. -/
theorem Seeding.record (h : Seeding r n t stream) (hn : 2 ≤ n)
    (ht : OutlierWindow.validTolerance t = true) (x : Int64) :
    (r.record x = .ok (.seeding, r.stored x) ∧ Seeding (r.stored x) n t (stream ++ [x])) ∨
      ∃ w, r.record x = .ok (.seeding, (r.stored x).opened w) ∧ w.samples = stream ++ [x] ∧
        Running ((r.stored x).opened w) n t (stream ++ [x]) w := by
  have hseed : (r.stored x).seed = stream ++ [x] := congrArg (· ++ [x]) h.seed
  have hlen : (stream ++ [x]).length = stream.length + 1 := by simp
  have hshort := h.short
  have hrecord : r.record x = if (r.stored x).seed.length = r.windowSize then
      (do return (.seeding, ← (r.stored x).openWindow)) else .ok (.seeding, r.stored x) := by
    unfold Recorder.record
    rw [h.window]
    dsimp only
    unfold stored
    rw [h.window]
    rfl
  rw [hrecord, hseed, hlen, h.windowSize]
  by_cases hfull : stream.length + 1 = n
  · obtain ⟨w, hok, hs, hrun⟩ :=
      openWindow_spec hseed (h.tolerance) (r := r.stored x) h.inserted (by omega) ht
    rw [if_pos hfull, hok]
    have hn' : (stream ++ [x]).length = n := hlen.trans hfull
    exact .inr ⟨w, rfl, hs, hn' ▸ hrun⟩
  · rw [if_neg hfull]
    exact .inl ⟨rfl, h.windowSize, h.tolerance, h.window, hseed, by omega, h.inserted⟩

/-- Either kind of state. -/
def Recording (r : Recorder) (n : Nat) (t : Float) (stream : List Int64) : Prop :=
  Seeding r n t stream ∨ ∃ w, Running r n t stream w

theorem Recording.record (h : Recording r n t stream) (hn : 2 ≤ n)
    (ht : OutlierWindow.validTolerance t = true) (x : Int64) :
    ∃ out r', r.record x = .ok (out, r') ∧ Recording r' n t (stream ++ [x]) := by
  rcases h with h | ⟨w, h⟩
  · rcases h.record hn ht x with ⟨hok, h'⟩ | ⟨w, hok, -, h'⟩
    · exact ⟨_, _, hok, .inl h'⟩
    · exact ⟨_, _, hok, .inr ⟨w, h'⟩⟩
  · obtain ⟨w', hok, -, h'⟩ := h.record hn ht x
    exact ⟨_, _, hok, .inr ⟨w', h'⟩⟩

theorem Recording.recordAll (h : Recording r n t stream) (hn : 2 ≤ n)
    (ht : OutlierWindow.validTolerance t = true) (xs : List Int64) :
    ∃ r', r.recordAll xs = .ok r' ∧ Recording r' n t (stream ++ xs) := by
  induction xs generalizing r stream with
  | nil => exact ⟨r, rfl, by simpa using h⟩
  | cons x xs ih =>
    obtain ⟨out, r1, hok, h1⟩ := h.record hn ht x
    obtain ⟨r2, hok2, h2⟩ := ih h1
    refine ⟨r2, ?_, by simpa using h2⟩
    unfold Recorder.recordAll
    rw [List.foldlM_cons, hok]
    exact hok2

/-! ## Calls -/

/-- A call that gives samples to a recorder. -/
inductive Call where
  | record (x : Int64)
  | extend (xs : List Int64)

def Call.samples : Call → List Int64
  | .record x => [x]
  | .extend xs => xs

def perform (r : Recorder) : Call → Except Fault Recorder
  | .record x => Prod.snd <$> r.record x
  | .extend xs => r.recordAll xs

def performAll (r : Recorder) (calls : List Call) : Except Fault Recorder := calls.foldlM perform r

theorem recordAll_append (r : Recorder) (xs ys : List Int64) :
    r.recordAll (xs ++ ys) = r.recordAll xs >>= (recordAll · ys) := List.foldlM_append

theorem perform_eq (r : Recorder) (call : Call) : r.perform call = r.recordAll call.samples := by
  cases call with
  | record x =>
    unfold perform recordAll
    rw [Call.samples, List.foldlM_cons, bind_congr fun _ => List.foldlM_nil, bind_pure]
  | extend xs => rfl

/-- It does not matter in which calls the samples come. -/
theorem performAll_eq (r : Recorder) (calls : List Call) :
    r.performAll calls = r.recordAll (calls.flatMap Call.samples) := by
  induction calls generalizing r with
  | nil => rfl
  | cons call calls ih =>
    rw [List.flatMap_cons, recordAll_append, ← perform_eq, performAll, List.foldlM_cons]
    exact bind_congr ih

/-! ## Finishing -/

theorem Running.numBins_pos {w : OutlierWindow} (h : Running r n t stream w) :
    0 < r.builder.numBins := by
  rw [← BinTable.length_bins, List.length_pos_iff]
  exact fun hnil => h.nonempty (congrArg Histogram.observed hnil)

theorem Running.finish {w : OutlierWindow} (h : Running r n t stream w) :
    r.finish = .ok ⟨r.builder.finish h.numBins_pos, r.stats⟩ := by
  unfold Recorder.finish
  rw [h.window]
  dsimp only
  rw [Builder.build_of_pos h.numBins_pos]

/-- A recorder that has been given a full window finishes with exactly the samples that the rule
keeps, whichever calls they came in. -/
theorem finish_eq_kept (n : Nat) (t : Float) (calls : List Call) (hn : 3 ≤ n)
    (ht : OutlierWindow.validTolerance t = true)
    (hlen : n ≤ (calls.flatMap Call.samples).length) :
    ∃ r run, (new n t).performAll calls = .ok r ∧ r.finish = .ok run ∧
      run.distribution.bins = runLengths (kept t n (calls.flatMap Call.samples)) := by
  have hn' : 2 ≤ n := Nat.le_of_succ_le hn
  obtain ⟨r, hok, h⟩ := Recording.recordAll (.inl (seeding_new (by omega))) hn' ht
    (calls.flatMap Call.samples)
  rw [List.nil_append] at h
  rcases h with h | ⟨w, h⟩
  · exact absurd h.short (by omega)
  · refine ⟨r, _, (performAll_eq _ _).trans hok, h.finish, ?_⟩
    exact (r.builder.bins_finish h.numBins_pos).trans
      ((Histogram.bins_eq_runLengths r.builder.histogram).trans (runLengths_perm h.inserted))

/-- Of seven samples in four calls only the peak is dropped. -/
theorem finish_eq_kept_one_peak :
    ∃ r run, (new 3 1).performAll [.record 1, .extend [2, 1, 100, 2], .record 1, .extend [4]] =
        .ok r ∧
      r.finish = .ok run ∧ run.distribution.bins = [⟨1, 3⟩, ⟨2, 2⟩, ⟨4, 1⟩] := by
  obtain ⟨r, run, hok, hfinish, hbins⟩ :=
    finish_eq_kept 3 1 [.record 1, .extend [2, 1, 100, 2], .record 1, .extend [4]] (by decide)
      (by decide +kernel) (by decide)
  exact ⟨r, run, hok, hfinish, hbins.trans (by decide +kernel)⟩

end TimingStats.Recorder
