import TimingStats.Files.Tree
import TimingStats.Program
import TimingStats.Proofs.Comparison.Faults
import TimingStats.Proofs.Recorder.Counters
import TimingStats.Proofs.Files.Places

/-! # The errors of the program

Settings are only made with a tolerance that the window accepts. An analysis then fails for want of
samples and for nothing else, since a first window rejects at most one of them. So two sources that
can be analysed have enough observations for a comparison, which fails for its parameters alone. -/

namespace TimingStats

/-! ## Settings -/

namespace Binary64

theorem not_lt_zero_iff {t : Float} (h : isFinite t = true) : ¬ t < 0 ↔ 0 ≤ t := by
  rw [lt_iff h zero_value.1, le_iff zero_value.1 h, not_lt]

end Binary64

/-- The settings and the window check a tolerance in different words, but alike on every double. -/
theorem OutlierWindow.validTolerance_eq (t : Float) :
    validTolerance t = !(!Binary64.isFinite t || decide (t < 0)) := by
  unfold validTolerance
  cases h : Binary64.isFinite t with
  | false => rfl
  | true =>
    rw [decide_eq_decide.mpr (Binary64.not_lt_zero_iff h).symm, decide_not]
    rfl

/-- Settings are made for a known format and a tolerance that the window accepts. -/
theorem Settings.resolve_eq_ok {o : CommandLine.Options} {c : Config} {s : Settings} :
    resolve o c = .ok s ↔
      OutputFormat.ofName (o.format.getD c.format) = .ok s.format ∧
      OutlierWindow.validTolerance (o.tolerance.getD c.tolerance) = true ∧
      s = ⟨s.format, o.tolerance.getD c.tolerance, o.seed.or c.seed, c.comparison⟩ := by
  rw [OutlierWindow.validTolerance_eq, Bool.not_eq_true']
  unfold resolve
  dsimp only [bind, Except.bind]
  cases OutputFormat.ofName (o.format.getD c.format) with
  | error e => simp [Except.mapError]
  | ok format =>
    dsimp only [Except.mapError]
    split
    · rename_i hcheck
      simp [hcheck, throw, throwThe, MonadExceptOf.throw]
    · rename_i hcheck
      rw [Bool.eq_false_iff.mpr hcheck]
      cases s
      simp only [pure, Except.pure, Except.ok.injEq, Settings.mk.injEq]
      tauto

theorem Settings.validTolerance {o : CommandLine.Options} {c : Config} {s : Settings}
    (h : resolve o c = .ok s) : OutlierWindow.validTolerance s.tolerance = true := by
  obtain ⟨-, ht, hs⟩ := resolve_eq_ok.mp h
  rw [hs]
  exact ht

/-! ## Listings -/

theorem Text.sum_length_split (mark : Char) (cs : List Char) :
    ((Text.split mark cs).map List.length).sum ≤ cs.length := by
  induction cs with
  | nil => exact Nat.le_refl 0
  | cons c cs ih =>
    rw [Text.split]
    split
    · rw [List.map_cons, List.sum_cons, List.length_nil, Nat.zero_add]
      exact Nat.le_succ_of_le ih
    · split
      · exact absurd ‹_› (Text.split_ne_nil mark cs)
      · rename_i piece pieces heq
        rw [heq] at ih
        simp only [List.map_cons, List.sum_cons, List.length_cons] at ih ⊢
        omega

namespace Samples

theorem length_le_of_parseLines {number : Nat} {ls : List (List Char)} {xs : List Int64}
    (h : parseLines number ls = .ok xs) : xs.length ≤ (ls.map List.length).sum := by
  induction ls generalizing number xs with
  | nil =>
    cases h
    exact Nat.le_refl 0
  | cons line ls ih =>
    rw [List.map_cons, List.sum_cons]
    rw [parseLines] at h
    split at h
    · exact Nat.le_add_left_of_le (ih h)
    · rename_i hcontent
      have hline : 0 < line.length := by
        refine List.length_pos_iff.mpr ?_
        rintro rfl
        exact hcontent rfl
      split at h
      · cases h
      · rename_i v hv
        cases hrest : parseLines (number + 1) ls with
        | error e =>
          rw [hrest] at h
          cases h
        | ok vs =>
          rw [hrest] at h
          cases h
          have := ih hrest
          rw [List.length_cons]
          omega

theorem length_le_of_parse {text : String} {xs : List Int64} (h : parse text = .ok xs) :
    xs.length ≤ text.length :=
  (length_le_of_parseLines h).trans (Text.sum_length_split '\n' text.toList)

end Samples

/-! ## Analyses -/

/-- A complete analysis of so many samples: all are recorded, the kept ones are summarised, and no
more than one of the first window is missing from them. The counters fit their words if the samples
can be counted. -/
structure Analysis.Complete (a : Analysis) (d : Distribution) (count : Nat) : Prop where
  recorded : a.filter.recorded = count
  sampleCount : a.summary.sampleCount = a.filter.kept
  kept : a.filter.kept = d.size
  enough : 7 ≤ d.size
  size_le : d.size ≤ count
  countDropped : a.filter.countDropped = .ok a.filter.dropped
  countKept : count < UInt64.size → a.filter.countKept = .ok a.filter.kept
  fits : count < UInt64.size → d.Fits

theorem Recorder.recordAll_tallied {n : Nat} {t : Float} (hn : 2 ≤ n)
    (ht : OutlierWindow.validTolerance t = true) (samples : List Int64) :
    ∃ r lost, (Recorder.new n t).recordAll samples = .ok r ∧ r.Tallied n t samples lost := by
  obtain ⟨outs, r, hok, h⟩ :=
    Recorder.Tallied.recordEach (.inl ⟨Recorder.seeding_new (by omega), rfl, rfl⟩) hn ht samples
  exact ⟨r, _, Recorder.recordAll_of_recordEach hok, h⟩

namespace Analysis

variable {t : Float} {samples : List Int64}

theorem ofSamples_of_finish_error {r : Recorder} {cause : RecorderError} (source : String)
    (hr : (Recorder.new windowSize t).recordAll samples = .ok r) (h : r.finish = .error cause) :
    ofSamples source samples t = .ok (.error ⟨source, cause⟩) := by
  unfold ofSamples
  rw [hr]
  dsimp only [bind, Except.bind]
  rw [h]
  rfl

theorem ofSamples_of_finish_ok {r : Recorder} {run : RecordedRun} {s : Summary} (source : String)
    (hr : (Recorder.new windowSize t).recordAll samples = .ok r) (h : r.finish = .ok run)
    (hs : run.distribution.summary = .ok s) :
    ofSamples source samples t =
      .ok (.ok (⟨source, run.stats, s, run.distribution.percentiles⟩, run.distribution)) := by
  unfold ofSamples
  rw [hr]
  dsimp only [bind, Except.bind]
  rw [h]
  dsimp only
  rw [hs]
  rfl

/-- What a recorder that is past its first window keeps. -/
theorem complete_of_counted {r : Recorder} {count lost : Nat} {s : Summary}
    (h : r.Counted windowSize count lost) (hpos : 0 < r.builder.numBins) (source : String)
    (hs : s.sampleCount = (r.builder.finish hpos).size) :
    Complete ⟨source, r.stats, s, (r.builder.finish hpos).percentiles⟩ (r.builder.finish hpos)
      count := by
  have hsize : (r.builder.finish hpos).size = r.stats.kept :=
    (r.builder.size_finish hpos).trans h.size
  have hrecorded := h.recorded
  have hjudged := h.judged
  have hseeded := h.seeded
  have hcleared := h.truthful.cleared
  have hbound : 7 ≤ r.stats.kept ∧ r.stats.kept ≤ count := by
    have hwindow : windowSize = 8 := rfl
    unfold RecorderStats.kept
    omega
  exact {
    recorded := hrecorded
    sampleCount := hs.trans hsize
    kept := hsize.symm
    enough := hsize ▸ hbound.1
    size_le := hsize ▸ hbound.2
    countDropped := h.truthful.countDropped
    countKept := fun hlt => h.truthful.countKept (hrecorded ▸ hlt)
    fits := fun hlt => Distribution.fits_of_size (hsize ▸ Nat.lt_of_le_of_lt hbound.2 hlt) }

/-- **An analysis fails only for want of samples.** -/
theorem ofSamples_spec (ht : OutlierWindow.validTolerance t = true) (source : String)
    (samples : List Int64) :
    (samples.length < windowSize →
      ofSamples source samples t =
        .ok (.error ⟨source, .notEnoughSamples samples.length windowSize⟩)) ∧
    (windowSize ≤ samples.length →
      ∃ a d, ofSamples source samples t = .ok (.ok (a, d)) ∧ a.Complete d samples.length) := by
  obtain ⟨r, lost, hr, htallied⟩ :=
    Recorder.recordAll_tallied (show 2 ≤ windowSize by decide) ht samples
  rcases htallied with ⟨hseed, -, -⟩ | ⟨w, hrun, hcounted⟩
  · exact ⟨fun _ => ofSamples_of_finish_error source hr hseed.finish,
      fun hlong => absurd hseed.short (Nat.not_lt.mpr hlong)⟩
  · obtain ⟨s, hs, hcount⟩ := (r.builder.finish hrun.numBins_pos).summary_ok
    exact ⟨fun hshort => absurd hrun.marks.le (Nat.not_le.mpr hshort),
      fun _ => ⟨_, _, ofSamples_of_finish_ok source hr hrun.finish hs,
        complete_of_counted hcounted hrun.numBins_pos source hcount⟩⟩

end Analysis

/-! ## Files -/

/-- The file that a path leads to holds a text. -/
def FileTree.Holds (t : FileTree) (path text : String) : Prop :=
  (t.read (Path.ofString path) >>= FileSystem.decode) = .ok text

theorem FileTree.holds_of_read {t : FileTree} {path text : String}
    (h : t.read (Path.ofString path) = .ok text.toUTF8) : t.Holds path text := by
  unfold Holds
  rw [h]
  exact FileSystem.decode_eq_ok_iff.mpr rfl

namespace Program

open Comparison (iterationLimit)

variable {tree : FileTree} {settings : Settings}
variable {baseline candidate baselineText candidateText : String}

theorem analyzeFile_run {file text : String} (h : tree.Holds file text) (tolerance : Float) :
    (analyzeFile (m := StateM FileTree) file tolerance).run.run tree =
      (analyzeText file text tolerance, tree) := by
  have hread : (FileSystem.readText (m := StateM FileTree) (Path.ofString file)).run tree =
      (.ok text, tree) := congrArg (·, tree) h
  unfold analyzeFile
  simp only [ExceptT.run_bind, ExceptT.run_lift, StateT.run_bind, StateT.run_map, hread]
  rfl

/-- Two files that hold texts are compared by the texts alone. -/
theorem compareFiles_run (hb : tree.Holds baseline baselineText)
    (hc : tree.Holds candidate candidateText) (settings : Settings) (seed : UInt64) :
    (compareFiles (m := StateM FileTree) baseline candidate settings seed).run.run tree =
      (do
        let b ← analyzeText baseline baselineText settings.tolerance
        let c ← analyzeText candidate candidateText settings.tolerance
        compareAnalyzed b c settings.comparison (settings.seed.getD seed), tree) := by
  unfold compareFiles
  simp only [ExceptT.run_bind, StateT.run_bind, analyzeFile_run hb]
  cases analyzeText baseline baselineText settings.tolerance with
  | error f => rfl
  | ok b =>
    change StateT.run ((analyzeFile candidate settings.tolerance).run >>= _) tree = _
    rw [StateT.run_bind, analyzeFile_run hc]
    cases analyzeText candidate candidateText settings.tolerance with
    | error f => rfl
    | ok c => rfl

/-! ## Failures -/

def shortage (source : String) (count : Nat) : Option Failure :=
  if count < Analysis.windowSize then
    some (.analysis ⟨source, .notEnoughSamples count Analysis.windowSize⟩)
  else none

/-- The failure of a comparison for its parameters: they are refused, or there are more replicates
than can be addressed. -/
def parameterFailure (config : ComparisonConfig) : Option Failure :=
  if ¬ (0 < config.confidenceLevel ∧ config.confidenceLevel < 1) then
    some (.comparison (.invalidConfidenceLevel config.confidenceLevel))
  else if config.bootstrapIterations = 0 then some (.comparison .noBootstrapIterations)
  else if iterationLimit ≤ config.bootstrapIterations then some (.fault .allocationTooLarge)
  else none

/-- The first failure of a comparison of two sources with so many samples each. -/
def firstFailure (baseline candidate : String) (baselineCount candidateCount : Nat)
    (config : ComparisonConfig) : Option Failure :=
  (shortage baseline baselineCount).or
    ((shortage candidate candidateCount).or (parameterFailure config))

theorem shortage_eq_some {source : String} {count : Nat} {f : Failure} :
    shortage source count = some f ↔ count < Analysis.windowSize ∧
      f = .analysis ⟨source, .notEnoughSamples count Analysis.windowSize⟩ := by
  unfold shortage
  split <;> simp [*, eq_comm]

/-- A result that is the failure, if there is one, and else a success with a property. -/
def Meets {α : Type} (failure : Option Failure) (p : α → Prop) (result : Except Failure α) : Prop :=
  match failure with
  | some f => result = .error f
  | none => ∃ a, result = .ok a ∧ p a

namespace Meets

variable {α β : Type} {failure next : Option Failure} {p : α → Prop} {q : β → Prop}
  {result : Except Failure α}

theorem error_iff (h : Meets failure p result) (f : Failure) :
    result = .error f ↔ failure = some f := by
  cases failure with
  | some e => rw [show result = .error e from h, Except.error.injEq, Option.some_inj]
  | none =>
    obtain ⟨a, ha, -⟩ := h
    simp [ha]

/-- The first failure of two steps is that of the first, or else that of the second. -/
theorem bind {step : α → Except Failure β} (h : Meets failure p result)
    (hstep : ∀ a, p a → Meets next q (step a)) : Meets (failure.or next) q (result >>= step) := by
  cases failure with
  | some e => exact congrArg (· >>= step) h
  | none =>
    obtain ⟨a, rfl, hp⟩ := h
    exact hstep a hp

theorem mono {p' : α → Prop} (h : Meets failure p result) (hp : ∀ a, p a → p' a) :
    Meets failure p' result := by
  cases failure with
  | some e => exact h
  | none =>
    obtain ⟨a, ha, hpa⟩ := h
    exact ⟨a, ha, hp a hpa⟩

end Meets

theorem analyzeText_meets {tolerance : Float} (ht : OutlierWindow.validTolerance tolerance = true)
    {text : String} {samples : List Int64} (h : Samples.parse text = .ok samples)
    (source : String) :
    Meets (shortage source samples.length) (fun r => r.1.Complete r.2 samples.length)
      (analyzeText source text tolerance) := by
  obtain ⟨hshort, hlong⟩ := Analysis.ofSamples_spec ht source samples
  unfold analyzeText
  rw [h]
  unfold shortage
  split
  · rename_i hlt
    change ((Analysis.ofSamples source samples tolerance).mapError Failure.fault >>= _) = _
    rw [hshort hlt]
    rfl
  · rename_i hge
    obtain ⟨a, d, hok, hcomplete⟩ := hlong (Nat.le_of_not_lt hge)
    refine ⟨(a, d), ?_, hcomplete⟩
    change ((Analysis.ofSamples source samples tolerance).mapError Failure.fault >>= _) = _
    rw [hok]
    rfl

theorem compareAnalyzed_meets (b c : Analysis × Distribution) (config : ComparisonConfig)
    (hb : 2 ≤ b.2.size) (hc : 2 ≤ c.2.size) (seed : UInt64) :
    Meets (parameterFailure config) (fun r => r.baseline = b.1 ∧ r.candidate = c.1)
      (compareAnalyzed b c config seed) := by
  have hrefusal : Comparison.refusal b.2 c.2 config = _ := Comparison.refusal_eq hb hc
  unfold compareAnalyzed parameterFailure
  split
  · rename_i hlevel
    rw [if_pos hlevel] at hrefusal
    rw [Comparison.compare_of_refusal hrefusal]
    rfl
  rename_i hlevel
  rw [if_neg hlevel] at hrefusal
  split
  · rename_i hzero
    rw [if_pos hzero] at hrefusal
    rw [Comparison.compare_of_refusal hrefusal]
    rfl
  rename_i hzero
  rw [if_neg hzero] at hrefusal
  rw [Comparison.compare_of_no_refusal hrefusal]
  split
  · rename_i hle
    rw [Comparison.measure_faults _ hle]
    rfl
  · rename_i hlt
    obtain ⟨comparison, s, hok⟩ : ∃ comparison s, Comparison.measure b.2 c.2 config _ _ =
        .ok (comparison, s) :=
      Comparison.measure_ok (Nat.pos_of_ne_zero hzero) (Nat.lt_of_not_le hlt)
        (Random.WordStream.ofSeed seed)
    rw [hok]
    exact ⟨_, rfl, rfl, rfl⟩

/-- A comparison of two files meets the first failure in the order of its steps. -/
theorem compareFiles_meets (ht : OutlierWindow.validTolerance settings.tolerance = true)
    (hb : tree.Holds baseline baselineText) (hc : tree.Holds candidate candidateText)
    {xs ys : List Int64} (hxs : Samples.parse baselineText = .ok xs)
    (hys : Samples.parse candidateText = .ok ys) (seed : UInt64) :
    Meets (firstFailure baseline candidate xs.length ys.length settings.comparison)
      (fun r => ∃ b c, r.baseline.Complete b xs.length ∧ r.candidate.Complete c ys.length)
      ((compareFiles (m := StateM FileTree) baseline candidate settings seed).run.run tree).1 := by
  rw [compareFiles_run hb hc]
  refine (analyzeText_meets ht hxs baseline).bind fun b hb => ?_
  refine (analyzeText_meets ht hys candidate).bind fun c hc => ?_
  have hb2 : 2 ≤ b.2.size := Nat.le_trans (by decide) hb.enough
  have hc2 : 2 ≤ c.2.size := Nat.le_trans (by decide) hc.enough
  refine (compareAnalyzed_meets b c settings.comparison hb2 hc2 _).mono ?_
  rintro r ⟨hrb, hrc⟩
  exact ⟨b.2, c.2, hrb ▸ hb, hrc ▸ hc⟩

/-- What the first failure can be: no distribution is ever too small, and nothing faults where the
replicates can be addressed. -/
theorem firstFailure_cases {m n : Nat} {config : ComparisonConfig} {f : Failure}
    (h : firstFailure baseline candidate m n config = some f) :
    (∃ source count, f = .analysis ⟨source, .notEnoughSamples count Analysis.windowSize⟩) ∨
    (∃ level, f = .comparison (.invalidConfidenceLevel level)) ∨
    f = .comparison .noBootstrapIterations ∨
    (f = .fault .allocationTooLarge ∧ iterationLimit ≤ config.bootstrapIterations) := by
  unfold firstFailure at h
  rw [Option.or_eq_some_iff, Option.or_eq_some_iff, shortage_eq_some, shortage_eq_some] at h
  rcases h with ⟨-, rfl⟩ | ⟨-, ⟨-, rfl⟩ | ⟨-, h⟩⟩
  · exact .inl ⟨_, _, rfl⟩
  · exact .inl ⟨_, _, rfl⟩
  · unfold parameterFailure at h
    split at h
    · exact .inr (.inl ⟨_, (Option.some_inj.mp h).symm⟩)
    split at h
    · exact .inr (.inr (.inl (Option.some_inj.mp h).symm))
    split at h
    · exact .inr (.inr (.inr ⟨(Option.some_inj.mp h).symm, ‹_›⟩))
    · cases h

/-- **The failures of the program.** With settings that can be made, and texts that hold samples,
an analysis fails just where there are fewer samples than the window takes, and it never faults. A
comparison fails for the first of four reasons: its baseline or its candidate has too few samples,
its confidence level is not strictly between zero and one, or no replicate is to be drawn. It faults
only when none of these holds and there are more replicates than can be addressed. A listing has no
more samples than characters, so the integers fit their words for any text that a machine holds. -/
theorem failures_exact {o : CommandLine.Options} {c : Config} {settings : Settings}
    (h : Settings.resolve o c = .ok settings) :
    (∀ (source text : String) (samples : List Int64), Samples.parse text = .ok samples →
      let result := analyzeText source text settings.tolerance
      samples.length ≤ text.length ∧
      (∀ f, result = .error f ↔ samples.length < 8 ∧
        f = .analysis ⟨source, .notEnoughSamples samples.length 8⟩) ∧
      (8 ≤ samples.length → ∃ a d, result = .ok (a, d) ∧ a.Complete d samples.length)) ∧
    ∀ (tree : FileTree) (baseline candidate baselineText candidateText : String)
      (xs ys : List Int64) (seed : UInt64),
      tree.Holds baseline baselineText → tree.Holds candidate candidateText →
      Samples.parse baselineText = .ok xs → Samples.parse candidateText = .ok ys →
      let result :=
        ((compareFiles (m := StateM FileTree) baseline candidate settings seed).run.run tree).1
      let failure := firstFailure baseline candidate xs.length ys.length settings.comparison
      (∀ f, result = .error f ↔ failure = some f) ∧
      (failure = none → ∃ r b c, result = .ok r ∧ r.baseline.Complete b xs.length ∧
        r.candidate.Complete c ys.length ∧
        (xs.length < UInt64.size → Comparison.ResamplesFit b c)) ∧
      (∀ fault, result = .error (.fault fault) →
        fault = .allocationTooLarge ∧ iterationLimit ≤ settings.comparison.bootstrapIterations) ∧
      (∀ n, result ≠ .error (.comparison (.insufficientBaseline n))) ∧
      (∀ n, result ≠ .error (.comparison (.insufficientCandidate n))) ∧
      ∀ source e, result ≠ .error (.analysis ⟨source, .distribution e⟩) := by
  have ht := Settings.validTolerance h
  refine ⟨fun source text samples hparse => ?_, ?_⟩
  · have hmeets := analyzeText_meets ht hparse source
    refine ⟨Samples.length_le_of_parse hparse,
      fun f => (hmeets.error_iff f).trans shortage_eq_some, fun hlong => ?_⟩
    rw [shortage, if_neg (show ¬ samples.length < Analysis.windowSize from Nat.not_lt.mpr hlong)]
      at hmeets
    obtain ⟨⟨a, d⟩, hok, hcomplete⟩ := hmeets
    exact ⟨a, d, hok, hcomplete⟩
  · intro tree baseline candidate baselineText candidateText xs ys seed hb hc hxs hys result failure
    have hmeets : Meets failure _ result := compareFiles_meets ht hb hc hxs hys seed
    have hcases := fun f hf => firstFailure_cases ((hmeets.error_iff f).mp hf)
    refine ⟨hmeets.error_iff, ?_, ?_, ?_, ?_, ?_⟩
    · intro hnone
      rw [hnone] at hmeets
      obtain ⟨r, hok, b, c, hcb, hcc⟩ := hmeets
      exact ⟨r, b, c, hok, hcb, hcc, fun hlt =>
        Comparison.resamplesFit_of_size (Nat.lt_of_le_of_lt hcb.size_le hlt) c⟩
    · intro fault hf
      simpa using hcases _ hf
    · intro n hf
      simpa using hcases _ hf
    · intro n hf
      simpa using hcases _ hf
    · intro source e hf
      simpa using hcases _ hf

theorem failures_exact_steady :
    let steady := "7\n7\n7\n7\n7\n7\n7\n7\n"
    let slower := "9\n9\n9\n9\n9\n9\n9\n9\n9\n"
    let tree : FileTree := ⟨[(["old"], .file steady.toUTF8), (["new"], .file slower.toUTF8)], []⟩
    let settings : Settings := ⟨.human, OutlierWindow.defaultTolerance, none, {}⟩
    Settings.resolve {} {} = .ok settings ∧
    tree.Holds "old" steady ∧ tree.Holds "new" slower ∧
    Samples.parse steady = .ok (List.replicate 8 7) ∧
    Samples.parse slower = .ok (List.replicate 9 9) ∧
    (∃ r, ((compareFiles (m := StateM FileTree) "old" "new" settings 0).run.run tree).1 = .ok r ∧
      r.baseline.filter.recorded = 8 ∧ r.candidate.filter.recorded = 9) ∧
    analyzeText "short" "7\n7\n" settings.tolerance =
      .error (.analysis ⟨"short", .notEnoughSamples 2 8⟩) := by
  intro steady slower tree settings
  have hsettings : Settings.resolve {} {} = .ok settings :=
    Settings.resolve_eq_ok.mpr ⟨by decide +kernel, by decide +kernel, rfl⟩
  have hold : tree.Holds "old" steady := FileTree.holds_of_read rfl
  have hnew : tree.Holds "new" slower := FileTree.holds_of_read rfl
  have hsteady : Samples.parse steady = .ok (List.replicate 8 7) := by cbv
  have hslower : Samples.parse slower = .ok (List.replicate 9 9) := by cbv
  have hshort : Samples.parse "7\n7\n" = .ok [7, 7] := by cbv
  have hlevel : (0 : Float) < 0.95 ∧ (0.95 : Float) < 1 := by decide +kernel
  have hnone : firstFailure "old" "new" 8 9 settings.comparison = none := by
    simp [firstFailure, shortage, parameterFailure, hlevel, Analysis.windowSize, iterationLimit,
      settings]
  obtain ⟨hanalysis, hcomparison⟩ := failures_exact hsettings
  refine ⟨hsettings, hold, hnew, hsteady, hslower, ?_, ?_⟩
  · obtain ⟨-, hok, -⟩ :=
      hcomparison tree "old" "new" steady slower _ _ 0 hold hnew hsteady hslower
    obtain ⟨r, b, c, hr, hb, hc, -⟩ := hok hnone
    exact ⟨r, hr, hb.recorded, hc.recorded⟩
  · exact ((hanalysis "short" "7\n7\n" _ hshort).2.1 _).mpr ⟨by decide, rfl⟩

/-- Two sources that can be analysed, and parameters that are not refused, do not rule out a fault:
2^60 replicates of eight bytes cannot be addressed. -/
theorem compareFiles_faults_unaddressable :
    let steady := "100\n100\n100\n100\n100\n100\n100\n100\n"
    let tree : FileTree := ⟨[(["old"], .file steady.toUTF8), (["new"], .file steady.toUTF8)], []⟩
    let config : ComparisonConfig := { bootstrapIterations := 1152921504606846976 }
    let settings : Settings := ⟨.human, OutlierWindow.defaultTolerance, none, config⟩
    Settings.resolve {} { comparison := config } = .ok settings ∧
    tree.Holds "old" steady ∧ tree.Holds "new" steady ∧
    Samples.parse steady = .ok (List.replicate 8 100) ∧
    (0 < config.confidenceLevel ∧ config.confidenceLevel < 1) ∧ config.bootstrapIterations ≠ 0 ∧
    ((compareFiles (m := StateM FileTree) "old" "new" settings 0).run.run tree).1 =
      .error (.fault .allocationTooLarge) := by
  intro steady tree config settings
  have hsettings : Settings.resolve {} { comparison := config } = .ok settings :=
    Settings.resolve_eq_ok.mpr ⟨by decide +kernel, by decide +kernel, rfl⟩
  have hold : tree.Holds "old" steady := FileTree.holds_of_read rfl
  have hnew : tree.Holds "new" steady := FileTree.holds_of_read rfl
  have hparse : Samples.parse steady = .ok (List.replicate 8 100) := by cbv
  have hlevel : 0 < config.confidenceLevel ∧ config.confidenceLevel < 1 := by decide +kernel
  have hcount : config.bootstrapIterations ≠ 0 := by decide
  have hfailure : firstFailure "old" "new" 8 8 config = some (.fault .allocationTooLarge) := by
    simp [firstFailure, shortage, parameterFailure, hlevel, hcount, Analysis.windowSize,
      iterationLimit, config]
  have hmeets := compareFiles_meets (Settings.validTolerance hsettings) hold hnew hparse hparse 0
  exact ⟨hsettings, hold, hnew, hparse, hlevel, hcount, (hmeets.error_iff _).mpr hfailure⟩

end Program
end TimingStats
