import TimingStats.Distribution.Basic
import TimingStats.OutlierWindow

/-! # Recording samples

A recorder passes a stream of samples through the outlier window into a builder. The first
samples fill the window; from then on each sample is judged on arrival. A flagged sample is held
back. It is inserted when a later sample clears it, and dropped when it leaves the window still
flagged. -/

namespace TimingStats

/-- What became of a recorded sample, with the earlier one that it cleared. -/
inductive Recorded where
  | seeding
  | accepted (cleared : Option Int64)
  | rejected (cleared : Option Int64)
  deriving DecidableEq, Repr

def Recorded.cleared : Recorded → Option Int64
  | .seeding => none
  | .accepted v => v
  | .rejected v => v

structure RecorderStats where
  recorded : Nat
  /-- Samples inserted as soon as they were judged. -/
  accepted : Nat
  /-- Samples flagged when they were judged. -/
  rejected : Nat
  /-- Flagged samples inserted later. -/
  rehabilitated : Nat
  deriving DecidableEq, Repr

namespace RecorderStats

def zero : RecorderStats := ⟨0, 0, 0, 0⟩

def kept (s : RecorderStats) : Nat := s.accepted + s.rehabilitated

/-- Samples that were flagged and never cleared. -/
def dropped (s : RecorderStats) : Nat := s.rejected - s.rehabilitated

/-- The samples kept, as a counter of sixty-four bits. -/
def countKept (s : RecorderStats) : Except Fault Nat :=
  if s.kept < UInt64.size then .ok s.kept else .error .countOverflow

/-- The samples dropped; no more can have been cleared than were flagged. -/
def countDropped (s : RecorderStats) : Except Fault Nat :=
  if s.rehabilitated ≤ s.rejected then .ok s.dropped else .error .countUnderflow

end RecorderStats

/-- The state of a recording; the window exists once it is full. -/
structure Recorder where
  windowSize : Nat
  tolerance : Float
  seed : List Int64
  window : Option OutlierWindow
  builder : Builder
  stats : RecorderStats

structure RecordedRun where
  distribution : Distribution
  stats : RecorderStats

inductive RecorderError where
  | notEnoughSamples (got need : Nat)
  | distribution (e : DistributionError)
  deriving DecidableEq, Repr

def RecorderError.message : RecorderError → String
  | .notEnoughSamples got need =>
    "Not enough samples: got " ++ Decimal.digitText got ++ ", the filter window needs " ++
      Decimal.digitText need
  | .distribution e => e.message

namespace Recorder

def new (windowSize : Nat) (tolerance : Float := OutlierWindow.defaultTolerance) : Recorder :=
  ⟨windowSize, tolerance, [], none, .new, .zero⟩

/-- Inserts the samples of a first window; the first of them that equals the held one is passed
over. -/
def insertSeed (r : Recorder) (held : Option Int64) : List Int64 → Recorder
  | [] => r
  | x :: xs =>
    if held = some x then
      { r with stats.rejected := r.stats.rejected + 1 }.insertSeed none xs
    else
      { r with builder := r.builder.insert x, stats.accepted := r.stats.accepted + 1 }.insertSeed
        held xs

/-- Opens the window over the first samples and inserts those that it does not flag. -/
def openWindow (r : Recorder) : Except Fault Recorder := do
  let w ← OutlierWindow.ofSamples r.seed r.tolerance
  return { r.insertSeed w.outlier w.samples with window := some w }

def rehabilitate (r : Recorder) : Option Int64 → Recorder
  | none => r
  | some v => { r with
    builder := r.builder.insert v
    stats := { r.stats with rehabilitated := r.stats.rehabilitated + 1 } }

def settle (r : Recorder) (sample : Int64) (verdict : Verdict) : Recorded × Recorder :=
  let r := r.rehabilitate verdict.cleared
  if verdict.isOutlier then
    (.rejected verdict.cleared,
      { r with stats := { r.stats with rejected := r.stats.rejected + 1 } })
  else
    (.accepted verdict.cleared,
      { r with
        builder := r.builder.insert sample
        stats := { r.stats with accepted := r.stats.accepted + 1 } })

/-- Records one sample. The tolerance is looked at when the window fills. -/
def record (r : Recorder) (sample : Int64) : Except Fault (Recorded × Recorder) := do
  let r := { r with stats := { r.stats with recorded := r.stats.recorded + 1 } }
  match r.window with
  | some w =>
    let (w, verdict) ← w.apply sample
    return { r with window := some w }.settle sample verdict
  | none =>
    let r := { r with seed := r.seed ++ [sample] }
    if r.seed.length = r.windowSize then return (.seeding, ← r.openWindow)
    else return (.seeding, r)

def recordEach (r : Recorder) : List Int64 → Except Fault (List Recorded × Recorder)
  | [] => .ok ([], r)
  | x :: xs => do
    let (first, r) ← r.record x
    let (rest, r) ← r.recordEach xs
    return (first :: rest, r)

def recordAll (r : Recorder) (samples : List Int64) : Except Fault Recorder :=
  samples.foldlM (fun r x => Prod.snd <$> r.record x) r

/-- The distribution of what was kept; it takes a full window. -/
def finish (r : Recorder) : Except RecorderError RecordedRun :=
  match r.window with
  | none => .error (.notEnoughSamples r.seed.length r.windowSize)
  | some _ =>
    match r.builder.build with
    | .ok d => .ok ⟨d, r.stats⟩
    | .error e => .error (.distribution e)

end Recorder
end TimingStats
