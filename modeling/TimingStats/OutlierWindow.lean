import TimingStats.Fault
import TimingStats.Saturation

/-! # Outliers in a sliding window

Timing samples are judged against the last few of them, of which at most one is taken to be
corrupted. A sample is flagged when it stands alone above everything else and passes the bound
`maxNormal + ceil ((maxNormal - min) * tolerance)`. A flag is provisional: a second occurrence
of the value, or a wider spread of the others, clears it.

The statistics of the window are kept up to date from step to step. A scan of the whole window
is needed only when the last occurrence of its minimum, or of its greatest unflagged value,
leaves it. -/

namespace TimingStats

/-- The samples of a window with what is known of them. The oldest is the next to be replaced;
the flagged one, if any, is the greatest. -/
structure OutlierWindow where
  samples : List Int64
  oldest : Nat
  min : Int64
  minCount : Nat
  maxNormal : Int64
  maxNormalCount : Nat
  max : Int64
  upperTolerance : Int64
  flagged : Option Nat
  tolerance : Float

structure Verdict where
  isOutlier : Bool := false
  /-- Whether the sample flagged before has been cleared of its flag. -/
  clearsPrevious : Bool := false
  /-- The sample so cleared, and zero where there is none. -/
  previous : Int64 := 0
  deriving DecidableEq, Repr

def Verdict.cleared (v : Verdict) : Option Int64 :=
  if v.clearsPrevious then some v.previous else none

structure Tally where
  value : Int64
  count : Nat
  deriving DecidableEq, Repr

def Tally.meet (t : Tally) (x : Int64) : Tally :=
  if t.value < x then ⟨x, 1⟩
  else if x = t.value then { t with count := t.count + 1 }
  else t

/-- The two greatest values met in one pass over a window, with the place of the first. -/
structure TopTwo where
  max : Tally
  place : Nat
  second : Tally
  deriving DecidableEq, Repr

def TopTwo.meet (s : TopTwo) (x : Int64 × Nat) : TopTwo :=
  if s.max.value < x.1 then
    ⟨⟨x.1, 1⟩, x.2, if 0 < s.max.count then s.max else s.second⟩
  else if x.1 = s.max.value then { s with max.count := s.max.count + 1 }
  else { s with second := s.second.meet x.1 }

namespace OutlierWindow

def defaultTolerance : Float := 1

/-- A tolerance is a finite number that is not negative. -/
def validTolerance (t : Float) : Bool := Binary64.isFinite t && 0 ≤ t

/-- Values above this bound are candidates. The margin is brought into range before it is added,
and so is the sum. -/
def toleranceBound (min maxNormal : Int64) (tolerance : Float) : Int64 :=
  let spread := (UInt64.ofNat (maxNormal.toInt - min.toInt).natAbs).toFloat
  let margin := saturateCeil (spread * tolerance)
  saturate (maxNormal.toInt + margin.toInt)

def least (xs : List Int64) : Int64 := xs.foldl Min.min Int64.maxValue

/-- The greatest of the values and how often it occurs; of none, the least integer. -/
def tallyMax (xs : List Int64) : Tally := xs.foldl Tally.meet ⟨Int64.minValue, 0⟩

def topTwo (xs : List Int64) : TopTwo :=
  xs.zipIdx.foldl TopTwo.meet ⟨⟨Int64.minValue, 0⟩, 0, ⟨Int64.minValue, 0⟩⟩

def normals (samples : List Int64) (flagged : Option Nat) : List Int64 :=
  match flagged with
  | some i => samples.eraseIdx i
  | none => samples

def outlier (w : OutlierWindow) : Option Int64 := w.flagged.map fun i => w.samples.getD i 0

def rebound (w : OutlierWindow) : OutlierWindow :=
  { w with upperTolerance := toleranceBound w.min w.maxNormal w.tolerance }

def withNormal (w : OutlierWindow) (t : Tally) : OutlierWindow :=
  { w with maxNormal := t.value, maxNormalCount := t.count }.rebound

def rescanMin (w : OutlierWindow) : OutlierWindow :=
  let m := least w.samples
  { w with min := m, minCount := w.samples.count m }

/-- Scans for the greatest unflagged value. A scan never flags a sample. -/
def rescanMax (w : OutlierWindow) : OutlierWindow :=
  let t := tallyMax (normals w.samples w.flagged)
  { w with max := w.outlier.getD t.value }.withNormal t

/-- Judges the first full window: a maximum that occurs once is flagged if it passes the bound
of the others. -/
def judgeMax (w : OutlierWindow) : OutlierWindow :=
  let s := topTwo w.samples
  let all := { w with max := s.max.value, flagged := none }.withNormal s.max
  if s.max.count = 1 then
    let others := { w with max := s.max.value, flagged := none }.withNormal s.second
    if others.upperTolerance < s.max.value then { others with flagged := some s.place } else all
  else all

def ofSamples (samples : List Int64) (tolerance : Float) : Except Fault OutlierWindow :=
  if validTolerance tolerance then
    .ok (OutlierWindow.judgeMax <| OutlierWindow.rescanMin {
      samples, oldest := 0, min := 0, minCount := 0, maxNormal := 0, maxNormalCount := 0, max := 0,
      upperTolerance := 0, flagged := none, tolerance })
  else .error (.invalidTolerance tolerance)

/-- Clears the flag of the greatest sample, which then counts as occurring some number of times
among the others. -/
def clear (w : OutlierWindow) (v : Verdict) (count : Nat) :
    Except Fault (OutlierWindow × Verdict) :=
  if w.flagged.isSome then
    .ok ({ w with flagged := none }.withNormal ⟨w.max, count⟩,
      { v with clearsPrevious := true, previous := w.max })
  else .error .nothingFlagged

def clearWithin (w : OutlierWindow) (v : Verdict) : Except Fault (OutlierWindow × Verdict) :=
  if w.flagged.isSome && w.max ≤ w.upperTolerance then w.clear v 1 else .ok (w, v)

def meetMin (w : OutlierWindow) (x : Int64) (v : Verdict) :
    Except Fault (OutlierWindow × Verdict) :=
  if x < w.min then { w with min := x, minCount := 1 }.rebound.clearWithin v
  else if x = w.min then .ok ({ w with minCount := w.minCount + 1 }, v)
  else .ok (w, v)

/-- Makes a new sample the greatest, with none flagged: it is flagged if it passes the bound. -/
def raiseMax (w : OutlierWindow) (x : Int64) (v : Verdict) : OutlierWindow × Verdict :=
  let w := { w with max := x }
  if w.upperTolerance < x then (w, { v with isOutlier := true }) else (w.withNormal ⟨x, 1⟩, v)

def exceedMax (w : OutlierWindow) (x : Int64) (v : Verdict) :
    Except Fault (OutlierWindow × Verdict) := do
  let (w, v) ← if w.flagged.isSome then w.clear v 1 else .ok (w, v)
  return w.raiseMax x v

/-- Takes another occurrence of the greatest sample into account. Two occurrences of one value
cannot both be outliers. -/
def repeatMax (w : OutlierWindow) (v : Verdict) : Except Fault (OutlierWindow × Verdict) :=
  if w.flagged.isSome then w.clear v 2
  else .ok ({ w with maxNormalCount := w.maxNormalCount + 1 }, v)

def meetNormal (w : OutlierWindow) (x : Int64) (v : Verdict) :
    Except Fault (OutlierWindow × Verdict) :=
  if w.maxNormal < x then (w.withNormal ⟨x, 1⟩).clearWithin v
  else if x = w.maxNormal then .ok ({ w with maxNormalCount := w.maxNormalCount + 1 }, v)
  else .ok (w, v)

def meetMax (w : OutlierWindow) (x : Int64) (v : Verdict) :
    Except Fault (OutlierWindow × Verdict) :=
  if w.max < x then w.exceedMax x v
  else if x = w.max then w.repeatMax v
  else w.meetNormal x v

/-- One occurrence less, if it is one that was counted. -/
def countDown (count : Nat) (occurs : Bool) : Except Fault Nat :=
  if occurs then
    match count with
    | 0 => .error .countUnderflow
    | n + 1 => .ok n
  else .ok count

def afterLoss (w : OutlierWindow) (lost : Int64) : Except Fault OutlierWindow := do
  let minCount ← countDown w.minCount (lost = w.min)
  let maxNormalCount ← countDown w.maxNormalCount (lost = w.maxNormal)
  let w := { w with minCount, maxNormalCount }
  let minGone := minCount == 0
  let w := if minGone then w.rescanMin else w
  if maxNormalCount = 0 then return w.rescanMax
  else if minGone then return w.rebound
  else return w

/-- Puts a new sample in the place of the oldest. If the flagged sample leaves, all that remain
are unflagged. -/
def replaceOldest (w : OutlierWindow) (x : Int64) (isOutlier : Bool) :
    Except Fault OutlierWindow :=
  let slot := w.oldest
  let lost := w.samples.getD slot 0
  let lostFlagged := w.flagged == some slot
  let next := { w with
    samples := w.samples.set slot x
    oldest := (slot + 1) % w.samples.length
    flagged := if isOutlier then some slot else w.flagged }
  if isOutlier && lostFlagged then .error .flaggedTwice
  else if lostFlagged then .ok { next with flagged := none, max := next.maxNormal }
  else next.afterLoss lost

/-- Judges a new sample, which then replaces the oldest. -/
def apply (w : OutlierWindow) (x : Int64) : Except Fault (OutlierWindow × Verdict) := do
  let (w, v) ← w.meetMin x {}
  let (w, v) ← w.meetMax x v
  return (← w.replaceOldest x v.isOutlier, v)

end OutlierWindow
end TimingStats
