import TimingStats.Distribution.Derived
import TimingStats.Summary

/-! # Comparing two distributions

A candidate is compared with a baseline. The interval and the probability of a regression come
from bootstrapping the difference of means; the share of slower samples and the relative change
come from resampled differences and ratios. Draws are made in a fixed order: in every iteration
first the candidate's and then the baseline's, and after all iterations the differences and then
the ratios. -/

namespace TimingStats

structure ComparisonConfig where
  confidenceLevel : Float := 0.95
  /-- The relative change in percent that counts as significant. -/
  significanceThreshold : Float := 5
  bootstrapIterations : Nat := 1000

inductive EffectInterpretation where
  | negligible
  | small
  | medium
  | large
  deriving DecidableEq, Repr

def EffectInterpretation.text : EffectInterpretation → String
  | .negligible => "negligible"
  | .small => "small"
  | .medium => "medium"
  | .large => "large"

structure Comparison where
  baseline : Summary
  candidate : Summary
  /-- The median ratio as a change in percent. -/
  relativeChange : Float
  /-- The difference of the means. -/
  absoluteChange : Float
  probabilityRegression : Float
  probabilitySlowerSample : Float
  intervalLower : Float
  intervalUpper : Float
  isSignificant : Bool
  effectSize : Float
  effect : EffectInterpretation

inductive ComparisonError where
  | insufficientBaseline (size : Nat)
  | insufficientCandidate (size : Nat)
  | invalidConfidenceLevel (level : Float)
  | noBootstrapIterations

def ComparisonError.message : ComparisonError → String
  | .insufficientBaseline n =>
    "Baseline needs at least 2 samples, got " ++ Decimal.digitText n
  | .insufficientCandidate n =>
    "Candidate needs at least 2 samples, got " ++ Decimal.digitText n
  | .invalidConfidenceLevel level =>
    "Invalid confidence level " ++ Decimal.plain level ++ ": must be strictly between 0 and 1"
  | .noBootstrapIterations => "At least one bootstrap iteration is required"

namespace Comparison

open TimingStats.Random

def refusal (baseline candidate : Distribution) (config : ComparisonConfig) :
    Option ComparisonError :=
  if baseline.size < 2 then some (.insufficientBaseline baseline.size)
  else if candidate.size < 2 then some (.insufficientCandidate candidate.size)
  else if !(0 < config.confidenceLevel && config.confidenceLevel < 1) then
    some (.invalidConfidenceLevel config.confidenceLevel)
  else if config.bootstrapIterations = 0 then some .noBootstrapIterations
  else none

/-- The sum of some number of draws, added to a running total. -/
def drawnTotal [RankSource σ] (d : Distribution) : Nat → Int → σ → Int × σ
  | 0, total, s => (total, s)
  | n + 1, total, s =>
    let (v, s) := d.choose s
    drawnTotal d n (total + v.toInt) s

/-- The mean of as many draws, with replacement, as there are observations. -/
def resampledMean [RankSource σ] (d : Distribution) (s : σ) : Float × σ :=
  let (total, s) := drawnTotal d d.size 0 s
  (Float.ofInt total / Float.ofNat d.size, s)

/-- Adds replicates of the difference of means, candidate less baseline, to those found. -/
def replicates [RankSource σ] (baseline candidate : Distribution) :
    Nat → List Float → σ → List Float × σ
  | 0, found, s => (found, s)
  | n + 1, found, s =>
    let (c, s) := resampledMean candidate s
    let (b, s) := resampledMean baseline s
    replicates baseline candidate n ((c - b) :: found) s

/-- An integer that orders doubles as their values do, with -0 before 0. -/
def orderKey (x : Float) : Int :=
  let distance : Int := (x.toBits &&& 0x7fffffffffffffff).toNat
  if Binary64.negative x then -distance - 1 else distance

def sorted (xs : List Float) : List Float :=
  xs.mergeSort fun x y => orderKey x ≤ orderKey y

theorem length_replicates [RankSource σ] (baseline candidate : Distribution) (n : Nat)
    (found : List Float) (s : σ) :
    (replicates baseline candidate n found s).1.length = found.length + n := by
  induction n generalizing found s with
  | zero => rfl
  | succ n ih =>
    rw [replicates, ih, List.length_cons]
    omega

/-- Replicates in increasing order, at least one. -/
structure Shifts where
  values : Array Float
  nonempty : 0 < values.size

/-- Draws some number of replicates and sorts them. A double takes eight bytes, and all of them
must be addressable. -/
def bootstrap [RankSource σ] (baseline candidate : Distribution) (iterations : Nat)
    (h : 0 < iterations) (s : σ) : Except Fault (Shifts × σ) :=
  if UInt64.size / 2 ≤ 8 * iterations then .error .allocationTooLarge
  else
    let drawn := replicates baseline candidate iterations [] s
    .ok (⟨(sorted drawn.1).toArray, by
      rw [List.size_toArray, sorted, List.length_mergeSort, length_replicates]
      exact Nat.add_pos_right 0 h⟩, drawn.2)

/-- The replicate at a fraction of the way through all of them, the last at most. -/
def Shifts.atFraction (shifts : Shifts) (fraction : Float) : Float :=
  let i := (fraction * Float.ofNat shifts.values.size).toUInt64.toNat
  have last := shifts.nonempty
  shifts.values[min i (shifts.values.size - 1)]

def Shifts.positiveShare (shifts : Shifts) : Float :=
  Float.ofNat (shifts.values.countP fun d => 0 < d) / Float.ofNat shifts.values.size

def pooledDeviation (baseline candidate : Summary) : Float :=
  let n1 := Float.ofNat baseline.sampleCount
  let n2 := Float.ofNat candidate.sampleCount
  let var1 := baseline.stdDev * baseline.stdDev
  let var2 := candidate.stdDev * candidate.stdDev
  (((n1 - 1) * var1 + (n2 - 1) * var2) / (n1 + n2 - 2)).sqrt

/-- The difference of means in pooled standard deviations; zero where nothing varies. -/
def standardizedEffect (baseline candidate : Summary) : Float :=
  let pooled := pooledDeviation baseline candidate
  if 0 < pooled then (candidate.mean - baseline.mean) / pooled else 0

def interpret (effect : Float) : EffectInterpretation :=
  let d := effect.abs
  if d < 0.2 then .negligible
  else if d < 0.5 then .small
  else if d < 0.8 then .medium
  else .large

/-- Ratios are counted in ten-thousandths. -/
def ratioScale : Int64 := 10000

/-- A change is significant if the interval leaves out zero and the change is great enough. -/
def significant (lower upper relative threshold : Float) : Bool :=
  (0 < lower || upper < 0) && threshold ≤ relative.abs

def measure [RankSource σ] (baseline candidate : Distribution) (config : ComparisonConfig)
    (positive : 0 < config.bootstrapIterations) (s : σ) : Except Fault (Comparison × σ) := do
  let baselineSummary ← baseline.summary
  let candidateSummary ← candidate.summary
  let (shifts, s) ← bootstrap baseline candidate config.bootstrapIterations positive s
  let alpha := 1 - config.confidenceLevel
  let lower := shifts.atFraction (alpha / 2)
  let upper := shifts.atFraction (1 - alpha / 2)
  let (difference, s) ← Builder.new.subtract candidate baseline s
  let (ratio, s) ← difference.reset.scaledDiv candidate ratioScale baseline s
  let medianRatio := Float.ofInt (ratio.percentile 50).toInt
  let relative := medianRatio * 100 / Float.ofInt ratioScale.toInt - 100
  let effect := standardizedEffect baselineSummary candidateSummary
  return ({
    baseline := baselineSummary
    candidate := candidateSummary
    relativeChange := relative
    absoluteChange := candidateSummary.mean - baselineSummary.mean
    probabilityRegression := shifts.positiveShare
    probabilitySlowerSample :=
      1 - Float.ofNat (difference.countAtMost 0) / Float.ofNat difference.size
    intervalLower := lower
    intervalUpper := upper
    isSignificant := significant lower upper relative config.significanceThreshold
    effectSize := effect
    effect := interpret effect }, s)

theorem iterations_pos_of_refusal {baseline candidate : Distribution} {config : ComparisonConfig}
    (h : refusal baseline candidate config = none) : 0 < config.bootstrapIterations := by
  unfold refusal at h
  split at h
  · cases h
  · split at h
    · cases h
    · split at h
      · cases h
      · split at h
        · cases h
        · rename_i hne
          exact Nat.pos_of_ne_zero hne

/-- Compares a candidate with a baseline. The source comes back in any case, as it was if the
comparison is refused. -/
def attempt [RankSource σ] (baseline candidate : Distribution) (config : ComparisonConfig)
    (s : σ) : Except Fault (Except ComparisonError Comparison × σ) :=
  match h : refusal baseline candidate config with
  | some e => .ok (.error e, s)
  | none => do
    let (c, s) ← measure baseline candidate config (iterations_pos_of_refusal h) s
    return (.ok c, s)

/-- The comparison of a candidate with a baseline, and the source that is left after it. -/
def compare [RankSource σ] (baseline candidate : Distribution) (config : ComparisonConfig)
    (s : σ) : Except Fault (Except ComparisonError (Comparison × σ)) := do
  let (result, s) ← attempt baseline candidate config s
  return result.map (·, s)

end Comparison
end TimingStats
