import TimingStats.Percentile

/-! # Summary statistics

The figures that describe one distribution. Sums are exact, so each figure depends on the
observations alone and not on the order in which they came. -/

namespace TimingStats

structure Summary where
  mean : Float
  median : Float
  stdDev : Float
  min : Int64
  max : Int64
  p50 : Int64
  p90 : Int64
  p95 : Int64
  p99 : Int64
  p999 : Int64
  sampleCount : Nat
  distinctValues : Nat

namespace Distribution

/-- The middle observation, or the point halfway between the middle two. -/
def median (d : Distribution) : Float :=
  let n := d.size
  have upper : n / 2 < n := Nat.div_lt_self d.size_pos (by decide)
  let high := Float.ofInt (d.valueAt ⟨n / 2, upper⟩).toInt
  if n % 2 = 0 then
    let low := Float.ofInt (d.valueAt ⟨n / 2 - 1, by omega⟩).toInt
    low + (high - low) / 2
  else high

def squaredDistances (d : Distribution) (centre : Float) : List Float :=
  d.bins.map fun b =>
    let distance := Float.ofInt b.value.toInt - centre
    Float.ofNat b.count * (distance * distance)

/-- The sample standard deviation about a centre; a single observation has none. -/
def deviation (d : Distribution) (centre : Float) : Except Fault Float := do
  if d.size < 2 then return 0
  return ((← exactSum (d.squaredDistances centre)) / Float.ofNat (d.size - 1)).sqrt

def summary (d : Distribution) : Except Fault Summary := do
  let mean ← d.mean
  let stdDev ← d.deviation mean
  let percentiles := d.percentiles
  return {
    mean
    median := d.median
    stdDev
    min := d.min
    max := d.max
    p50 := percentiles.p50
    p90 := percentiles.p90
    p95 := percentiles.p95
    p99 := percentiles.p99
    p999 := percentiles.p999
    sampleCount := d.size
    distinctValues := d.distinct }

end Distribution

namespace Summary

/-- The standard deviation in percent of the mean; zero where the mean is zero. -/
def coefficientOfVariation (s : Summary) : Float :=
  if s.mean == 0 then 0 else s.stdDev / s.mean.abs * 100

def isStable (s : Summary) (threshold : Float) : Bool := s.coefficientOfVariation < threshold

end Summary
end TimingStats
