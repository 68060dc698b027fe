import TimingStats.Distribution.Basic

/-! # Percentiles by nearest rank

A percentile is the observation at a rank, with no interpolation. The rank is worked out in
doubles, so a product that lands within a few units in the last place of an integer is taken to
be that integer. -/

namespace TimingStats

structure Percentiles where
  p50 : Int64
  p75 : Int64
  p90 : Int64
  p95 : Int64
  p99 : Int64
  p999 : Int64
  deriving DecidableEq, Repr

namespace Percentile

/-- Brings a percentile into the range from 0 to 100; a number that is none stays. -/
def clamp (p : Float) : Float := if p < 0 then 0 else if 100 < p then 100 else p

def epsilon : Float := Binary64.powerOfTwo (-52)

/-- Whether a double is near enough to an integer to stand for it. -/
def snaps (exact : Float) (nearest : Int) : Bool :=
  (exact - Float.ofInt nearest).abs ≤ exact.abs * 4 * epsilon

/-- The one-based rank that a percentile reaches among `n` observations. -/
def nearestRank (p : Float) (n : Nat) : Nat :=
  let exact := clamp p * Float.ofNat n / 100
  if Binary64.isNaN exact then 0
  else
    let nearest := Binary64.round exact
    let rank := if snaps exact nearest then nearest else Binary64.ceil exact
    min rank.toNat (UInt64.size - 1)

/-- The rank counted from zero; it lies below `n`. -/
def rankIndex (p : Float) (n : Nat) : Nat := min (nearestRank p n - 1) (n - 1)

theorem rankIndex_lt (p : Float) {n : Nat} (h : 0 < n) : rankIndex p n < n := by
  unfold rankIndex
  omega

end Percentile

namespace Distribution

def percentile (d : Distribution) (p : Float) : Int64 :=
  d.valueAt ⟨Percentile.rankIndex p d.size, Percentile.rankIndex_lt p d.size_pos⟩

def percentiles (d : Distribution) : Percentiles where
  p50 := d.percentile 50
  p75 := d.percentile 75
  p90 := d.percentile 90
  p95 := d.percentile 95
  p99 := d.percentile 99
  p999 := d.percentile 99.9

end Distribution
end TimingStats
