import TimingStats.Decimal.Fixed

/-! # Durations in readable units

A number of nanoseconds is shown in the greatest unit of which it holds at least one, with two
places. -/

namespace TimingStats.Report

/-- Two places after the point, with a sign before negative numbers only. -/
def twoPlaces (x : Float) : String := Decimal.fixed 2 .onlyMinus x

def duration (nanoseconds : Float) : String :=
  let size := nanoseconds.abs
  if size < 1000 then twoPlaces nanoseconds ++ " ns"
  else if size < 1000000 then twoPlaces (nanoseconds / 1000) ++ " µs"
  else if size < 1000000000 then twoPlaces (nanoseconds / 1000000) ++ " ms"
  else twoPlaces (nanoseconds / 1000000000) ++ " s"

def sampleDuration (v : Int64) : String := duration (Float.ofInt v.toInt)

end TimingStats.Report
