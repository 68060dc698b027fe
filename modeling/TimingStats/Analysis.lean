import TimingStats.Recorder
import TimingStats.Summary

/-! # Analysing samples

The samples of one source are recorded through the outlier window, and what is kept of them is
summarised. -/

namespace TimingStats

structure Analysis where
  source : String
  filter : RecorderStats
  summary : Summary
  percentiles : Percentiles

structure AnalysisError where
  source : String
  cause : RecorderError
  deriving DecidableEq, Repr

def AnalysisError.messages (e : AnalysisError) : List String :=
  ["Cannot analyze " ++ e.source, e.cause.message]

namespace Analysis

def windowSize : Nat := 8

/-- Records samples and summarises what is kept, in a report and as a distribution. -/
def ofSamples (source : String) (samples : List Int64) (tolerance : Float) :
    Except Fault (Except AnalysisError (Analysis × Distribution)) := do
  let r ← (Recorder.new windowSize tolerance).recordAll samples
  match r.finish with
  | .error cause => return .error ⟨source, cause⟩
  | .ok run =>
    let d := run.distribution
    return .ok (⟨source, run.stats, ← d.summary, d.percentiles⟩, d)

end Analysis
end TimingStats
