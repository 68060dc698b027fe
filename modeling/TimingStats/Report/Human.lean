import TimingStats.Report.Basic
import TimingStats.Report.Duration

/-! # Reports for a terminal

Each source takes a block of lines under its name. A comparison shows both sources and then the
verdict. -/

namespace TimingStats.Report

def title (text : String) : String := "\n" ++ text ++ "\n" ++ "".pushn '=' 60 ++ "\n\n"

def analysisBlock (a : Analysis) : Except Fault String := do
  let s := a.summary
  let p := a.percentiles
  let kept ← a.filter.countKept
  let dropped ← a.filter.countDropped
  return "  " ++ a.source ++ "\n" ++
    "      mean: " ++ duration s.mean ++ "  median: " ++ duration s.median ++
      "  stddev: " ++ duration s.stdDev ++ "\n" ++
    "      min: " ++ sampleDuration s.min ++ "  max: " ++ sampleDuration s.max ++
      "  samples: " ++ Decimal.digitText s.sampleCount ++ " (" ++
      Decimal.digitText s.distinctValues ++ " distinct)\n" ++
    "      p50: " ++ sampleDuration p.p50 ++ "  p95: " ++ sampleDuration p.p95 ++
      "  p99: " ++ sampleDuration p.p99 ++ "  p99.9: " ++ sampleDuration p.p999 ++ "\n" ++
    "      filter: " ++ Decimal.digitText a.filter.recorded ++ " recorded, " ++
      Decimal.digitText kept ++ " kept, " ++ Decimal.digitText dropped ++ " dropped (" ++
      Decimal.digitText a.filter.rehabilitated ++ " rehabilitated)\n" ++
    "      cv: " ++ twoPlaces s.coefficientOfVariation ++ "%\n"

def humanAnalysis (a : Analysis) : Except Fault String := do
  return title "QuietBench Analysis" ++ (← analysisBlock a)

/-- The verdict on a change. Only a significant one is called better or worse. -/
def changeLabel (c : Comparison) : String :=
  if !c.isSignificant then "≈ no significant change"
  else if 0 < c.relativeChange then "📈 REGRESSION"
  else "📉 improvement"

def signedPlaces (x : Float) : String := Decimal.fixed 2 .always x

def percent (x : Float) : String := Decimal.fixed 1 .onlyMinus (x * 100) ++ "%"

def comparisonBlock (c : Comparison) : String :=
  "Comparison\n" ++ "".pushn '-' 60 ++ "\n" ++
    "  change: " ++ signedPlaces c.relativeChange ++ "% (mean " ++
      signedPlaces c.absoluteChange ++ " ns) " ++ changeLabel c ++ "\n" ++
    "  P(regression): " ++ percent c.probabilityRegression ++ "\n" ++
    "  slower sample pairs: " ++ percent c.probabilitySlowerSample ++ "\n" ++
    "  mean difference CI: [" ++ duration c.intervalLower ++ ", " ++
      duration c.intervalUpper ++ "]\n" ++
    "  effect size: " ++ twoPlaces c.effectSize ++ " (" ++ c.effect.text ++ ")\n"

def humanComparison (r : ComparisonReport) : Except Fault String := do
  return title "QuietBench Comparison Results" ++
    "Baseline\n" ++ (← analysisBlock r.baseline) ++ "\n" ++
    "Candidate\n" ++ (← analysisBlock r.candidate) ++ "\n" ++
    comparisonBlock r.comparison

end TimingStats.Report
