import TimingStats.Json
import TimingStats.Report.Basic

/-! # Reports as JSON documents -/

namespace TimingStats.Report

def sampleValue (v : Int64) : Json := .int v.toInt

def countValue (n : Nat) : Json := .int n

def statsDocument (s : RecorderStats) : Json :=
  .object [("recorded", countValue s.recorded), ("accepted", countValue s.accepted),
    ("rejected", countValue s.rejected), ("rehabilitated", countValue s.rehabilitated)]

def summaryDocument (s : Summary) : Json :=
  .object [("mean", .float s.mean), ("median", .float s.median), ("std_dev", .float s.stdDev),
    ("min", sampleValue s.min), ("max", sampleValue s.max), ("p50", sampleValue s.p50),
    ("p90", sampleValue s.p90), ("p95", sampleValue s.p95), ("p99", sampleValue s.p99),
    ("p999", sampleValue s.p999), ("sample_count", countValue s.sampleCount),
    ("distinct_values", countValue s.distinctValues)]

def percentilesDocument (p : Percentiles) : Json :=
  .object [("p50", sampleValue p.p50), ("p75", sampleValue p.p75), ("p90", sampleValue p.p90),
    ("p95", sampleValue p.p95), ("p99", sampleValue p.p99), ("p999", sampleValue p.p999)]

def analysisDocument (a : Analysis) : Json :=
  .object [("source", .string a.source), ("filter", statsDocument a.filter),
    ("summary", summaryDocument a.summary), ("percentiles", percentilesDocument a.percentiles)]

def comparisonDocument (c : Comparison) : Json :=
  .object [("baseline_stats", summaryDocument c.baseline),
    ("candidate_stats", summaryDocument c.candidate),
    ("relative_change", .float c.relativeChange), ("absolute_change", .float c.absoluteChange),
    ("probability_regression", .float c.probabilityRegression),
    ("probability_slower_sample", .float c.probabilitySlowerSample),
    ("difference_ci_lower", .float c.intervalLower),
    ("difference_ci_upper", .float c.intervalUpper),
    ("is_significant", .bool c.isSignificant), ("effect_size", .float c.effectSize),
    ("effect_interpretation", .string c.effect.text)]

def comparisonReportDocument (r : ComparisonReport) : Json :=
  .object [("baseline", analysisDocument r.baseline),
    ("candidate", analysisDocument r.candidate),
    ("comparison", comparisonDocument r.comparison)]

def analysisJson (a : Analysis) : String := (analysisDocument a).pretty

def comparisonJson (r : ComparisonReport) : String := (comparisonReportDocument r).pretty

end TimingStats.Report
