import TimingStats.Analysis
import TimingStats.Comparison
import TimingStats.Text.Casing

/-! # Reports

An analysis of one source, or the comparison of two, is reported as text for a terminal or as a
JSON document. -/

namespace TimingStats

structure ComparisonReport where
  baseline : Analysis
  candidate : Analysis
  comparison : Comparison

inductive OutputFormat where
  | json
  | human
  deriving DecidableEq, Repr

/-- The name of no format, in lower case. -/
structure UnknownFormat where
  name : String
  deriving DecidableEq, Repr

def UnknownFormat.message (e : UnknownFormat) : String := "Unknown output format: " ++ e.name

/-- The format of a name, in whatever case it is written. -/
def OutputFormat.ofName (name : String) : Except UnknownFormat OutputFormat :=
  match Text.lowercase name with
  | "json" => .ok .json
  | "human" | "text" => .ok .human
  | other => .error ⟨other⟩

end TimingStats
