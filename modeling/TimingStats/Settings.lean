import TimingStats.CommandLine.Basic
import TimingStats.Config
import TimingStats.Report.Basic

/-! # Settings

The settings of a run come from the options of the command line and, where these say nothing,
from the configuration. -/

namespace TimingStats

structure Settings where
  format : OutputFormat
  tolerance : Float
  seed : Option UInt64
  comparison : ComparisonConfig

inductive SettingsError where
  | unknownFormat (e : UnknownFormat)
  | invalidTolerance (tolerance : Float)

def SettingsError.message : SettingsError → String
  | .unknownFormat e => e.message
  | .invalidTolerance t =>
    "Filter tolerance must be finite and non-negative, got " ++ Decimal.plain t

/-- Settles the format and then the tolerance. -/
def Settings.resolve (o : CommandLine.Options) (c : Config) : Except SettingsError Settings := do
  let format ← (OutputFormat.ofName (o.format.getD c.format)).mapError .unknownFormat
  let tolerance := o.tolerance.getD c.tolerance
  if !Binary64.isFinite tolerance || tolerance < 0 then throw (.invalidTolerance tolerance)
  return ⟨format, tolerance, o.seed.or c.seed, c.comparison⟩

end TimingStats
