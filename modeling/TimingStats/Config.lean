import TimingStats.Comparison
import TimingStats.OutlierWindow
import TimingStats.Toml.Document

/-! # Configuration

A configuration gives the parameters of filtering, sampling, comparing, and reporting. It is read
from four sections of a TOML document. What a document leaves out keeps its default, and what it
adds does not count. -/

namespace TimingStats

structure Config where
  tolerance : Float := OutlierWindow.defaultTolerance
  /-- The seed of resampling; without one, every run draws differently. -/
  seed : Option UInt64 := none
  comparison : ComparisonConfig := {}
  /-- The name of the format to report in. -/
  format : String := "human"

namespace Config

def fileName : String := "quiet.toml"

section Reading

open Toml

/-- An integer is accepted where a real number is wanted. -/
def real? : Value → Option Float
  | .float x => some x
  | .integer n => some (Float.ofInt n)
  | _ => none

def nat? : Value → Option Nat
  | .integer n => if 0 ≤ n then some n.toNat else none
  | _ => none

def text? : Value → Option String
  | .string s => some s
  | _ => none

/-- What a section gives for a key. An array gives values in the order of the section's keys, and
a date gives none. -/
def entry? (place : Nat) (key : String) : Value → Option (Option Value)
  | .braced fields | .table _ fields => some (fields.lookup key)
  | .array items => some items[place]?
  | .tables elements => some (elements[place]?.map .braced)
  | .datetime => some none
  | _ => none

def parameter {α : Type} (read : Value → Option α) (default : α) (document : Fields)
    (heading : String) (place : Nat) (key : String) : Option α :=
  match document.lookup heading with
  | none => some default
  | some s => do
    match ← entry? place key s with
    | none => return default
    | some v => read v

/-- The configuration of a document, unless a parameter has a value of the wrong kind. -/
def ofFields (document : Fields) : Option Config := do
  let base : Config := {}
  let level ← parameter real? base.comparison.confidenceLevel document
    "comparison" 0 "confidence_level"
  let threshold ← parameter real? base.comparison.significanceThreshold document
    "comparison" 1 "significance_threshold"
  let iterations ← parameter nat? base.comparison.bootstrapIterations document
    "comparison" 2 "bootstrap_iterations"
  return {
    tolerance := ← parameter real? base.tolerance document "filter" 0 "tolerance"
    seed := ← parameter (fun v => (nat? v).map fun n => some (UInt64.ofNat n)) base.seed document
      "sampling" 0 "seed"
    comparison := ⟨level, threshold, iterations⟩
    format := ← parameter text? base.format document "output" 0 "format" }

def ofText (text : String) : Option Config := do ofFields (← Toml.parse text)

end Reading

def defaultText : String := String.join <| List.map (· ++ "\n")
  ["# QuietBench Configuration",
    "",
    "[filter]",
    "# How far above the largest normal sample a new maximum may land before it is",
    "# treated as an interruption, as a multiple of the window's normal spread",
    "tolerance = 1.0",
    "",
    "[sampling]",
    "# Seed for reproducible comparisons (uncomment to enable)",
    "# seed = 42",
    "",
    "[comparison]",
    "# Confidence level (0.0 to 1.0, exclusive)",
    "confidence_level = 0.95",
    "# Relative change (percent) required for a significant result",
    "significance_threshold = 5.0",
    "# Bootstrap resamples of the difference of means",
    "bootstrap_iterations = 1000",
    "",
    "[output]",
    "# Default output format: human, json",
    "format = \"human\""]

end Config
end TimingStats
