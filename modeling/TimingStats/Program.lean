import TimingStats.CommandLine.Arguments
import TimingStats.CommandLine.Help
import TimingStats.Config.Discovery
import TimingStats.Report.Document
import TimingStats.Report.Human
import TimingStats.Samples
import TimingStats.Settings

/-! # The program

A run reads its arguments, finds the configuration of the directory that it works in, carries out
a command, and reports to the terminal or to a file. -/

namespace TimingStats

inductive Failure where
  | settings (e : SettingsError)
  | unreadable (path : String) (e : FileError)
  | unparsable (path : String) (e : Samples.ParseError)
  | analysis (e : AnalysisError)
  | comparison (e : ComparisonError)
  /-- The file to report to cannot be made. -/
  | uncreated (path : String) (e : FileError)
  /-- A configuration is there already. -/
  | occupied (path : String)
  | unwritten (path : String) (e : FileError)
  | fault (f : Fault)

namespace Failure

def messages : Failure → List String
  | settings e => [e.message]
  | unreadable path e => ["Failed to read " ++ path, e.message]
  | unparsable path e => ("Failed to parse " ++ path) :: e.messages
  | analysis e => e.messages
  | comparison e => [e.message]
  | uncreated path e => ["Failed to create " ++ path, e.message]
  | occupied path => [path ++ " already exists (use --force to overwrite)"]
  | unwritten path e => ["Failed to write " ++ path, e.message]
  | fault f => [f.message]

/-- A line for each cause; several causes are numbered from zero. -/
def causeLines : List String → List String
  | [] => []
  | [cause] => ["    " ++ cause]
  | causes => causes.mapIdx fun i cause => "    " ++ Decimal.digitText i ++ ": " ++ cause

def text (f : Failure) : String :=
  match f.messages with
  | [] => "Error: "
  | message :: [] => "Error: " ++ message
  | message :: causes =>
    "Error: " ++ message ++ "\n\nCaused by:\n" ++ String.intercalate "\n" (causeLines causes)

end Failure

inductive Outcome where
  /-- Something is printed, and all is well. -/
  | done (output : String)
  | failed (f : Failure)
  /-- A precondition of the computation is broken. -/
  | faulted (f : Fault)
  | refused (e : CommandLine.UsageError)

namespace Outcome

def exitCode : Outcome → Nat
  | done _ => 0
  | failed _ => 1
  | refused _ => 2
  | faulted _ => 101

def output : Outcome → String
  | done text => text
  | _ => ""

def diagnosis : Outcome → String
  | done _ => ""
  | failed f => f.text ++ "\n"
  | faulted f => f.message ++ "\n"
  | refused e => e.message

end Outcome

namespace Program

open CommandLine (Command Invocation Stop)

def analyzeText (source text : String) (tolerance : Float) :
    Except Failure (Analysis × Distribution) := do
  let samples ← (Samples.parse text).mapError (.unparsable source)
  let result ← (Analysis.ofSamples source samples tolerance).mapError .fault
  result.mapError .analysis

def compareAnalyzed (baseline candidate : Analysis × Distribution) (config : ComparisonConfig)
    (seed : UInt64) : Except Failure ComparisonReport := do
  let result ← (Comparison.compare baseline.2 candidate.2 config
    (Random.WordStream.ofSeed seed)).mapError .fault
  let (comparison, _) ← result.mapError .comparison
  return ⟨baseline.1, candidate.1, comparison⟩

def renderAnalysis (a : Analysis) : OutputFormat → Except Failure String
  | .json => .ok (Report.analysisJson a)
  | .human => (Report.humanAnalysis a).mapError .fault

def renderComparison (r : ComparisonReport) : OutputFormat → Except Failure String
  | .json => .ok (Report.comparisonJson r)
  | .human => (Report.humanComparison r).mapError .fault

section Files

variable {m : Type → Type} [Monad m] [FileSystem m]

abbrev Step (m : Type → Type) := ExceptT Failure m

def analyzeFile (file : String) (tolerance : Float) : Step m (Analysis × Distribution) := do
  match ← ExceptT.lift (FileSystem.readText (.ofString file)) with
  | .error e => throw (.unreadable file e)
  | .ok text => ExceptT.mk (pure (analyzeText file text tolerance))

/-- Analyses two files, the baseline first, and compares them. A comparison without a seed takes the
fresh one. -/
def compareFiles (baseline candidate : String) (settings : Settings) (freshSeed : UInt64) :
    Step m ComparisonReport := do
  let baseline ← analyzeFile baseline settings.tolerance
  let candidate ← analyzeFile candidate settings.tolerance
  ExceptT.mk (pure (compareAnalyzed baseline candidate settings.comparison
    (settings.seed.getD freshSeed)))

/-- Puts a report where it is wanted, and gives what is printed. -/
def deliver (output : Option String) (report : String) : Step m String := do
  match output with
  | none => return report
  | some file =>
    match ← ExceptT.lift (FileSystem.writeText (.ofString file) report) with
    | .error e => throw (.uncreated file e)
    | .ok () => return "Report written to: " ++ file ++ "\n"

def writeConfig (force : Bool) : Step m String := do
  let file := Path.ofString Config.fileName
  if !force && (← ExceptT.lift (FileSystem.isThere file)) then throw (.occupied Config.fileName)
  match ← ExceptT.lift (FileSystem.writeText file Config.defaultText) with
  | .error e => throw (.unwritten Config.fileName e)
  | .ok () => return "Configuration written to: " ++ Config.fileName ++ "\n"

def carryOut (i : Invocation) (settings : Settings) (freshSeed : UInt64) : Step m String := do
  match i.command with
  | .analyze file =>
    let (analysis, _) ← analyzeFile file settings.tolerance
    deliver i.options.output (← ExceptT.mk (pure (renderAnalysis analysis settings.format)))
  | .compare baseline candidate =>
    let report ← compareFiles baseline candidate settings freshSeed
    deliver i.options.output (← ExceptT.mk (pure (renderComparison report settings.format)))
  | .initConfig force => writeConfig force

/-- Carries out a command with the settings that hold in a directory, given as names from the
root. -/
def invoke (directory : List String) (i : Invocation) (freshSeed : UInt64) : Step m String := do
  let config ← ExceptT.lift (Config.discover directory)
  let settings := Settings.resolve i.options (config.getD {})
  let settings ← ExceptT.mk (pure (settings.mapError .settings))
  carryOut i settings freshSeed

def run (directory : List String) (freshSeed : UInt64) (arguments : List String) : m Outcome := do
  match CommandLine.read arguments with
  | .error (.help topic) => return .done topic.text
  | .error .version => return .done CommandLine.versionText
  | .error (.usage e) => return .refused e
  | .ok i =>
    match ← (invoke directory i freshSeed).run with
    | .ok output => return .done output
    | .error (.fault f) => return .faulted f
    | .error f => return .failed f

end Files
end Program
end TimingStats
