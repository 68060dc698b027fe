import TimingStats.CommandLine.Basic

/-! # Texts of the command line

The help on each topic, the version, and the messages of usage errors. -/

namespace TimingStats.CommandLine

def programName : String := "quietbench"

def versionText : String := programName ++ " 0.1.0\n"

/-- Rows of a term and its explanation, in two columns. -/
def columns (rows : List (String × String)) : List String :=
  let width := rows.foldl (fun w row => max w row.1.length) 0
  rows.map fun (term, explanation) =>
    "  " ++ term.pushn ' ' (width - term.length + 2) ++ explanation

/-- A part of a help text under a heading, after a blank line. -/
def part (heading : String) (rows : List (String × String)) : List String :=
  if rows.isEmpty then [] else ["", heading ++ ":"] ++ columns rows

def helpExplanation : String := "Print this message or the help of the given subcommand(s)"

def Topic.about : Topic → String
  | .level .program => "QuietBench - noise-filtered timing statistics"
  | .level .analyze => "Filter and summarize one sample file"
  | .level .compare => "Compare a candidate sample file against a baseline"
  | .level .initConfig => "Write a default quiet.toml to the current directory"
  | .help => helpExplanation

def Topic.usage : Topic → String
  | .level .program => "[OPTIONS] <COMMAND>"
  | .level .analyze => "analyze [OPTIONS] <FILE>"
  | .level .compare => "compare [OPTIONS] <BASELINE> <CANDIDATE>"
  | .level .initConfig => "init-config [OPTIONS]"
  | .help => "help [COMMAND]..."

def Topic.commands : Topic → List (String × String)
  | .level .program =>
    [("analyze", Topic.about (.level .analyze)), ("compare", Topic.about (.level .compare)),
      ("init-config", Topic.about (.level .initConfig)), ("help", helpExplanation)]
  | _ => []

def Topic.operands : Topic → List (String × String)
  | .level .analyze => [("<FILE>", "Sample file (one nanosecond value per line)")]
  | .level .compare =>
    [("<BASELINE>", "Baseline sample file"), ("<CANDIDATE>", "Candidate sample file")]
  | .help => [("[COMMAND]...", "Print help for the subcommand(s)")]
  | _ => []

def commonOptions : List (String × String) :=
  [("    --format <FORMAT>", "Output format: human, json (defaults to quiet.toml, then human)"),
    ("-o, --output <OUTPUT>", "Output file (stdout if not specified)"),
    ("    --seed <SEED>", "Seed for reproducible resampling"),
    ("    --tolerance <TOLERANCE>", "Temporal filter tolerance"),
    ("-v, --verbose", "Verbose output"),
    ("-h, --help", "Print help")]

def Topic.options : Topic → List (String × String)
  | .level .program => commonOptions ++ [("-V, --version", "Print version")]
  | .level .initConfig => ("    --force", "Overwrite an existing file") :: commonOptions
  | .level _ => commonOptions
  | .help => []

def Topic.text (t : Topic) : String :=
  String.join <| List.map (· ++ "\n") <|
    [t.about, "", "Usage: " ++ programName ++ " " ++ t.usage] ++ part "Commands" t.commands ++
      part "Arguments" t.operands ++ part "Options" t.options

namespace UsageError

def cause : UsageError → String
  | nothingGiven | missingCommand => "a command is missing"
  | unknownCommand => "the command is not known"
  | missingOperand => "a file is missing"
  | unknownArgument => "an argument is not expected"
  | repeatedOption => "an option is given twice"
  | unwantedValue => "a flag is given a value"
  | missingValue => "a value is missing"
  | invalidValue => "a value is not valid"

def message (e : UsageError) : String :=
  if e = .nothingGiven then Topic.text (.level .program)
  else "error: " ++ e.cause ++ "\n\nFor more information, try '--help'.\n"

end UsageError
end TimingStats.CommandLine
