/-! # What a command line asks for

The program has three commands. Its options may stand before or after the command; of an option
given in both places, the one after the command counts. -/

namespace TimingStats.CommandLine

inductive Command where
  /-- Summarise the samples of a file. -/
  | analyze (file : String)
  /-- Compare the samples of two files. -/
  | compare (baseline candidate : String)
  /-- Write the default configuration, where there is none or in any case. -/
  | initConfig (force : Bool)
  deriving DecidableEq, Repr

structure Options where
  format : Option String := none
  /-- The file to report to. -/
  output : Option String := none
  seed : Option UInt64 := none
  tolerance : Option Float := none
  verbose : Bool := false

namespace Options

def isEmpty (o : Options) : Bool :=
  o.format.isNone && o.output.isNone && o.seed.isNone && o.tolerance.isNone && !o.verbose

/-- Options of which those after the command count first. -/
def after (inner outer : Options) : Options where
  format := inner.format.or outer.format
  output := inner.output.or outer.output
  seed := inner.seed.or outer.seed
  tolerance := inner.tolerance.or outer.tolerance
  verbose := inner.verbose || outer.verbose

end Options

structure Invocation where
  command : Command
  options : Options

inductive Level where
  | program
  | analyze
  | compare
  | initConfig
  deriving DecidableEq, Repr

inductive Topic where
  | level (l : Level)
  | help
  deriving DecidableEq, Repr

inductive UsageError where
  /-- There are no arguments at all. -/
  | nothingGiven
  | missingCommand
  | unknownCommand
  | missingOperand
  | unknownArgument
  /-- An option that may stand once stands twice. -/
  | repeatedOption
  /-- A flag is given a value. -/
  | unwantedValue
  /-- An option or an operand has no value, or an empty one. -/
  | missingValue
  /-- A value is not of the kind that its option takes. -/
  | invalidValue
  deriving DecidableEq, Repr

inductive Stop where
  | help (topic : Topic)
  | version
  | usage (e : UsageError)
  deriving DecidableEq, Repr

end TimingStats.CommandLine
