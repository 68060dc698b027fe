import TimingStats.CommandLine.Basic
import TimingStats.Text.Integer
import TimingStats.Text.Real

/-! # Reading arguments

Arguments are read from the left, first those of the program and then, from the word that names
a command on, those of the command. A value that stands in an argument of its own is checked only
when the next option or operand comes, or the end, so a fault in between is found first. -/

namespace TimingStats.CommandLine

inductive ValueOption where
  | format
  | output
  | seed
  | tolerance
  deriving DecidableEq, Repr

inductive Flag where
  | verbose
  | force
  | help
  | version
  deriving DecidableEq, Repr

/-- What a name with one or two dashes stands for. -/
inductive Switch where
  | option (o : ValueOption)
  | flag (f : Flag)
  deriving DecidableEq, Repr

namespace Level

def ofName : String → Option Level
  | "analyze" => some .analyze
  | "compare" => some .compare
  | "init-config" => some .initConfig
  | _ => none

def isCommand (l : Level) (word : String) : Bool :=
  l == .program && (word == "help" || (ofName word).isSome)

def arity : Level → Nat
  | .program | .initConfig => 0
  | .analyze => 1
  | .compare => 2

def long? (l : Level) : String → Option Switch
  | "format" => some (.option .format)
  | "output" => some (.option .output)
  | "seed" => some (.option .seed)
  | "tolerance" => some (.option .tolerance)
  | "verbose" => some (.flag .verbose)
  | "help" => some (.flag .help)
  | "version" => if l = .program then some (.flag .version) else none
  | "force" => if l = .initConfig then some (.flag .force) else none
  | _ => none

def short? (l : Level) : Char → Option Switch
  | 'o' => some (.option .output)
  | 'v' => some (.flag .verbose)
  | 'h' => some (.flag .help)
  | 'V' => if l = .program then some (.flag .version) else none
  | _ => none

end Level

def refuse {α : Type} (e : UsageError) : Except Stop α := .error (.usage e)

def once {α : Type} (old : Option α) (value : Except Stop α) : Except Stop (Option α) :=
  if old.isSome then refuse .repeatedOption else some <$> value

def path (text : String) : Except Stop String :=
  if text.isEmpty then refuse .missingValue else .ok text

def seedValue (text : String) : Except Stop UInt64 :=
  match Text.readUInt64 text.toList with
  | .ok n => .ok (UInt64.ofNat n)
  | .error _ => refuse .invalidValue

def toleranceValue (text : String) : Except Stop Float :=
  match Text.readReal text.toList with
  | some x => .ok x
  | none => refuse .invalidValue

def Options.set (o : Options) (text : String) : ValueOption → Except Stop Options
  | .format => return { o with format := ← once o.format (.ok text) }
  | .output => return { o with output := ← once o.output (path text) }
  | .seed => return { o with seed := ← once o.seed (seedValue text) }
  | .tolerance => return { o with tolerance := ← once o.tolerance (toleranceValue text) }

/-- What has been read last and waits to be checked. -/
inductive Pending where
  | nothing
  | operand (text : String)
  /-- An option, whose value may still be to come. -/
  | option (o : ValueOption) (value : Option String)
  deriving DecidableEq, Repr

structure Progress where
  options : Options := {}
  force : Bool := false
  operands : List String := []
  pending : Pending := .nothing
  /-- Two dashes alone have passed, after which no argument is an option. -/
  escaped : Bool := false

namespace Progress

def settle (s : Progress) : Except Stop Progress :=
  match s.pending with
  | .nothing => .ok s
  | .operand text =>
    return { s with operands := s.operands ++ [← path text], pending := .nothing }
  | .option _ none => refuse .missingValue
  | .option o (some text) =>
    return { s with options := ← s.options.set text o, pending := .nothing }

def flag (l : Level) (s : Progress) (f : Flag) : Except Stop Progress := do
  let s ← s.settle
  match f with
  | .help => .error (.help (.level l))
  | .version => .error .version
  | .verbose =>
    if s.options.verbose then refuse .repeatedOption
    else return { s with options := { s.options with verbose := true } }
  | .force => if s.force then refuse .repeatedOption else return { s with force := true }

/-- Meets an option. A value in the same argument is checked at once. -/
def option (s : Progress) (o : ValueOption) : Option String → Except Stop Progress
  | some text => do
    let s ← s.settle
    return { s with options := ← s.options.set text o }
  | none => return { ← s.settle with pending := .option o none }

def long (l : Level) (s : Progress) (cs : List Char) : Except Stop Progress :=
  let value := match cs.dropWhile (· != '=') with
    | [] => none
    | _ :: value => some (String.ofList value)
  match l.long? (String.ofList (cs.takeWhile (· != '='))), value with
  | none, _ => refuse .unknownArgument
  | some (.flag f), none => s.flag l f
  | some (.flag _), some _ => refuse .unwantedValue
  | some (.option o), value => s.option o value

/-- The letters after one dash. What follows the letter of an option, an equals sign apart, is
its value. -/
def short (l : Level) : Progress → List Char → Except Stop Progress
  | s, [] => .ok s
  | s, c :: cs =>
    match l.short? c with
    | none => refuse .unknownArgument
    | some (.flag f) => do short l (← s.flag l f) cs
    | some (.option o) =>
      match cs with
      | [] => s.option o none
      | '=' :: value => s.option o (some (String.ofList value))
      | value => s.option o (some (String.ofList value))

def operandCount (s : Progress) : Nat :=
  s.operands.length + match s.pending with
    | .operand _ => 1
    | _ => 0

def operand (l : Level) (s : Progress) (text : String) : Except Stop Progress :=
  if s.operandCount < l.arity then return { ← s.settle with pending := .operand text }
  else if l = .program && !(s.escaped && l.isCommand text) then refuse .unknownCommand
  else refuse .unknownArgument

/-- Whether the next argument is the value of an option, if it has no dash. -/
def awaitsValue (s : Progress) : Bool :=
  match s.pending with
  | .option _ none => !s.escaped
  | _ => false

def argument (l : Level) (s : Progress) (text : String) : Except Stop Progress :=
  if s.escaped then s.operand l text
  else match text.toList with
    | ['-', '-'] => .ok { s with escaped := true }
    | '-' :: '-' :: cs => s.long l cs
    | '-' :: c :: cs => s.short l (c :: cs)
    | _ =>
      match s.pending with
      | .option o none => .ok { s with pending := .option o (some text) }
      | _ => s.operand l text

/-- Reads arguments up to the name of a command, and gives that name and what follows. -/
def scan (l : Level) :
    Progress → List String → Except Stop (Progress × Option (String × List String))
  | s, [] => .ok (s, none)
  | s, text :: rest =>
    if l.isCommand text && !s.escaped && !s.awaitsValue then .ok (s, some (text, rest))
    else do scan l (← s.argument l text) rest

/-- The command of a level, from what has been read of its arguments. -/
def command (l : Level) (s : Progress) : Except Stop Command :=
  match l, s.operands with
  | .analyze, [file] => .ok (.analyze file)
  | .compare, [baseline, candidate] => .ok (.compare baseline candidate)
  | .initConfig, [] => .ok (.initConfig s.force)
  | _, _ => refuse .missingOperand

end Progress

def readCommand (l : Level) (arguments : List String) : Except Stop Invocation := do
  let (s, _) ← Progress.scan l {} arguments
  let s ← s.settle
  return ⟨← s.command l, s.options⟩

def helpTopic : List String → Except Stop Topic
  | [] => .ok (.level .program)
  | ["help"] => .ok .help
  | [word] =>
    match Level.ofName word with
    | some l => .ok (.level l)
    | none => refuse .unknownCommand
  | _ => refuse .unknownCommand

def read (arguments : List String) : Except Stop Invocation := do
  let (s, word) ← Progress.scan .program {} arguments
  match word with
  | none =>
    let s ← s.settle
    refuse (if s.options.isEmpty then .nothingGiven else .missingCommand)
  | some (name, rest) =>
    match Level.ofName name with
    | none => .error (.help (← helpTopic rest))
    | some l =>
      let inner ← readCommand l rest
      let s ← s.settle
      return { inner with options := inner.options.after s.options }

end TimingStats.CommandLine
